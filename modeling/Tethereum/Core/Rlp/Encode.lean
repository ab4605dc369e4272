import Tethereum.Core.BigEndian

/-!
# Recursive length prefix encoding

A byte string or a list payload of at most 55 bytes is preceded by one byte
that holds its length; a longer one is preceded by the size of its length and
by the length itself, in minimal big-endian form. A single byte below `0x80`
is its own encoding.

`RlpStream` is the append-only writer of the format: a list is opened with the
number of items it will hold, and its header is inserted in front of the
payload when the last of them has been written. Lists are not nested here, so
an appended item is always a byte string.
-/

namespace Rlp

/-- The bytes in front of a payload of `len` bytes; `base` is `0x80` for byte
strings and `0xc0` for lists. -/
def sizePrefix (base len : Nat) : List UInt8 :=
  if len ≤ 55 then [UInt8.ofNat (base + len)]
  else UInt8.ofNat (base + 55 + (BigEndian.toBytes len).length) :: BigEndian.toBytes len

/-- The encoding of a byte string. -/
def encodeValue (value : List UInt8) : List UInt8 :=
  match value with
  | [] => [0x80]
  | [b] => if b < 0x80 then [b] else sizePrefix 0x80 1 ++ [b]
  | value => sizePrefix 0x80 value.length ++ value

/-- The header of a list whose encoded items take `len` bytes. -/
def listHeader (len : Nat) : List UInt8 := sizePrefix 0xc0 len

/-- The encoding of a list of already encoded items. -/
def encodeList (items : List (List UInt8)) : List UInt8 :=
  listHeader items.flatten.length ++ items.flatten

/-- Types whose values are written as one byte string. -/
class Encodable (α : Type) where
  /-- The byte string that stands for the value. -/
  toValue : α → List UInt8

/-- The encoded item of a value. -/
def encode {α : Type} [Encodable α] (a : α) : List UInt8 :=
  encodeValue (Encodable.toValue a)

/-- An open list: where its payload starts, and how many of its items are written. -/
structure ListInfo where
  /-- Offset of the first payload byte, one past the reserved header byte. -/
  position : Nat
  /-- Items written so far. -/
  current : Nat
  /-- Items announced when the list was opened. -/
  max : Nat
  deriving DecidableEq, Repr

/-- The bytes written so far and the lists still open, innermost first. -/
structure RlpStream where
  /-- Written bytes. -/
  buffer : List UInt8 := []
  /-- Open lists. -/
  unfinishedLists : List ListInfo := []
  deriving DecidableEq, Repr

namespace RlpStream

/-- Replace the reserved header byte in front of `pos` by the header of the payload after it. -/
def insertListPayload (buffer : List UInt8) (pos : Nat) : List UInt8 :=
  buffer.take (pos - 1) ++ listHeader (buffer.length - pos) ++ buffer.drop pos

/-- Count one finished item, closing every list it completes. -/
def noteAppended (buffer : List UInt8) : List ListInfo → RlpStream
  | [] => { buffer := buffer, unfinishedLists := [] }
  | x :: outer =>
    if x.current + 1 = x.max then noteAppended (insertListPayload buffer x.position) outer
    else { buffer := buffer, unfinishedLists := { x with current := x.current + 1 } :: outer }

/-- Open a list of `len` items; the empty list is written at once. -/
def beginList (s : RlpStream) (len : Nat) : RlpStream :=
  if len = 0 then noteAppended (s.buffer ++ [0xc0]) s.unfinishedLists
  else
    { buffer := s.buffer ++ [0]
      unfinishedLists := ⟨s.buffer.length + 1, 0, len⟩ :: s.unfinishedLists }

/-- Write one encoded item. -/
def appendItem (s : RlpStream) (item : List UInt8) : RlpStream :=
  noteAppended (s.buffer ++ item) s.unfinishedLists

/-- Write a value as one item. -/
def append {α : Type} [Encodable α] (s : RlpStream) (a : α) : RlpStream :=
  s.appendItem (encode a)

/-- Writing fewer items than announced only extends the payload. -/
theorem foldl_appendItem_open (items : List (List UInt8)) (buffer : List UInt8)
    (x : ListInfo) (outer : List ListInfo) (h : x.current + items.length < x.max) :
    items.foldl appendItem ⟨buffer, x :: outer⟩ =
      ⟨buffer ++ items.flatten, { x with current := x.current + items.length } :: outer⟩ := by
  induction items generalizing buffer x with
  | nil => simp
  | cons item items ih =>
    simp only [List.length_cons] at h
    have hne : x.current + 1 ≠ x.max := by omega
    have hstep : appendItem ⟨buffer, x :: outer⟩ item =
        ⟨buffer ++ item, { x with current := x.current + 1 } :: outer⟩ := by
      simp only [appendItem, noteAppended, hne, ite_false]
    rw [List.foldl_cons, hstep, ih _ { x with current := x.current + 1 } (by simp only; omega)]
    simp only [List.flatten_cons, List.append_assoc, List.length_cons]
    congr 3
    omega

/-- A stream that opens one list and writes the announced items holds the list's encoding. -/
theorem foldl_appendItem_beginList {items : List (List UInt8)} (h : items ≠ []) :
    items.foldl appendItem (beginList {} items.length) = ⟨encodeList items, []⟩ := by
  have hl : items.length ≠ 0 := by simpa using h
  obtain ⟨init, last, rfl⟩ := List.eq_nil_or_concat'  items |>.resolve_left h
  rw [List.foldl_append, beginList]
  simp only [hl, ite_false, List.nil_append, List.length_nil, Nat.zero_add]
  rw [foldl_appendItem_open _ _ _ _ (by simp)]
  simp [appendItem, noteAppended, insertListPayload, encodeList]

end RlpStream

end Rlp
