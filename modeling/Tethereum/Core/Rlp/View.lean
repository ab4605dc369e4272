import Tethereum.Core.Rlp.Encode

/-!
# Views of encoded bytes

The reader of the format works on a view: a byte buffer, and a memo of where
the last visited item of its list starts. The header of an item is checked
against the bytes of the buffer it starts in, and an item found through the
memo is read from the whole buffer of the view. Items are counted until the
first one that does not parse.
-/

namespace Rlp

/-- Why a decoder gave up. -/
inductive DecoderError
  /-- The data has more bytes than the value. -/
  | rlpIsTooBig
  /-- The data has fewer bytes than announced. -/
  | rlpIsTooShort
  /-- The item is no list. -/
  | rlpExpectedToBeList
  /-- The item is a list. -/
  | rlpExpectedToBeData
  /-- The list has another number of items. -/
  | rlpIncorrectListLen
  /-- The length begins with a zero. -/
  | rlpDataLenWithZeroPrefix
  /-- The item has a shorter form. -/
  | rlpInvalidIndirection
  /-- The announced length runs over the end. -/
  | rlpInconsistentLengthAndData
  deriving DecidableEq, Repr

/-- The two lengths an item's header announces. -/
structure PayloadInfo where
  /-- Header length in bytes. -/
  headerLen : Nat
  /-- Value length in bytes. -/
  valueLen : Nat
  deriving DecidableEq, Repr

/-- Total size of the item. -/
def PayloadInfo.total (info : PayloadInfo) : Nat := info.headerLen + info.valueLen

/-- Read the big-endian size field of a long header; it has at most eight bytes. -/
def decodeUsize (bytes : List UInt8) : Except DecoderError Nat :=
  if bytes.length ≤ 8 then
    if bytes.head? = some 0 then .error .rlpInvalidIndirection
    else .ok (BigEndian.ofBytes bytes)
  else .error .rlpIsTooBig

/-- The lengths announced by a long header with `lenOfLen` size bytes. -/
def calculatePayloadInfo (headerBytes : List UInt8) (lenOfLen : Nat) :
    Except DecoderError PayloadInfo :=
  match (headerBytes[1]? : Option UInt8) with
  | some 0 => .error .rlpDataLenWithZeroPrefix
  | none => .error .rlpIsTooShort
  | some _ =>
    if headerBytes.length < 1 + lenOfLen then .error .rlpIsTooShort
    else
      match decodeUsize ((headerBytes.drop 1).take lenOfLen) with
      | .error e => .error e
      | .ok valueLen =>
        if valueLen ≤ 55 then .error .rlpInvalidIndirection else .ok ⟨1 + lenOfLen, valueLen⟩

/-- The lengths announced by the first byte and, in the long forms, its size field. -/
def PayloadInfo.ofHeader (headerBytes : List UInt8) : Except DecoderError PayloadInfo :=
  match headerBytes with
  | [] => .error .rlpIsTooShort
  | l :: _ =>
    if l ≤ 0x7f then .ok ⟨0, 1⟩
    else if l ≤ 0xb7 then .ok ⟨1, l.toNat - 0x80⟩
    else if l ≤ 0xbf then calculatePayloadInfo headerBytes (l.toNat - 0xb7)
    else if l ≤ 0xf7 then .ok ⟨1, l.toNat - 0xc0⟩
    else calculatePayloadInfo headerBytes (l.toNat - 0xf7)

/-- The first item's lengths, provided that the item fits in the bytes. -/
def payloadInfo (bytes : List UInt8) : Except DecoderError PayloadInfo :=
  match PayloadInfo.ofHeader bytes with
  | .error e => .error e
  | .ok info => if info.total ≤ bytes.length then .ok info else .error .rlpIsTooShort

/-- The byte string of the first item. -/
def decodeValue (bytes : List UInt8) : Except DecoderError (List UInt8) :=
  match bytes with
  | [] => .error .rlpIsTooShort
  | l :: tail =>
    if l ≤ 0x7f then .ok [l]
    else if l ≤ 0xb7 then
      if bytes.length < 1 + (l.toNat - 0x80) then .error .rlpInconsistentLengthAndData
      else
        let d := tail.take (l.toNat - 0x80)
        -- a single byte below 0x80 must be its own encoding
        if l = 0x81 ∧ d.headD 0 < 0x80 then .error .rlpInvalidIndirection else .ok d
    else if l ≤ 0xbf then
      let lenOfLen := l.toNat - 0xb7
      if bytes.length < 1 + lenOfLen then .error .rlpInconsistentLengthAndData
      else
        match decodeUsize (tail.take lenOfLen) with
        | .error e => .error e
        | .ok len =>
          if bytes.length < 1 + lenOfLen + len then .error .rlpInconsistentLengthAndData
          else .ok ((tail.drop lenOfLen).take len)
    else .error .rlpExpectedToBeData

/-- Where the item with a given index starts in the buffer. -/
structure OffsetCache where
  /-- Item index. -/
  index : Nat
  /-- Offset of the item from the start of the buffer. -/
  offset : Nat
  deriving DecidableEq, Repr

/-- A buffer with the memo of the last visited item. -/
structure View where
  /-- The whole buffer. -/
  bytes : List UInt8
  /-- Last visited item. -/
  offsetCache : Option OffsetCache := none
  deriving DecidableEq, Repr

/-- Skip a prefix of `len` bytes. -/
def consume (bytes : List UInt8) (len : Nat) : Except DecoderError (List UInt8) :=
  if len ≤ bytes.length then .ok (bytes.drop len) else .error .rlpIsTooShort

/-- Skip a number of items, reporting how many bytes they took. -/
def consumeItems (bytes : List UInt8) : Nat → Except DecoderError (List UInt8 × Nat)
  | 0 => .ok (bytes, 0)
  | items + 1 => do
    let i ← payloadInfo bytes
    let rest ← consume bytes i.total
    let (rest, consumed) ← consumeItems rest items
    return (rest, i.total + consumed)

namespace View

/-- The undecoded bytes of the view. -/
def asRaw (r : View) : List UInt8 := r.bytes

/-- The view starts with an empty string or an empty list. -/
def isEmpty (r : View) : Bool := r.bytes.head? == some 0xc0 || r.bytes.head? == some 0x80

/-- The view starts with a list header. -/
def isList (r : View) : Bool := r.bytes.head?.any fun l => 0xc0 ≤ l

/-- The view starts with a byte string. -/
def isData (r : View) : Bool := r.bytes.head?.any fun l => l < 0xc0

/-- The list's payload and the length of the header in front of it. -/
def consumeListPayload (r : View) : Except DecoderError (List UInt8 × Nat) := do
  let item ← payloadInfo r.bytes
  return ((r.bytes.drop item.headerLen).take item.valueLen, item.headerLen)

/-- Start from the memo when it is not past `index`, otherwise from the payload:
the bytes to read, the items to skip in them, and their offset in the buffer. -/
def seek (r : View) (index : Nat) : Except DecoderError (List UInt8 × Nat × Nat) :=
  match r.offsetCache.filter (·.index ≤ index) with
  | some cache => do
    let bytes ← consume r.bytes cache.offset
    return (bytes, index - cache.index, cache.offset)
  | none => do
    let (bytes, consumed) ← r.consumeListPayload
    return (bytes, index, consumed)

/-- The item with the given index, and the view with its memo moved there. -/
def atIndex (r : View) (index : Nat) : Except DecoderError View × View :=
  if r.isList then
    match r.seek index with
    | .error e => (.error e, r)
    | .ok (bytes, skip, before) =>
      match consumeItems bytes skip with
      | .error e => (.error e, r)
      | .ok (bytes, consumed) =>
        let r := { r with offsetCache := some ⟨index, before + consumed⟩ }
        match payloadInfo bytes with
        | .error e => (.error e, r)
        | .ok found => (.ok { bytes := bytes.take found.total }, r)
  else (.error .rlpExpectedToBeList, r)

/-- Visit items from `index` on until one of them fails, at most `fuel` of them. -/
def countFrom : Nat → View → Nat → Nat × View
  | 0, r, index => (index, r)
  | fuel + 1, r, index =>
    match r.atIndex index with
    | (.ok _, r) => countFrom fuel r (index + 1)
    | (.error _, r) => (index, r)

/-- Number of items of the list. Every item takes a byte, so the buffer's length bounds it. -/
def itemCount : StateT View (Except DecoderError) Nat := fun r =>
  if r.isList then .ok (countFrom (r.bytes.length + 1) r 0) else .error .rlpExpectedToBeList

end View

/-- Types that can be read back from the bytes of one item. -/
class Decodable (α : Type) where
  /-- Decode a view of the item. -/
  decode : View → Except DecoderError α

/-- Decode a whole view. -/
def View.asVal {α : Type} [Decodable α] (r : View) : Except DecoderError α := Decodable.decode r

/-- Decode the item with the given index. -/
def View.valAt {α : Type} [Decodable α] (index : Nat) : StateT View (Except DecoderError) α :=
  fun r =>
    match r.atIndex index with
    | (.error e, _) => .error e
    | (.ok item, r) => item.asVal.map (·, r)

end Rlp
