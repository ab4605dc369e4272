import Tethereum.Core.Rlp.Codec
import Mathlib.Data.BitVec

/-!
# Primitive types

Unsigned machine and 256-bit integers, byte vectors, and fixed-size hashes,
with their item codecs. Integers are written without leading zeros and read
only in that form; a hash is exactly its bytes.
-/

namespace Tethereum

open Rlp hiding Encodable

/-- `u64`. -/
abbrev U64 := BitVec 64

/-- `U256`. -/
abbrev U256 := BitVec 256

/-- `isize::MAX`, the most elements a vector can hold. -/
def isizeMax : Nat := 2 ^ 63 - 1

/-- `Vec<u8>`. -/
structure Bytes where
  /-- The bytes. -/
  toList : List UInt8
  /-- A vector never outgrows `isize::MAX`. -/
  length_le : toList.length ≤ isizeMax := by decide
  deriving DecidableEq

/-- `Vec::new`. -/
def Bytes.empty : Bytes := ⟨[], Nat.zero_le _⟩

instance : Inhabited Bytes := ⟨Bytes.empty⟩

/-- A hash of `n` bytes. -/
structure FixedHash (n : Nat) where
  /-- Its bytes, in order. -/
  bytes : List UInt8
  /-- There are exactly `n` of them. -/
  length_bytes : bytes.length = n := by decide
  deriving DecidableEq

/-- `H160`, an account address. -/
abbrev H160 := FixedHash 20

/-- `H256`. -/
abbrev H256 := FixedHash 32

/-- `H512`. -/
abbrev H512 := FixedHash 64

/-- `Bloom`. -/
abbrev Bloom := FixedHash 256

namespace FixedHash

variable {n : Nat}

/-- `zero()`. -/
def zero : FixedHash n := ⟨List.replicate n 0, List.length_replicate⟩

instance : Inhabited (FixedHash n) := ⟨zero⟩

/-- Hashes are ordered by their bytes. -/
instance : Ord (FixedHash n) := ⟨fun a b => compare a.bytes b.bytes⟩

instance : Std.TransOrd (FixedHash n) where
  eq_swap := Std.OrientedOrd.eq_swap (α := List UInt8)
  isLE_trans := Std.TransOrd.isLE_trans (α := List UInt8)

/-- Hashes with the same bytes are equal. -/
theorem ext {a b : FixedHash n} (h : a.bytes = b.bytes) : a = b := by
  cases a
  cases b
  cases h
  rfl

instance : Std.LawfulEqOrd (FixedHash n) where
  eq_of_compare h := ext (Std.LawfulEqOrd.eq_of_compare (α := List UInt8) h)

end FixedHash

instance H160.transOrd : Std.TransOrd H160 := FixedHash.instTransOrd
instance H160.lawfulEqOrd : Std.LawfulEqOrd H160 := FixedHash.instLawfulEqOrd
instance H256.transOrd : Std.TransOrd H256 := FixedHash.instTransOrd
instance H256.lawfulEqOrd : Std.LawfulEqOrd H256 := FixedHash.instLawfulEqOrd

/-- `H256::from_low_u64_be`. -/
def H256.fromLowU64Be (x : U64) : H256 :=
  ⟨BigEndian.toBytesFixed 32 x.toNat,
    BigEndian.length_toBytesFixed (lt_of_lt_of_le x.isLt (by decide))⟩

/-- `BigEndianHash::from_uint`: the 32 big-endian bytes of the integer. -/
def H256.fromUint (x : U256) : H256 :=
  ⟨BigEndian.toBytesFixed 32 x.toNat, BigEndian.length_toBytesFixed x.isLt⟩

/-- `U256::from(&[u8])`: a big-endian slice. -/
def U256.fromBytes (bytes : List UInt8) : U256 := BitVec.ofNat 256 (BigEndian.ofBytes bytes)

/-- `H160::from(H256)`: the low 20 bytes. -/
def H160.fromH256 (h : H256) : H160 :=
  ⟨h.bytes.drop 12, by rw [List.length_drop, h.length_bytes]⟩

/-- Thirty-two bytes always fit in a `U256`. -/
theorem U256.toNat_fromBytes {bytes : List UInt8} (h : bytes.length ≤ 32) :
    (U256.fromBytes bytes).toNat = BigEndian.ofBytes bytes := by
  have hlt := BigEndian.ofBytes_lt bytes
  have hle : 256 ^ bytes.length ≤ 256 ^ 32 := Nat.pow_le_pow_right (Nat.succ_pos 255) h
  rw [U256.fromBytes, BitVec.toNat_ofNat]
  exact Nat.mod_eq_of_lt (lt_of_lt_of_le hlt hle)

/-- The bytes of an integer read back as the integer. -/
@[simp] theorem U256.fromBytes_fromUint (x : U256) :
    U256.fromBytes (H256.fromUint x).bytes = x := by
  apply BitVec.eq_of_toNat_eq
  rw [U256.toNat_fromBytes (le_of_eq (H256.fromUint x).length_bytes), H256.fromUint,
    BigEndian.ofBytes_toBytesFixed]

/-- A hash survives its reading as an integer. -/
@[simp] theorem H256.fromUint_fromBytes (h : H256) :
    H256.fromUint (U256.fromBytes h.bytes) = h := by
  apply FixedHash.ext
  have hb := BigEndian.toBytesFixed_ofBytes h.bytes
  rw [h.length_bytes] at hb
  rw [H256.fromUint]
  simp only [U256.toNat_fromBytes (le_of_eq h.length_bytes), hb]

/-! ## Codecs -/

/-- An integer is written without leading zeros; zero is the empty string. -/
instance {w : Nat} : Rlp.Encodable (BitVec w) := ⟨fun x => BigEndian.toBytes x.toNat⟩

instance : Rlp.Encodable UInt8 := ⟨fun x => BigEndian.toBytes x.toNat⟩

instance : Rlp.Encodable Bytes := ⟨Bytes.toList⟩

instance {n : Nat} : Rlp.Encodable (FixedHash n) := ⟨FixedHash.bytes⟩

instance : Decodable UInt8 where
  decode r := do
    let bytes ← decodeValue r.bytes
    match bytes with
    | [] => .ok 0
    | [b] => if b = 0 then .error .rlpInvalidIndirection else .ok b
    | _ => .error .rlpIsTooBig

instance : Decodable U64 where
  decode r := do
    let bytes ← decodeValue r.bytes
    if bytes.length ≤ 1 then
      (Decodable.decode (α := UInt8) r).map fun v => BitVec.ofNat 64 v.toNat
    else if bytes.length ≤ 8 then
      if bytes.head? = some 0 then .error .rlpInvalidIndirection
      else .ok (BitVec.ofNat 64 (BigEndian.ofBytes bytes))
    else .error .rlpIsTooBig

instance : Decodable U256 where
  decode r := do
    let bytes ← decodeValue r.bytes
    if bytes.head? = some 0 then .error .rlpInvalidIndirection
    else if bytes.length ≤ 32 then .ok (U256.fromBytes bytes)
    else .error .rlpIsTooBig

-- a slice of a buffer is never longer than a vector can be
instance : Decodable Bytes where
  decode r := do
    let bytes ← decodeValue r.bytes
    if h : bytes.length ≤ isizeMax then .ok ⟨bytes, h⟩ else .error .rlpIsTooBig

instance {n : Nat} : Decodable (FixedHash n) where
  decode r := do
    let bytes ← decodeValue r.bytes
    if bytes.length < n then .error .rlpIsTooShort
    else if h : bytes.length = n then .ok ⟨bytes, h⟩
    else .error .rlpIsTooBig

/-- Decoding through `decodeValue` is lawful when the decoder of the byte string accepts
exactly the byte strings of values. -/
theorem lawfulCodec_of_value {α : Type} [Rlp.Encodable α] [Decodable α]
    (f : List UInt8 → Except DecoderError α)
    (hf : ∀ bs, Decodable.decode (α := α) { bytes := bs } = (decodeValue bs).bind f)
    (hl : ∀ a : α, (Rlp.Encodable.toValue a).length < 2 ^ 64)
    (hiff : ∀ bs a, f bs = .ok a ↔ Rlp.Encodable.toValue a = bs) : LawfulCodec α where
  length_toValue_lt := hl
  decode_encode a := by
    have h := decodeValue_encodeValue (hl a) []
    rw [List.append_nil] at h
    rw [hf, encode, h]
    exact (hiff _ a).mpr rfl
  encode_decode {item a} h hd := by
    rw [hf] at hd
    cases hv : decodeValue item with
    | error e => simp [hv, Except.bind] at hd
    | ok value =>
      rw [hv] at hd
      rw [(h.eq_encodeValue hv).1, encode, (hiff value a).mp hd]

/-! ### Integers -/

/-- The minimal numeral of a machine integer is as short as the integer is narrow. -/
theorem length_toBytes_le_of_bitVec {w k : Nat} (x : BitVec w) (hw : w ≤ 8 * k) :
    (BigEndian.toBytes x.toNat).length ≤ k := by
  apply BigEndian.length_toBytes_le_iff.mpr
  calc x.toNat < 2 ^ w := x.isLt
    _ ≤ 2 ^ (8 * k) := Nat.pow_le_pow_right Nat.two_pos hw
    _ = 256 ^ k := by rw [Nat.pow_mul]

/-- The minimal numerals of the integers of `k` bytes are the byte strings of at most that
length without a leading zero. -/
theorem toValue_eq_iff {w k : Nat} (hw : w = 8 * k) {x : BitVec w} {bytes : List UInt8} :
    Rlp.Encodable.toValue x = bytes ↔ bytes.head? ≠ some 0 ∧ bytes.length ≤ k ∧
      BitVec.ofNat w (BigEndian.ofBytes bytes) = x := by
  constructor
  · rintro rfl
    refine ⟨BigEndian.head?_toBytes_ne_zero _, length_toBytes_le_of_bitVec x hw.le, ?_⟩
    simp only [Rlp.Encodable.toValue, BigEndian.ofBytes_toBytes, BitVec.ofNat_toNat,
      BitVec.setWidth_eq]
  · rintro ⟨hz, hl, rfl⟩
    have hlt : BigEndian.ofBytes bytes < 2 ^ w :=
      calc BigEndian.ofBytes bytes < 256 ^ bytes.length := BigEndian.ofBytes_lt bytes
        _ ≤ 256 ^ k := Nat.pow_le_pow_right (Nat.succ_pos 255) hl
        _ = 2 ^ w := by rw [hw, Nat.pow_mul]
    simp only [Rlp.Encodable.toValue, BitVec.toNat_ofNat, Nat.mod_eq_of_lt hlt,
      BigEndian.toBytes_ofBytes hz]

instance : LawfulCodec U256 := by
  apply lawfulCodec_of_value (fun bytes =>
    if bytes.head? = some 0 then .error .rlpInvalidIndirection
    else if bytes.length ≤ 32 then .ok (U256.fromBytes bytes) else .error .rlpIsTooBig)
  · intro bs
    rfl
  · intro a
    have hl := length_toBytes_le_of_bitVec (k := 32) a le_rfl
    exact lt_of_le_of_lt hl (by omega)
  · intro bs a
    rw [toValue_eq_iff (k := 32) rfl]
    by_cases hz : bs.head? = some 0
    · simp [hz]
    · by_cases hl : bs.length ≤ 32
      · simp [hz, hl, U256.fromBytes]
      · simp [hz, hl]

/-- Reading a short `u64` through `u8` is reading its numeral. -/
theorem decode_u64_eq (bs : List UInt8) :
    Decodable.decode (α := U64) { bytes := bs } = (decodeValue bs).bind fun bytes =>
      if bytes.length ≤ 8 then
        if bytes.head? = some 0 then .error .rlpInvalidIndirection
        else .ok (BitVec.ofNat 64 (BigEndian.ofBytes bytes))
      else .error .rlpIsTooBig := by
  simp only [Decodable.decode, bind, Except.bind]
  cases decodeValue bs with
  | error e => rfl
  | ok bytes =>
    match bytes with
    | [] => rfl
    | [b] =>
      by_cases hb : b = 0
      · simp [hb, Except.map]
      · simp [hb, Except.map, BigEndian.ofBytes]
    | b :: c :: tail =>
      have hl : ¬ (b :: c :: tail).length ≤ 1 := by simp
      simp only [hl, ite_false]

instance : LawfulCodec U64 := by
  apply lawfulCodec_of_value _ decode_u64_eq
  · intro a
    have hl := length_toBytes_le_of_bitVec (k := 8) a le_rfl
    exact lt_of_le_of_lt hl (by omega)
  · intro bs a
    rw [toValue_eq_iff (k := 8) rfl]
    by_cases hl : bs.length ≤ 8
    · by_cases hz : bs.head? = some 0
      · simp [hl, hz]
      · simp [hl, hz]
    · simp [hl]

/-- An integer's item is short. -/
theorem length_encode_bitVec_le {w : Nat} (x : BitVec w) (hw : w ≤ 256) :
    (encode x).length ≤ 41 := by
  have hl := length_toBytes_le_of_bitVec (k := 32) x hw
  have hlt : (BigEndian.toBytes x.toNat).length < 2 ^ 64 := by omega
  exact le_trans (length_encodeValue_le hlt) (Nat.add_le_add_right hl 9)

/-- The item of a `U256` is short. -/
theorem length_encode_u256_le (x : U256) : (encode x).length ≤ 41 :=
  length_encode_bitVec_le x le_rfl

/-- The item of a `u64` is short. -/
theorem length_encode_u64_le (x : U64) : (encode x).length ≤ 41 :=
  length_encode_bitVec_le x (Nat.le_of_ble_eq_true rfl)

/-! ### Byte vectors and hashes -/

instance : LawfulCodec Bytes := by
  apply lawfulCodec_of_value (fun bytes =>
    if h : bytes.length ≤ isizeMax then .ok ⟨bytes, h⟩ else .error .rlpIsTooBig)
  · intro bs
    rfl
  · intro a
    exact lt_of_le_of_lt a.length_le (by simp only [isizeMax]; omega)
  · rintro bs ⟨bytes, hlen⟩
    by_cases h : bs.length ≤ isizeMax
    · simp [Rlp.Encodable.toValue, h, eq_comm]
    · have hne : bytes ≠ bs := by
        rintro rfl
        exact h hlen
      simp [Rlp.Encodable.toValue, h, hne]

/-- The item of a byte vector is little longer than the longest vector. -/
theorem length_encode_bytes_le (b : Bytes) : (encode b).length ≤ 2 ^ 63 + 9 := by
  have hlen := b.length_le
  simp only [isizeMax] at hlen
  have hitem : (encode b).length ≤ b.toList.length + 9 :=
    length_encodeValue_le (LawfulCodec.length_toValue_lt b)
  omega

instance {n : Nat} [Fact (n < 2 ^ 64)] : LawfulCodec (FixedHash n) := by
  apply lawfulCodec_of_value (fun bytes =>
    if bytes.length < n then .error .rlpIsTooShort
    else if h : bytes.length = n then .ok ⟨bytes, h⟩ else .error .rlpIsTooBig)
  · intro bs
    rfl
  · intro a
    exact lt_of_eq_of_lt a.length_bytes Fact.out
  · rintro bs ⟨bytes, hlen⟩
    by_cases h : bs.length = n
    · simp [Rlp.Encodable.toValue, h, eq_comm]
    · have hne : bytes ≠ bs := by
        rintro rfl
        exact h hlen
      by_cases hlt : bs.length < n
      · simp [Rlp.Encodable.toValue, hlt, hne]
      · simp [Rlp.Encodable.toValue, hlt, h, hne]

/-- A hash's item is little longer than the hash. -/
theorem length_encode_fixedHash_le {n : Nat} [Fact (n < 2 ^ 64)] (h : FixedHash n) :
    (encode h).length ≤ n + 9 :=
  le_of_le_of_eq (length_encodeValue_le (LawfulCodec.length_toValue_lt h))
    (congrArg (· + 9) h.length_bytes)

instance factLength160 : Fact (20 < 2 ^ 64) := ⟨by omega⟩
instance factLength256 : Fact (32 < 2 ^ 64) := ⟨by omega⟩
instance factLengthBloom : Fact (256 < 2 ^ 64) := ⟨by omega⟩

end Tethereum
