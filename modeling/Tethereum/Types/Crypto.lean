import Tethereum.Types.Primitives

/-!
# Hashing and signatures

The hash function and the signature scheme come from other crates. They are
parameters of the model, and what a result needs of them is a hypothesis there.
-/

namespace Tethereum

/-- The 65-byte signature `r ++ s ++ v`. -/
structure Signature where
  /-- First 32 bytes. -/
  r : H256
  /-- Next 32 bytes. -/
  s : H256
  /-- Recovery byte. -/
  v : UInt8
  deriving DecidableEq

/-- `Signature::from_rsv`. -/
def Signature.fromRsv (r s : H256) (v : UInt8) : Signature := ⟨r, s, v⟩

/-- A secret key. -/
abbrev Secret := H256

/-- A public key. -/
abbrev Public := H512

/-- Errors of the signature scheme. -/
inductive CryptoError
  /-- The signature is invalid. -/
  | invalidSignature
  /-- Every other error of the crate; no caller tells them apart. -/
  | other
  deriving DecidableEq, Repr

/-- The hash function and the signature scheme. -/
structure Crypto where
  /-- `keccak`. -/
  keccak : List UInt8 → H256
  /-- `sign`: the signature of a message hash. -/
  sign : Secret → H256 → Except CryptoError Signature
  /-- `recover`: the public key behind a signature of a message hash. -/
  recover : Signature → H256 → Except CryptoError Public
  /-- `public_to_address`. -/
  publicToAddress : Public → H160
  /-- `Signature::is_low_s`, a predicate of the signature's `s`. -/
  isLowS : H256 → Bool

/-- `KECCAK_NULL_RLP`. -/
def keccakNullRlp : H256 :=
  ⟨[0x56, 0xe8, 0x1f, 0x17, 0x1b, 0xcc, 0x55, 0xa6, 0xff, 0x83, 0x45, 0xe6, 0x92, 0xc0, 0xf8, 0x6e,
    0x5b, 0x48, 0xe0, 0x1b, 0x99, 0x6c, 0xad, 0xc0, 0x01, 0x62, 0x2f, 0xb5, 0xe3, 0x63, 0xb4, 0x21],
    rfl⟩

/-- `KECCAK_EMPTY_LIST_RLP`. -/
def keccakEmptyListRlp : H256 :=
  ⟨[0x1d, 0xcc, 0x4d, 0xe8, 0xde, 0xc7, 0x5d, 0x7a, 0xab, 0x85, 0xb5, 0x67, 0xb6, 0xcc, 0xd4, 0x1a,
    0xd3, 0x12, 0x45, 0x1b, 0x94, 0x8a, 0x74, 0x13, 0xf0, 0xa1, 0x42, 0xfd, 0x40, 0xd4, 0x93, 0x47],
    rfl⟩

/-- A small scheme to run the model with: a polynomial hash, and signatures that
carry the secret key in `r`. -/
def Crypto.sample : Crypto where
  keccak bytes := H256.fromUint (BitVec.ofNat 256
    (bytes.foldl (fun n b => (n * 257 + b.toNat + 1) % 2 ^ 256) 0))
  sign secret _ := .ok ⟨secret, H256.fromLowU64Be 1, 0⟩
  recover sig _ :=
    if sig.v = 0 ∨ sig.v = 1 then
      .ok ⟨sig.r.bytes ++ sig.s.bytes, by
        rw [List.length_append, sig.r.length_bytes, sig.s.length_bytes]⟩
    else .error .invalidSignature
  publicToAddress pub := ⟨(pub.bytes.drop 12).take 20, by
    rw [List.length_take, List.length_drop, pub.length_bytes]; rfl⟩
  isLowS s := BigEndian.ofBytes s.bytes ≤
    0x7fffffffffffffffffffffffffffffff5d576e7357a4501ddfe92f46681b20a0

end Tethereum
