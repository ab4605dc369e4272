import Tethereum.Transaction.Signing
import Std.Data.ExtTreeMap

/-!
# Accounts, headers and blocks

A header is written as a list of thirteen items, and its hash is memoized once
the block is complete. The memo is no part of the encoding.
-/

namespace Tethereum

open Rlp hiding Encodable

/-- An account as it is kept in memory. -/
structure MemAccount where
  /-- Account nonce. -/
  nonce : U256 := 0
  /-- Account balance. -/
  balance : U256 := 0
  /-- Full account storage. -/
  storage : Std.ExtTreeMap H256 H256 := ∅
  /-- Account code. -/
  code : List UInt8 := []

/-- The header of a block. -/
structure Header where
  /-- Parent hash. -/
  parentHash : H256 := .zero
  /-- Block timestamp. -/
  timestamp : U64 := 0
  /-- Block number. -/
  number : U64 := 0
  /-- Block author. -/
  author : H160 := .zero
  /-- Transactions root. -/
  transactionsRoot : H256 := keccakNullRlp
  /-- Block uncles hash. -/
  unclesHash : H256 := keccakEmptyListRlp
  /-- Block extra data. -/
  extraData : Bytes := .empty
  /-- State root. -/
  stateRoot : H256 := keccakNullRlp
  /-- Block receipts root. -/
  receiptsRoot : H256 := keccakNullRlp
  /-- Block bloom. -/
  logBloom : Bloom := .zero
  /-- Gas used for contracts execution. -/
  gasUsed : U256 := 0
  /-- Block gas limit. -/
  gasLimit : U256 := 0
  /-- Block difficulty. -/
  difficulty : U256 := 0
  /-- Memoized hash of that header and the seal. -/
  memoizedHash : Option H256 := none
  deriving DecidableEq

/-- A block. -/
structure Block where
  /-- The header of this block. -/
  header : Header := {}
  /-- The transactions in this block. -/
  transactions : List SignedTransaction := []
  /-- The uncles of this block. -/
  uncles : List Header := []
  deriving DecidableEq

/-- The hash of the list of transaction hashes. -/
def transactionRoot (c : Crypto) (txs : List SignedTransaction) : H256 :=
  let s := txs.foldl (fun s t => s.append t.hash) (RlpStream.beginList {} txs.length)
  c.keccak s.buffer

namespace Header

/-- Place this header into an RLP stream. -/
def streamRlp (h : Header) (s : RlpStream) : RlpStream :=
  let s := s.beginList 13
  let s := s.append h.parentHash
  let s := s.append h.unclesHash
  let s := s.append h.author
  let s := s.append h.stateRoot
  let s := s.append h.transactionsRoot
  let s := s.append h.receiptsRoot
  let s := s.append h.logBloom
  let s := s.append h.difficulty
  let s := s.append h.number
  let s := s.append h.gasLimit
  let s := s.append h.gasUsed
  let s := s.append h.timestamp
  s.append h.extraData

/-- The encoding of this header. -/
def rlp (h : Header) : List UInt8 := (h.streamRlp {}).buffer

/-- Get the hash of this header, the memoized one if there is one. -/
def hash (c : Crypto) (h : Header) : H256 := h.memoizedHash.getD (c.keccak h.rlp)

/-- Get and memoize the hash of this header. -/
def computeHash (c : Crypto) (h : Header) : H256 × Header :=
  (h.hash c, { h with memoizedHash := some (h.hash c) })

/-- The thirteen items of a header. -/
def items (h : Header) : List (List UInt8) :=
  [encode h.parentHash, encode h.unclesHash, encode h.author, encode h.stateRoot,
    encode h.transactionsRoot, encode h.receiptsRoot, encode h.logBloom, encode h.difficulty,
    encode h.number, encode h.gasLimit, encode h.gasUsed, encode h.timestamp,
    encode h.extraData]

/-- The header stream announces as many items as it writes. -/
theorem streamRlp_eq (h : Header) : h.streamRlp {} = ⟨encodeList h.items, []⟩ := by
  have hne : h.items ≠ [] := List.cons_ne_nil _ _
  rw [← RlpStream.foldl_appendItem_beginList hne]
  simp only [streamRlp, items, RlpStream.append, List.foldl_cons, List.foldl_nil,
    List.length_cons, List.length_nil, Nat.reduceAdd]

/-- The encoding of a header is the list of its items. -/
theorem rlp_eq (h : Header) : h.rlp = encodeList h.items := by
  rw [rlp, streamRlp_eq]

/-- Every field is written as an item. -/
theorem isItem_items (h : Header) : ∀ item ∈ h.items, IsItem item := by
  simp only [items, List.forall_mem_cons, isItem_encode, List.not_mem_nil, false_implies,
    implies_true, and_self]

/-- The payload of a header has a length the format can announce. -/
theorem length_items_lt (h : Header) : h.items.flatten.length < 2 ^ 64 := by
  have h1 := length_encode_fixedHash_le h.parentHash
  have h2 := length_encode_fixedHash_le h.unclesHash
  have h3 := length_encode_fixedHash_le h.author
  have h4 := length_encode_fixedHash_le h.stateRoot
  have h5 := length_encode_fixedHash_le h.transactionsRoot
  have h6 := length_encode_fixedHash_le h.receiptsRoot
  have h7 := length_encode_fixedHash_le h.logBloom
  have h8 := length_encode_u256_le h.difficulty
  have h9 := length_encode_u64_le h.number
  have h10 := length_encode_u256_le h.gasLimit
  have h11 := length_encode_u256_le h.gasUsed
  have h12 := length_encode_u64_le h.timestamp
  have h13 := length_encode_bytes_le h.extraData
  simp only [items, List.flatten_cons, List.flatten_nil, List.length_append, List.length_nil]
  omega

/-- Headers with one encoding agree in everything but the memo. -/
theorem rlp_eq_iff {h h' : Header} :
    h.rlp = h'.rlp ↔ { h with memoizedHash := none } = { h' with memoizedHash := none } := by
  constructor
  · intro he
    rw [rlp_eq, rlp_eq] at he
    have hitems := encodeList_injective h.isItem_items h'.isItem_items h.length_items_lt
      h'.length_items_lt he
    simp only [items, List.cons.injEq, encode_inj, and_true] at hitems
    simp only [hitems]
  · intro he
    have hitems := congrArg items he
    rw [rlp_eq, rlp_eq]
    exact congrArg encodeList hitems

/-- The memoized header has the hash it memoizes. -/
@[simp] theorem hash_computeHash (c : Crypto) (h : Header) :
    (h.computeHash c).2.hash c = h.hash c := rfl

end Header

end Tethereum
