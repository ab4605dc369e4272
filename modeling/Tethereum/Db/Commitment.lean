import Tethereum.Db.Receipts

/-!
# What a block hash commits to

A header hash determines the thirteen fields of the header, and the transactions
root among them determines the hashes of the transactions, in order. Both hold
across stores, as far as the hashed encodings do not collide.
-/

namespace Tethereum

open Rlp hiding Encodable

/-- What the root of a list of transactions is hashed from: the list of their hashes. -/
def rootEncoding (txs : List SignedTransaction) : List UInt8 :=
  encodeList (txs.map fun t => encode t.hash)

section

variable {c : Crypto} {txs txs' : List SignedTransaction}

/-- The transactions root is the hash of the list of transaction hashes. -/
theorem transactionRoot_eq (c : Crypto) (txs : List SignedTransaction) :
    transactionRoot c txs = c.keccak (rootEncoding txs) := by
  have hfold : ∀ s : RlpStream, txs.foldl (fun s t => s.append t.hash) s =
      (txs.map fun t => encode t.hash).foldl RlpStream.appendItem s := by
    intro s
    rw [List.foldl_map]
    rfl
  unfold transactionRoot rootEncoding
  rw [hfold]
  by_cases hnil : txs = []
  · rw [hnil]
    rfl
  · have hne : (txs.map fun t => encode t.hash) ≠ [] := by
      rwa [ne_eq, List.map_eq_nil_iff]
    have hlist := RlpStream.foldl_appendItem_beginList hne
    rw [List.length_map] at hlist
    rw [hlist]

/-- Each hash takes at most 41 bytes. -/
theorem length_flatten_hashes_le (txs : List SignedTransaction) :
    (txs.map fun t => encode t.hash).flatten.length ≤ 41 * txs.length := by
  induction txs with
  | nil => exact Nat.le_refl 0
  | cons t txs ih =>
    have hhash := length_encode_fixedHash_le t.hash
    rw [List.map_cons, List.flatten_cons, List.length_append, List.length_cons]
    omega

/-- The transaction hashes are read off the list. -/
theorem rootEncoding_injective (hlen : 41 * txs.length < 2 ^ 64)
    (hlen' : 41 * txs'.length < 2 ^ 64) (h : rootEncoding txs = rootEncoding txs') :
    txs.map (·.hash) = txs'.map (·.hash) := by
  have hitem : ∀ txs : List SignedTransaction,
      ∀ item ∈ txs.map fun t => encode t.hash, IsItem item := by
    intro txs item hmem
    obtain ⟨t, _, rfl⟩ := List.mem_map.mp hmem
    exact isItem_encode t.hash
  have hitems := encodeList_injective (hitem txs) (hitem txs')
    (lt_of_le_of_lt (length_flatten_hashes_le txs) hlen)
    (lt_of_le_of_lt (length_flatten_hashes_le txs') hlen') h
  have hmap : ∀ txs : List SignedTransaction, (txs.map fun t => encode t.hash) =
      (txs.map (·.hash)).map encode := by
    intro txs
    rw [List.map_map]
    rfl
  rw [hmap, hmap] at hitems
  exact List.map_injective_iff.mpr encode_injective hitems

/-- Headers with one encoding and one memo are equal. -/
theorem Header.eq_of_rlp_eq {h h' : Header} (hrlp : h.rlp = h'.rlp)
    (hmemo : h.memoizedHash = h'.memoizedHash) : h = h' := by
  have hfields := rlp_eq_iff.mp hrlp
  cases h
  cases h'
  cases hfields
  cases hmemo
  rfl

end

namespace HashMapEthDB

/-- The lists of transaction hashes that the roots of the stored blocks were hashed from. -/
def rootEncodings (db : HashMapEthDB) : Set (List UInt8) :=
  {bytes | ∃ block ∈ db.blocks, block.transactions ≠ [] ∧
    rootEncoding block.transactions = bytes}

section

variable {c : Crypto} {evm evm' : Evm} {db db' : HashMapEthDB} {block block' : Block}

/-- Blocks with one header, taken from two well-formed stores, hold transactions with the
same hashes. -/
theorem WellFormed.transactions_of_header_eq (hw : db.WellFormed c) (hw' : db'.WellFormed c)
    (hk : Set.InjOn c.keccak (db.rootEncodings ∪ db'.rootEncodings))
    (hb : block ∈ db.blocks) (hb' : block' ∈ db'.blocks) (heq : block.header = block'.header) :
    block.transactions.map (·.hash) = block'.transactions.map (·.hash) := by
  obtain ⟨i, hi⟩ := List.mem_iff_getElem?.mp hb
  obtain ⟨j, hj⟩ := List.mem_iff_getElem?.mp hb'
  have hij : i = j := by
    rw [← hw.toNat_number hi, ← hw'.toNat_number hj, heq]
  rcases hw.block_cases hi with ⟨_, now, rfl⟩ | ⟨_, best, now, tx, rfl⟩
  · rcases hw'.block_cases hj with ⟨_, now', rfl⟩ | ⟨hpos, _⟩
    · rfl
    · omega
  · rcases hw'.block_cases hj with ⟨_, _⟩ | ⟨_, best', now', tx', rfl⟩
    · omega
    · have hroot := congrArg Header.transactionsRoot heq
      rw [Block.transactionsRoot_next, Block.transactionsRoot_next, transactionRoot_eq,
        transactionRoot_eq] at hroot
      have hbytes := hk (Or.inl ⟨_, hb, List.cons_ne_nil _ _, rfl⟩)
        (Or.inr ⟨_, hb', List.cons_ne_nil _ _, rfl⟩) hroot
      have hlen : 41 * 1 < 2 ^ 64 := by omega
      exact rootEncoding_injective hlen hlen hbytes

/-- A block hash commits to the block: blocks of two reachable stores with one hash have the
same header, field by field, and transactions with the same hashes in the same order. -/
theorem Reachable.eq_of_hash_eq (h : Reachable c evm db) (h' : Reachable c evm' db')
    (hk : Set.InjOn c.keccak (db.headerEncodings ∪ db'.headerEncodings))
    (hroot : Set.InjOn c.keccak (db.rootEncodings ∪ db'.rootEncodings))
    (hb : block ∈ db.blocks) (hb' : block' ∈ db'.blocks)
    (hhash : block.header.hash c = block'.header.hash c) :
    block.header = block'.header ∧
      block.transactions.map (·.hash) = block'.transactions.map (·.hash) := by
  have hw := h.wellFormed
  have hw' := h'.wellFormed
  have hmemo := hw.memoizedHash_eq hb
  have hmemo' := hw'.memoizedHash_eq hb'
  rw [hw.hash_eq hb, hw'.hash_eq hb'] at hhash
  have hrlp := hk (Or.inl ⟨block, hb, rfl⟩) (Or.inr ⟨block', hb', rfl⟩) hhash
  -- the fields agree, and so do the memos, which are hashes of the fields
  have hheader := Header.eq_of_rlp_eq hrlp (by rw [hmemo, hmemo', hhash])
  exact ⟨hheader, hw.transactions_of_header_eq hw' hroot hb hb' hheader⟩

/-- The newest blocks of two stores, one of the sample machine and one of the logging machine,
that executed the same creation at the same time. -/
theorem eq_of_hash_eq_creation :
    ∃ db db', Reachable .sample .sample db ∧ Reachable .sample loggingEvm db' ∧
      ∃ block ∈ db.blocks, ∃ block' ∈ db'.blocks, block.transactions ≠ [] ∧
        block.header.hash .sample = block'.header.hash .sample ∧
        block.header = block'.header ∧
        block.transactions.map (·.hash) = block'.transactions.map (·.hash) := by
  let tx : SignedTransaction := ⟨⟨{}, 27, 1, 1, .zero⟩, .zero, none⟩
  let genesis := Block.genesis .sample 0
  let db := (new .sample 0).extend .sample .sample 5 tx genesis ∅
  let db' := (new .sample 0).extend .sample loggingEvm 5 tx genesis ∅
  have h : Reachable .sample .sample db := ⟨0, .tail .refl (.submitTx 5 tx (.ok ())
    ((submitTx_eq rfl rfl).trans (if_pos rfl)) (Nat.le_of_ble_eq_true rfl))⟩
  have h' : Reachable .sample loggingEvm db' := ⟨0, .tail .refl (.submitTx 5 tx (.ok ())
    ((submitTx_eq rfl rfl).trans (if_pos rfl)) (Nat.le_of_ble_eq_true rfl))⟩
  have hblocks : db'.blocks = db.blocks := rfl
  have honly : ∀ block ∈ db.blocks, block.transactions ≠ [] →
      block = genesis.next .sample 5 [tx] := by
    intro block hb hne
    rcases List.mem_append.mp hb with hb | hb
    · rw [List.mem_singleton.mp hb] at hne
      contradiction
    · exact List.mem_singleton.mp hb
  have hk : Set.InjOn Crypto.sample.keccak (db.headerEncodings ∪ db'.headerEncodings) := by
    rw [headerEncodings, headerEncodings, hblocks, Set.union_self]
    exact injOn_headerEncodings (by decide +kernel)
  have hroot : Set.InjOn Crypto.sample.keccak (db.rootEncodings ∪ db'.rootEncodings) := by
    rw [rootEncodings, rootEncodings, hblocks, Set.union_self]
    rintro _ ⟨block, hb, hne, rfl⟩ _ ⟨block', hb', hne', rfl⟩ _
    rw [honly block hb hne, honly block' hb' hne']
  have hmem : genesis.next .sample 5 [tx] ∈ db.blocks :=
    List.mem_append_right _ (List.mem_singleton_self _)
  exact ⟨db, db', h, h', _, hmem, _, hblocks ▸ hmem, List.cons_ne_nil _ _, rfl,
    h.eq_of_hash_eq h' hk hroot hmem (hblocks ▸ hmem) rfl⟩

end

end HashMapEthDB

end Tethereum
