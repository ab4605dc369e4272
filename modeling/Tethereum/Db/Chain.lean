import Tethereum.Db.Store
import Tethereum.Db.World
import Mathlib.Data.List.Nodup
import Mathlib.Data.Set.Function
import Mathlib.Logic.Relation

/-!
# The chain invariant

Every store that operations reach from a new one is a chain: a genesis block,
each further block put on top of its predecessor, one account map for each
block, and an index that holds the number of every block hash.
-/

namespace Tethereum

open KeyedLog

/-! ## Blocks -/

section

variable {c : Crypto} {now : U64} {best : Block} {txs : List SignedTransaction}

@[simp] theorem Block.number_next :
    (best.next c now txs).header.number = best.header.number + 1 := rfl

@[simp] theorem Block.parentHash_next :
    (best.next c now txs).header.parentHash = best.header.hash c := rfl

@[simp] theorem Block.transactionsRoot_next :
    (best.next c now txs).header.transactionsRoot = transactionRoot c txs := rfl

@[simp] theorem Block.transactions_next : (best.next c now txs).transactions = txs := rfl

/-- The memo of a header is set once no field changes any more. -/
theorem Header.memoizedHash_computeHash {h : Header} (hm : h.memoizedHash = none) :
    (h.computeHash c).2.memoizedHash = some (c.keccak (h.computeHash c).2.rlp) := by
  have hrlp : (h.computeHash c).2.rlp = h.rlp := rlp_eq_iff.mpr rfl
  rw [hrlp]
  simp only [computeHash, hash, hm, Option.getD_none]

/-- A new block remembers the hash of its own header. -/
theorem Block.memoizedHash_next :
    (best.next c now txs).header.memoizedHash =
      some (c.keccak (best.next c now txs).header.rlp) :=
  Header.memoizedHash_computeHash rfl

/-- The genesis block remembers the hash of its own header. -/
theorem Block.memoizedHash_genesis :
    (Block.genesis c now).header.memoizedHash =
      some (c.keccak (Block.genesis c now).header.rlp) :=
  Header.memoizedHash_computeHash rfl

end

namespace HashMapEthDB

/-! ## Reading an extended store -/

/-- A list with one element on top holds this one above the old ones. -/
theorem getElem?_concat_cases {α : Type} {l : List α} {a b : α} {i : Nat}
    (h : (l ++ [a])[i]? = some b) :
    (i < l.length ∧ l[i]? = some b) ∨ (i = l.length ∧ b = a) := by
  by_cases hlt : i < l.length
  · rw [List.getElem?_append_left hlt] at h
    exact Or.inl ⟨hlt, h⟩
  · have hle := (List.getElem?_eq_some_iff.mp h).1
    rw [List.length_append, List.length_singleton] at hle
    obtain rfl : i = l.length := by omega
    rw [List.getElem?_concat_length] at h
    exact Or.inr ⟨rfl, (Option.some.inj h).symm⟩

section

variable {c : Crypto} {evm : Evm} {now : U64} {db : HashMapEthDB} {tx : SignedTransaction}
  {last : Block} {latest : Accounts}

/-- An execution indexes the block on top. -/
theorem getElem?_hashIndex_extend (hash : H256) :
    (db.extend c evm now tx last latest).hashIndex[hash]? =
      if (last.next c now [tx]).header.hash c = hash
      then some (last.next c now [tx]).header.number else db.hashIndex[hash]? :=
  getElem?_insert_ite

/-- An execution records the transaction. -/
theorem getElem?_infos_extend (hash : H256) :
    (db.extend c evm now tx last latest).infos[hash]? =
      if tx.hash = hash
      then some (finish (submitBackend c tx (last.next c now [tx]) last latest).info
        (submitRun c evm now tx last latest))
      else db.infos[hash]? :=
  getElem?_insert_ite

/-- The run of a submission is that of the transaction in the world of the latest accounts, in the
environment of the block that is made for it. -/
theorem submitRun_eq (h : latest.Sparse) :
    submitRun c evm now tx last latest = evm.transact
      (latest.world.view tx.transaction.unsigned.gasPrice tx.sender (last.next c now [tx]))
      tx.sender tx.transaction.unsigned.value tx.transaction.receiver
      tx.transaction.unsigned.data.toList := by
  have hview : (submitBackend c tx (last.next c now [tx]) last latest).view = _ :=
    EthDBBackend.view_eq h
  rw [submitRun, EthDBBackend.run_eq, hview]
  rfl

end

/-! ## Reachable stores -/

/-- One operation on the store. The blocks are a vector, whose length is bounded. -/
inductive DbStep (c : Crypto) (evm : Evm) (db db' : HashMapEthDB) : Prop
  /-- A transaction is submitted, at some clock reading. -/
  | submitTx (now : U64) (tx : SignedTransaction) (result : Except String Unit)
      (h : db.submitTx c evm now tx = some (result, db'))
      (hlen : db'.blocks.length ≤ isizeMax)
  /-- Gas is estimated. -/
  | estimateGas (blockNumber : U64) (caller : H160) (value : U256) («to» : Option H160)
      (input : List UInt8) (result : ExitReason × List UInt8 × U64)
      (h : db.estimateGas evm blockNumber caller value «to» input = some (result, db'))
  /-- A call is simulated. -/
  | call (blockNumber : U64) (caller contractAddress : H160) (input : List UInt8)
      (result : ExitReason × List UInt8 × U64)
      (h : db.call evm blockNumber caller contractAddress input = some (result, db'))

/-- Operations lead from a new store to this one. -/
def Reachable (c : Crypto) (evm : Evm) (db : HashMapEthDB) : Prop :=
  ∃ now, Relation.ReflTransGen (DbStep c evm) (new c now) db

/-- What every operation keeps. -/
structure WellFormed (c : Crypto) (db : HashMapEthDB) : Prop where
  /-- There is one account map for each block. -/
  aligned : db.blocks.length = db.accounts.length
  /-- The first block is a genesis block. -/
  genesis : ∃ now, db.blocks[0]? = some (Block.genesis c now)
  /-- Each further block was put on top of its predecessor with one transaction. -/
  grown : ∀ i best block, db.blocks[i]? = some best → db.blocks[i + 1]? = some block →
    ∃ now tx, block = best.next c now [tx]
  /-- The index was filled block by block. -/
  indexed : db.hashIndex = db.blocks.foldl
    (fun index block => index.insert (block.header.hash c) block.header.number) ∅
  /-- No account stores a zero. -/
  sparse : ∀ accounts ∈ db.accounts, accounts.Sparse
  /-- The blocks fit in a vector. -/
  bounded : db.blocks.length ≤ isizeMax

/-- The best number is the position of the last block, cut to 64 bits. -/
theorem bestNumber_of_ne_nil {db : HashMapEthDB} (h : db.blocks ≠ []) :
    db.bestNumber = some (BitVec.ofNat 64 (db.blocks.length - 1)) := by
  have hne : db.blocks.isEmpty = false := List.isEmpty_eq_false_iff.mpr h
  rw [bestNumber, hne, if_neg Bool.false_ne_true]

/-- The encodings of the stored headers. -/
def headerEncodings (db : HashMapEthDB) : Set (List UInt8) :=
  {bytes | ∃ block ∈ db.blocks, block.header.rlp = bytes}

/-- Headers with pairwise distinct hashes do not collide. -/
theorem injOn_headerEncodings {c : Crypto} {db : HashMapEthDB}
    (h : (db.blocks.map fun block => c.keccak block.header.rlp).Nodup) :
    Set.InjOn c.keccak db.headerEncodings := by
  rintro _ ⟨b, hb, rfl⟩ _ ⟨b', hb', rfl⟩ he
  exact congrArg (·.header.rlp) (List.inj_on_of_nodup_map h hb hb' he)

namespace WellFormed

variable {c : Crypto} {evm : Evm} {db db' : HashMapEthDB}

/-- There is a block. -/
theorem length_pos (h : db.WellFormed c) : 0 < db.blocks.length := by
  obtain ⟨now, hg⟩ := h.genesis
  exact (List.getElem?_eq_some_iff.mp hg).1

/-- There is a block. -/
theorem blocks_ne_nil (h : db.WellFormed c) : db.blocks ≠ [] :=
  List.ne_nil_of_length_pos h.length_pos

/-- There is an account map. -/
theorem accounts_ne_nil (h : db.WellFormed c) : db.accounts ≠ [] :=
  List.ne_nil_of_length_pos (lt_of_lt_of_eq h.length_pos h.aligned)

/-- There is a latest block. -/
theorem exists_last (h : db.WellFormed c) : ∃ last, db.blocks.getLast? = some last :=
  ⟨_, List.getLast?_eq_some_getLast h.blocks_ne_nil⟩

/-- There is a latest account map. -/
theorem exists_latest (h : db.WellFormed c) : ∃ latest, db.accounts.getLast? = some latest :=
  ⟨_, List.getLast?_eq_some_getLast h.accounts_ne_nil⟩

/-- A position of a block has accounts. -/
theorem exists_accounts (h : db.WellFormed c) {i : Nat} (hi : i < db.blocks.length) :
    ∃ accounts, db.accounts[i]? = some accounts := by
  rw [h.aligned] at hi
  exact ⟨_, List.getElem?_eq_getElem hi⟩

/-- A position beyond the blocks has no accounts. -/
theorem accounts_eq_none (h : db.WellFormed c) {i : Nat} (hi : db.blocks.length ≤ i) :
    db.accounts[i]? = none := by
  rw [h.aligned] at hi
  exact List.getElem?_eq_none hi

/-- A block carries its own position as its number. -/
theorem number_eq (h : db.WellFormed c) {i : Nat} {block : Block}
    (hb : db.blocks[i]? = some block) : block.header.number = BitVec.ofNat 64 i := by
  induction i generalizing block with
  | zero =>
    obtain ⟨now, hg⟩ := h.genesis
    have he := Option.some.inj (hb.symm.trans hg)
    subst he
    rfl
  | succ i ih =>
    have hlt := (List.getElem?_eq_some_iff.mp hb).1
    have hprev := List.getElem?_eq_getElem (Nat.lt_of_succ_lt hlt)
    obtain ⟨now, tx, rfl⟩ := h.grown i _ block hprev hb
    rw [Block.number_next, ih hprev, BitVec.ofNat_add]
    rfl

/-- Positions are numbers without wrapping. -/
theorem toNat_number (h : db.WellFormed c) {i : Nat} {block : Block}
    (hb : db.blocks[i]? = some block) : block.header.number.toNat = i := by
  have hlt := (List.getElem?_eq_some_iff.mp hb).1
  have hbound := h.bounded
  simp only [isizeMax] at hbound
  rw [h.number_eq hb, BitVec.toNat_ofNat]
  omega

/-- A block is a genesis block, or it was put on top of another one with one transaction. -/
theorem block_cases (h : db.WellFormed c) {i : Nat} {block : Block}
    (hb : db.blocks[i]? = some block) :
    (i = 0 ∧ ∃ now, block = Block.genesis c now) ∨
      (0 < i ∧ ∃ (best : Block) (now : U64) (tx : SignedTransaction),
        block = best.next c now [tx]) := by
  cases i with
  | zero =>
    obtain ⟨now, hg⟩ := h.genesis
    exact Or.inl ⟨rfl, now, Option.some.inj (hb.symm.trans hg)⟩
  | succ i =>
    have hlt := (List.getElem?_eq_some_iff.mp hb).1
    have hprev := List.getElem?_eq_getElem (Nat.lt_of_succ_lt hlt)
    obtain ⟨now, tx, hnext⟩ := h.grown i _ block hprev hb
    exact Or.inr ⟨i.succ_pos, _, now, tx, hnext⟩

/-- A stored block remembers the hash of its own header. -/
theorem memoizedHash_eq (h : db.WellFormed c) {block : Block} (hb : block ∈ db.blocks) :
    block.header.memoizedHash = some (c.keccak block.header.rlp) := by
  obtain ⟨i, hi⟩ := List.mem_iff_getElem?.mp hb
  rcases h.block_cases hi with ⟨_, now, rfl⟩ | ⟨_, best, now, tx, rfl⟩
  · exact Block.memoizedHash_genesis
  · exact Block.memoizedHash_next

/-- The hash of a stored block is that of its encoding. -/
theorem hash_eq (h : db.WellFormed c) {block : Block} (hb : block ∈ db.blocks) :
    block.header.hash c = c.keccak block.header.rlp := by
  rw [Header.hash, h.memoizedHash_eq hb, Option.getD_some]

/-- The number of the latest block is one less than the number of blocks. -/
theorem bestNumber_eq (h : db.WellFormed c) :
    db.bestNumber = some (BitVec.ofNat 64 (db.blocks.length - 1)) :=
  bestNumber_of_ne_nil h.blocks_ne_nil

/-! ## The index of block hashes -/

/-- A hash is indexed by the newest block that has it. -/
theorem getElem?_hashIndex (h : db.WellFormed c) (hash : H256) :
    db.hashIndex[hash]? =
      (newest (fun b : Block => b.header.hash c) hash db.blocks).head?.map (·.header.number) := by
  have hstep : ∀ (index : Std.ExtTreeMap H256 U64) (b : Block) (k : H256),
      (index.insert (b.header.hash c) b.header.number)[k]? =
        if b.header.hash c = k then some b.header.number else index[k]? :=
    fun index b k => getElem?_insert_ite
  have hread := read_foldl (fun (index : Std.ExtTreeMap H256 U64) k => index[k]?)
    (fun b _ => some b.header.number) hstep ∅ db.blocks hash
  rw [h.indexed, hread]
  cases newest (fun b : Block => b.header.hash c) hash db.blocks with
  | nil => simp
  | cons b bs => rfl

/-- An indexed hash is the hash of the block at the indexed position. -/
theorem block_of_hashIndex (h : db.WellFormed c) {hash : H256} {n : U64}
    (hn : db.hashIndex[hash]? = some n) :
    ∃ block, db.blocks[n.toNat]? = some block ∧ block.header.hash c = hash := by
  rw [h.getElem?_hashIndex] at hn
  obtain ⟨block, hhead, rfl⟩ := Option.map_eq_some_iff.mp hn
  obtain ⟨hmem, hhash⟩ := mem_newest.mp (List.mem_of_head? hhead)
  obtain ⟨i, hi⟩ := List.mem_iff_getElem?.mp hmem
  exact ⟨block, by rw [h.toNat_number hi, hi], hhash⟩

/-- The hash of a stored block is indexed. -/
theorem hashIndex_ne_none (h : db.WellFormed c) {block : Block} (hb : block ∈ db.blocks)
    {hash : H256} (hhash : block.header.hash c = hash) : db.hashIndex[hash]? ≠ none := by
  rw [h.getElem?_hashIndex]
  intro hnone
  have hnil := List.head?_eq_none_iff.mp (Option.map_eq_none_iff.mp hnone)
  exact newest_eq_nil_iff.mp hnil block hb hhash

/-- Without collisions among the stored headers, blocks with one hash are one block. -/
theorem position_unique (h : db.WellFormed c) (hk : Set.InjOn c.keccak db.headerEncodings)
    {i j : Nat} {b b' : Block} (hi : db.blocks[i]? = some b) (hj : db.blocks[j]? = some b')
    (hhash : b.header.hash c = b'.header.hash c) : i = j := by
  have hb := List.mem_of_getElem? hi
  have hb' := List.mem_of_getElem? hj
  rw [h.hash_eq hb, h.hash_eq hb'] at hhash
  have hrlp := hk ⟨b, hb, rfl⟩ ⟨b', hb', rfl⟩ hhash
  have hnum := congrArg Header.number (Header.rlp_eq_iff.mp hrlp)
  rw [← h.toNat_number hi, ← h.toNat_number hj]
  exact congrArg BitVec.toNat hnum

/-- Without collisions among the stored headers, the index holds exactly the positions of
the stored blocks. -/
theorem getElem?_hashIndex_eq_some_iff (h : db.WellFormed c)
    (hk : Set.InjOn c.keccak db.headerEncodings) {hash : H256} {n : U64} :
    db.hashIndex[hash]? = some n ↔
      ∃ block, db.blocks[n.toNat]? = some block ∧ block.header.hash c = hash := by
  constructor
  · exact h.block_of_hashIndex
  · rintro ⟨block, hb, hhash⟩
    have hne : newest (fun b : Block => b.header.hash c) hash db.blocks ≠ [] := fun hnil =>
      newest_eq_nil_iff.mp hnil block (List.mem_of_getElem? hb) hhash
    have hhead := List.head?_eq_some_head hne
    obtain ⟨hmem, hhash'⟩ := mem_newest.mp (List.head_mem hne)
    obtain ⟨j, hj⟩ := List.mem_iff_getElem?.mp hmem
    have hij := h.position_unique hk hb hj (hhash.trans hhash'.symm)
    rw [h.getElem?_hashIndex, hhead, Option.map_some, h.number_eq hj, ← hij,
      BitVec.ofNat_toNat, BitVec.setWidth_eq]

/-! ## Preservation -/

/-- A new store is well formed. -/
theorem new (c : Crypto) (now : U64) : (HashMapEthDB.new c now).WellFormed c where
  aligned := rfl
  genesis := ⟨now, rfl⟩
  grown i best block _ h1 := by
    simp [HashMapEthDB.new, createGenesis] at h1
  indexed := rfl
  sparse accounts h := by
    obtain rfl := List.mem_singleton.mp h
    exact Accounts.sparse_empty
  bounded := Nat.le_of_ble_eq_true rfl

/-- Putting a block on top keeps the store well formed. -/
theorem extend (h : db.WellFormed c) {last : Block} {latest : Accounts} {now : U64}
    {tx : SignedTransaction} (hb : db.blocks.getLast? = some last)
    (ha : db.accounts.getLast? = some latest) (hlen : db.blocks.length + 1 ≤ isizeMax) :
    (db.extend c evm now tx last latest).WellFormed c where
  aligned := by
    simp only [HashMapEthDB.extend, List.length_append, h.aligned, List.length_singleton]
  genesis := by
    obtain ⟨now, hg⟩ := h.genesis
    exact ⟨now, by rw [HashMapEthDB.extend, List.getElem?_append_left h.length_pos, hg]⟩
  grown i best block h0 h1 := by
    rw [HashMapEthDB.extend] at h0 h1
    rcases getElem?_concat_cases h1 with ⟨hlt, h1⟩ | ⟨hi, rfl⟩
    · rw [List.getElem?_append_left (Nat.lt_of_succ_lt hlt)] at h0
      exact h.grown i best block h0 h1
    · rw [List.getElem?_append_left (Nat.lt_of_succ_le (le_of_eq hi))] at h0
      rw [List.getLast?_eq_getElem?, ← hi, Nat.add_sub_cancel, h0] at hb
      cases hb
      exact ⟨now, tx, rfl⟩
  indexed := by
    simp only [HashMapEthDB.extend, List.foldl_append, List.foldl_cons, List.foldl_nil,
      ← h.indexed]
  sparse accounts hmem := by
    rcases List.mem_append.mp hmem with hmem | hmem
    · exact h.sparse accounts hmem
    · obtain rfl := List.mem_singleton.mp hmem
      exact (h.sparse latest (List.mem_of_getLast? ha)).foldl_applyOne false _
  bounded := by
    rw [HashMapEthDB.extend, List.length_append, List.length_singleton]
    exact hlen

/-- The block on top is numbered by its position. -/
theorem toNat_number_next (h : db.WellFormed c) {last : Block}
    (hb : db.blocks.getLast? = some last) (now : U64) (txs : List SignedTransaction) :
    (last.next c now txs).header.number.toNat = db.blocks.length := by
  have hpos := h.length_pos
  have hbound := h.bounded
  simp only [isizeMax] at hbound
  rw [List.getLast?_eq_getElem?] at hb
  have hl := h.toNat_number hb
  rw [Block.number_next]
  simp only [BitVec.ofNat_eq_ofNat, BitVec.toNat_add, BitVec.toNat_ofNat, hl]
  omega

/-- The hash of the block on top is not indexed yet, unless headers collide. -/
theorem hashIndex_next_eq_none (h : db.WellFormed c) {last : Block}
    (hb : db.blocks.getLast? = some last) (now : U64) (txs : List SignedTransaction)
    (hk : Set.InjOn c.keccak
      {bytes | ∃ block ∈ db.blocks ++ [last.next c now txs], block.header.rlp = bytes}) :
    db.hashIndex[(last.next c now txs).header.hash c]? = none := by
  rw [Option.eq_none_iff_forall_ne_some]
  intro n hn
  -- the block with that hash is an old one, whose number is smaller
  obtain ⟨old, hold, hhash⟩ := h.block_of_hashIndex hn
  have hmem := List.mem_of_getElem? hold
  rw [h.hash_eq hmem, Header.hash, Block.memoizedHash_next, Option.getD_some] at hhash
  have hrlp := hk ⟨old, List.mem_append_left _ hmem, rfl⟩
    ⟨_, List.mem_append_right _ (List.mem_singleton_self _), rfl⟩ hhash
  have he := congrArg (fun h : Header => h.number.toNat) (Header.rlp_eq_iff.mp hrlp)
  simp only [h.toNat_number hold, h.toNat_number_next hb] at he
  have hlt := (List.getElem?_eq_some_iff.mp hold).1
  omega

/-- A submission executes the transaction, or it is refused and changes nothing. -/
theorem submitTx_cases (h : db.WellFormed c) {now : U64} {tx : SignedTransaction}
    {result : Except String Unit} (hs : db.submitTx c evm now tx = some (result, db')) :
    (result = .ok () ∧ Executes c evm now tx db db') ∨
      (result = .error "invalid transaction received" ∧ db' = db) :=
  HashMapEthDB.submitTx_cases h.blocks_ne_nil h.accounts_ne_nil hs

/-- A call leaves the store as it is. -/
theorem eq_of_call (h : db.WellFormed c) {n : U64} {caller contractAddress : H160}
    {input : List UInt8} {result : ExitReason × List UInt8 × U64}
    (hs : db.call evm n caller contractAddress input = some (result, db')) : db' = db := by
  obtain ⟨last, hb⟩ := h.exists_last
  cases ha : db.accounts[n.toNat]? with
  | none =>
    rw [HashMapEthDB.call, ha] at hs
    contradiction
  | some accounts =>
    rw [call_eq ha hb] at hs
    cases hs
    rfl

/-- An operation changes nothing, or it executes a transaction, or it changes one account
map. -/
theorem dbStep_cases (h : db.WellFormed c) (hs : DbStep c evm db db') :
    db' = db ∨
    (∃ now tx, Executes c evm now tx db db' ∧ db'.blocks.length ≤ isizeMax) ∨
    ∃ i accounts, ∃ applies : List Apply, db.accounts[i]? = some accounts ∧ db' = { db with
      accounts := db.accounts.set i (applies.foldl (Accounts.applyOne false) accounts) } := by
  obtain ⟨last, hb⟩ := h.exists_last
  cases hs with
  | submitTx now tx result hs hlen =>
    rcases h.submitTx_cases hs with ⟨_, hexec⟩ | ⟨_, rfl⟩
    · exact Or.inr (Or.inl ⟨now, tx, hexec, hlen⟩)
    · exact Or.inl rfl
  | estimateGas n caller value to' input result hs =>
    cases ha : db.accounts[n.toNat]? with
    | none =>
      rw [estimateGas, ha] at hs
      contradiction
    | some accounts =>
      rw [estimateGas_eq ha hb] at hs
      cases hs
      split
      · exact Or.inr (Or.inr ⟨n.toNat, accounts, _, ha, rfl⟩)
      · exact Or.inr (Or.inr ⟨n.toNat, accounts, [], ha, rfl⟩)
  | call n caller contractAddress input result hs => exact Or.inl (h.eq_of_call hs)

/-- Executing a transaction keeps the store well formed. -/
theorem executes (h : db.WellFormed c) {now : U64} {tx : SignedTransaction}
    (hexec : Executes c evm now tx db db') (hlen : db'.blocks.length ≤ isizeMax) :
    db'.WellFormed c := by
  obtain ⟨last, latest, hb, ha, _, rfl⟩ := hexec
  refine h.extend hb ha ?_
  simpa only [HashMapEthDB.extend, List.length_append, List.length_singleton] using hlen

/-- Changing an account map keeps the store well formed. -/
theorem set (h : db.WellFormed c) {i : Nat} {accounts : Accounts}
    (ha : db.accounts[i]? = some accounts) (applies : List Apply) :
    WellFormed c { db with
      accounts := db.accounts.set i (applies.foldl (Accounts.applyOne false) accounts) } := by
  refine { h with aligned := ?_, sparse := ?_ }
  · rw [List.length_set]
    exact h.aligned
  · intro accounts' hmem
    rcases List.mem_or_eq_of_mem_set hmem with hmem | rfl
    · exact h.sparse accounts' hmem
    · exact (h.sparse accounts (List.mem_of_getElem? ha)).foldl_applyOne false applies

/-- An operation keeps the store well formed. -/
theorem dbStep (h : db.WellFormed c) (hs : DbStep c evm db db') : db'.WellFormed c := by
  rcases h.dbStep_cases hs with rfl | ⟨now, tx, hexec, hlen⟩ | ⟨i, accounts, applies, ha, rfl⟩
  · exact h
  · exact h.executes hexec hlen
  · exact h.set ha applies

end WellFormed

section

variable {c : Crypto} {evm : Evm} {db : HashMapEthDB}

/-- Every reachable store is well formed. -/
theorem Reachable.wellFormed (h : Reachable c evm db) : db.WellFormed c := by
  obtain ⟨now, hrun⟩ := h
  induction hrun with
  | refl => exact WellFormed.new c now
  | tail _ hstep ih => exact ih.dbStep hstep

/-- What holds of a new store and is kept by executions and by changes of an account map
holds of every reachable store. -/
theorem Reachable.invariant {P : HashMapEthDB → Prop} (hnew : ∀ now, P (new c now))
    (hexec : ∀ now tx db db', db.WellFormed c → P db → Executes c evm now tx db db' →
      db'.blocks.length ≤ isizeMax → P db')
    (hset : ∀ (db : HashMapEthDB) i accounts, db.WellFormed c → P db →
      P { db with accounts := db.accounts.set i accounts })
    (h : Reachable c evm db) : P db := by
  obtain ⟨now, hrun⟩ := h
  induction hrun with
  | refl => exact hnew now
  | tail hprev hstep ih =>
    have hw := Reachable.wellFormed ⟨now, hprev⟩
    rcases hw.dbStep_cases hstep with rfl | ⟨now, tx, hx, hlen⟩ | ⟨i, accounts, _, _, rfl⟩
    · exact ih
    · exact hexec now tx _ _ hw ih hx hlen
    · exact hset _ i _ hw ih

end

end HashMapEthDB

end Tethereum
