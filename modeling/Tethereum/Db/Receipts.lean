import Tethereum.Db.ReadOnly

/-!
# Receipts

A receipt is put together from the record of a transaction, the index of block
hashes and the blocks. On a reachable store these three agree: a record belongs
to a block that holds its transaction, and every included transaction has one.
The logs of a run reach the record; the receipt does not copy them.
-/

namespace Tethereum

namespace HashMapEthDB

/-- Records and blocks belong together. -/
structure Recorded (c : Crypto) (db : HashMapEthDB) : Prop where
  /-- A record names the only transaction of a block, and that block. -/
  sound : ∀ (hash : H256) (info : TransactionInfo), db.infos[hash]? = some info →
    ∃ (i : Nat) (block : Block) (tx : SignedTransaction), db.blocks[i]? = some block ∧
      block.transactions = [tx] ∧ tx.hash = hash ∧ info.transaction = some tx ∧
      info.blockHash = block.header.hash c ∧ info.index = 0
  /-- Every transaction of a block has a record. -/
  complete : ∀ block ∈ db.blocks, ∀ tx ∈ block.transactions,
    ∃ info, db.infos[tx.hash]? = some info

/-- A receipt names the block and the position of a transaction with the hash. -/
structure ReceiptNames (c : Crypto) (db : HashMapEthDB) (hash : H256) (r : RpcReceipt) (n i : U256)
    (block : Block) (tx : SignedTransaction) : Prop where
  /-- The block number. -/
  blockNumber : r.blockNumber = some n
  /-- The block with that number. -/
  stored : db.blocks[n.toNat]? = some block
  /-- The block's hash. -/
  blockHash : r.blockHash = some (block.header.hash c)
  /-- The block's state root. -/
  stateRoot : r.stateRoot = some block.header.stateRoot
  /-- The position in the block. -/
  transactionIndex : r.transactionIndex = some i
  /-- The transaction at that position. -/
  transaction : block.transactions[i.toNat]? = some tx
  /-- The transaction's hash. -/
  transactionHash : tx.hash = hash ∧ r.transactionHash = some hash
  /-- The transaction's sender. -/
  sender : r.from = some tx.sender
  /-- The transaction's receiver, if it is a call. -/
  receiver : ∀ a, r.to = some a ↔ tx.transaction.unsigned.action = .call a

section

variable {c : Crypto} {evm : Evm} {now : U64} {db db' : HashMapEthDB} {tx : SignedTransaction}

/-- A new store has no records. -/
theorem Recorded.new (c : Crypto) (now : U64) : Recorded c (new c now) where
  sound hash info h := by
    simp [HashMapEthDB.new, createGenesis] at h
  complete block hmem tx htx := by
    obtain rfl := List.mem_singleton.mp hmem
    contradiction

/-- Executing a transaction records it with the block on top. -/
theorem Recorded.executes (h : Recorded c db) (hexec : Executes c evm now tx db db') :
    Recorded c db' := by
  obtain ⟨last, latest, _, _, _, rfl⟩ := hexec
  constructor
  · intro hash info hi
    rw [getElem?_infos_extend] at hi
    by_cases hh : tx.hash = hash
    · rw [if_pos hh] at hi
      cases hi
      refine ⟨db.blocks.length, last.next c now [tx], tx, ?_, rfl, hh, rfl, rfl, rfl⟩
      rw [extend, List.getElem?_concat_length]
    · rw [if_neg hh] at hi
      obtain ⟨i, block, tx', hb, hrest⟩ := h.sound hash info hi
      refine ⟨i, block, tx', ?_, hrest⟩
      rw [extend, List.getElem?_append_left (List.getElem?_eq_some_iff.mp hb).1, hb]
  · intro block hmem tx' htx
    rw [getElem?_infos_extend]
    by_cases hh : tx.hash = tx'.hash
    · exact ⟨_, if_pos hh⟩
    · rw [if_neg hh]
      rcases List.mem_append.mp hmem with hmem | hmem
      · exact h.complete block hmem tx' htx
      · obtain rfl := List.mem_singleton.mp hmem
        rw [Block.transactions_next, List.mem_singleton] at htx
        exact absurd (congrArg SignedTransaction.hash htx.symm) hh

/-- Records and blocks belong together in every reachable store. -/
theorem Reachable.recorded (h : Reachable c evm db) : Recorded c db :=
  h.invariant (Recorded.new c) (fun _ _ _ _ _ hr hexec _ => hr.executes hexec)
    fun _ _ _ _ hr => ⟨hr.sound, hr.complete⟩

/-- Receipts are sound and complete: the lookup never panics, a receipt is there exactly for
the hashes of included transactions, and it names such a transaction. -/
theorem Reachable.receipt_iff (h : Reachable c evm db)
    (hk : Set.InjOn c.keccak db.headerEncodings) (hash : H256) :
    ∃ found, db.receipt c hash = some found ∧
      (found.isSome ↔ ∃ block ∈ db.blocks, ∃ tx ∈ block.transactions, tx.hash = hash) ∧
      ∀ r ∈ found, ∃ n i block tx, ReceiptNames c db hash r n i block tx := by
  have hw := h.wellFormed
  have hr := h.recorded
  cases hi : db.infos[hash]? with
  | none =>
    refine ⟨none, by rw [receipt, hi], iff_of_false (by simp) ?_, by simp⟩
    rintro ⟨block, hmem, tx, htx, rfl⟩
    obtain ⟨info, hinfo⟩ := hr.complete block hmem tx htx
    rw [hi] at hinfo
    contradiction
  | some info =>
    obtain ⟨i, block, tx, hb, htxs, hh, ht, hbh, hidx⟩ := hr.sound hash info hi
    have hnum := hw.toNat_number hb
    have hn : db.hashIndex[info.blockHash]? = some block.header.number := by
      rw [hbh, hw.getElem?_hashIndex_eq_some_iff hk, hnum]
      exact ⟨block, hb, rfl⟩
    refine ⟨_, receipt_eq hi ht hn, iff_of_true (by simp) ?_, ?_⟩
    · exact ⟨block, List.mem_of_getElem? hb, tx, htxs ▸ List.mem_singleton_self tx, hh⟩
    · intro r hmem
      cases hmem
      have hwidth : (block.header.number.setWidth 256).toNat = i := by
        rw [BitVec.toNat_setWidth_of_le (by omega), hnum]
      exact ⟨_, _, block, tx, {
        blockNumber := rfl
        stored := by rw [hwidth, hb]
        blockHash := congrArg some hbh
        stateRoot := by
          simp only [hnum, hb, Option.map_some]
        transactionIndex := rfl
        transaction := by
          rw [hidx, htxs]
          rfl
        transactionHash := ⟨hh, rfl⟩
        sender := rfl
        receiver := fun _ => UnverifiedTransaction.receiver_eq_some_iff }⟩

/-- The receipt of the creation that was submitted twice names the later block. -/
theorem receipt_iff_twice :
    ∃ db : HashMapEthDB, Reachable .sample .sample db ∧ db.blocks.length = 3 ∧
      ∃ found, db.receipt .sample .zero = some found ∧
        (found.isSome ↔ ∃ block ∈ db.blocks, ∃ tx ∈ block.transactions, tx.hash = .zero) ∧
        ∀ r ∈ found, ∃ n i block tx, ReceiptNames .sample db .zero r n i block tx := by
  have hreach : Reachable .sample .sample _ := ⟨0, .tail (.tail .refl
    (.submitTx 5 ⟨⟨{}, 27, 1, 1, .zero⟩, .zero, none⟩ _ rfl (Nat.le_of_ble_eq_true rfl)))
    (.submitTx 6 ⟨⟨{}, 27, 1, 1, .zero⟩, .zero, none⟩ _ rfl (Nat.le_of_ble_eq_true rfl))⟩
  exact ⟨_, hreach, rfl, hreach.receipt_iff (injOn_headerEncodings (by decide +kernel)) _⟩

/-! ## Receipts right after the execution -/

/-- The receipt of a transaction right after it was executed. -/
theorem receipt_extend_eq {last : Block} {latest : Accounts} (hw : db.WellFormed c)
    (hb : db.blocks.getLast? = some last) :
    let block := last.next c now [tx]
    (db.extend c evm now tx last latest).receipt c tx.hash = some (some {
      transactionHash := some tx.hash
      transactionIndex := some 0
      blockHash := some (block.header.hash c)
      «from» := some tx.sender
      «to» := tx.transaction.receiver
      blockNumber := some (block.header.number.setWidth 256)
      contractAddress := tx.contractAddress c
      stateRoot := some block.header.stateRoot
      statusCode := some 1 }) := by
  intro block
  have hi : (db.extend c evm now tx last latest).infos[tx.hash]? = some (finish
      (submitBackend c tx block last latest).info (submitRun c evm now tx last latest)) :=
    (getElem?_infos_extend _).trans (if_pos rfl)
  have hn : (db.extend c evm now tx last latest).hashIndex[block.header.hash c]? =
      some block.header.number := (getElem?_hashIndex_extend _).trans (if_pos rfl)
  have hblock : (db.extend c evm now tx last latest).blocks[block.header.number.toNat]? =
      some block := by
    rw [hw.toNat_number_next hb now [tx], extend, List.getElem?_concat_length]
  rw [receipt_eq hi rfl hn, hblock]
  rfl

/-- A log of a receipt is a log of the machine, tagged with the receipt's block and
transaction. -/
def LogTagged (r : RpcReceipt) (log : Log) (rpcLog : RpcLog) : Prop :=
  rpcLog.address = log.address ∧ rpcLog.topics = log.topics ∧ rpcLog.data = log.data ∧
    rpcLog.blockHash = r.blockHash ∧ rpcLog.blockNumber = r.blockNumber ∧
    rpcLog.transactionHash = r.transactionHash

/-- The record of an accepted transaction keeps the logs of its run; its receipt has them
exactly when there are none. -/
theorem Reachable.logs_iff (h : Reachable c evm db)
    (hs : db.submitTx c evm now tx = some (.ok (), db')) :
    ∃ last latest info r, db.blocks.getLast? = some last ∧
      db.accounts.getLast? = some latest ∧ db'.infos[tx.hash]? = some info ∧
      db'.receipt c tx.hash = some (some r) ∧
      info.logs = (submitRun c evm now tx last latest).logs ∧
      (List.Forall₂ (LogTagged r) (submitRun c evm now tx last latest).logs r.logs ↔
        (submitRun c evm now tx last latest).logs = []) := by
  have hw := h.wellFormed
  rcases hw.submitTx_cases hs with ⟨_, last, latest, hb, ha, _, rfl⟩ | ⟨he, _⟩
  · refine ⟨last, latest, _, _, hb, ha, (getElem?_infos_extend _).trans (if_pos rfl),
      receipt_extend_eq hw hb, rfl, ?_⟩
    exact List.forall₂_nil_right_iff
  · cases he

/-- The sample machine, with a log from every creation. -/
def loggingEvm : Evm where
  transactCall := Evm.sample.transactCall
  transactCreate backend _ caller _ _ _ :=
    ⟨.succeed .stopped, (), 53000, Evm.sampleApplies backend caller, [⟨caller, [], [1]⟩]⟩
  call := Evm.sample.call

/-- A creation on the genesis store of the sample machine, which logs nothing. -/
theorem logs_iff_silent :
    let tx : SignedTransaction := ⟨⟨{}, 27, 1, 1, .zero⟩, .zero, none⟩
    ∃ db' : HashMapEthDB, ∃ last latest info r, (new .sample 0).blocks.getLast? = some last ∧
      (new .sample 0).accounts.getLast? = some latest ∧ db'.infos[tx.hash]? = some info ∧
      db'.receipt .sample tx.hash = some (some r) ∧
      info.logs = (submitRun .sample .sample 5 tx last latest).logs ∧
      (List.Forall₂ (LogTagged r) (submitRun .sample .sample 5 tx last latest).logs r.logs ↔
        (submitRun .sample .sample 5 tx last latest).logs = []) :=
  ⟨_, (reachable_new .sample .sample 0).logs_iff rfl⟩

/-- The log of a creation does not reach its receipt. -/
theorem receipt_without_logs :
    ∃ db db' tx last latest r, Reachable .sample loggingEvm db ∧
      db.submitTx .sample loggingEvm 5 tx = some (.ok (), db') ∧
      db.blocks.getLast? = some last ∧ db.accounts.getLast? = some latest ∧
      db'.receipt .sample tx.hash = some (some r) ∧
      (submitRun .sample loggingEvm 5 tx last latest).logs = [⟨tx.sender, [], [1]⟩] ∧
      r.logs = [] :=
  ⟨new .sample 0, _, ⟨⟨{}, 27, 1, 1, .zero⟩, .zero, none⟩, _, _, _, reachable_new _ _ 0,
    (submitTx_eq rfl rfl).trans (if_pos rfl), rfl, rfl,
    receipt_extend_eq (WellFormed.new _ _) rfl, rfl, rfl⟩

end

end HashMapEthDB

end Tethereum
