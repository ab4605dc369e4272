import Tethereum.Db.Receipts
import Tethereum.Rpc.Client

/-!
# Submitting a raw transaction

A raw transaction is decoded, its sender is recovered, and it is executed on a
copy of the latest accounts. Whatever fails on the way, nothing has changed; if
nothing fails, the store has grown by one block and all that belongs to it.
-/

namespace Tethereum

open HashMapEthDB EthClient

/-- The bytes are decoded, and their sender is recovered. -/
def Accepted (c : Crypto) (raw : List UInt8) (tx : SignedTransaction) : Prop :=
  UnverifiedTransaction.decode c { bytes := raw } = .ok tx.transaction ∧
    SignedTransaction.new c tx.transaction = .ok tx

/-- The store has grown by the block of one transaction. -/
structure Inclusion (c : Crypto) (evm : Evm) (now : U64) (tx : SignedTransaction)
    (db db' : HashMapEthDB) (block : Block) (latest accounts : Accounts)
    (info : TransactionInfo) : Prop where
  /-- The blocks are the old ones and the new one. -/
  blocks : db'.blocks = db.blocks ++ [block]
  /-- The new block holds the transaction and nothing else. -/
  transactions : block.transactions = [tx]
  /-- The new block is numbered by its position. -/
  number : block.header.number.toNat = db.blocks.length
  /-- The account maps are the old ones and the new one. -/
  accountMaps : db'.accounts = db.accounts ++ [accounts]
  /-- The latest accounts were those of the run. -/
  parent : db.accounts.getLast? = some latest
  /-- The machine is asked to run the transaction in the world of the latest accounts, in the new
  block's environment and with `u64::MAX` gas. It succeeds, and the new accounts are its changes
  laid over the latest ones. -/
  executed : ∃ last «to», db.blocks.getLast? = some last ∧ block = last.next c now [tx] ∧
    (∀ a, «to» = some a ↔ tx.transaction.unsigned.action = .call a) ∧
    let done := evm.transact (latest.world.view tx.transaction.unsigned.gasPrice tx.sender block)
      tx.sender tx.transaction.unsigned.value «to» tx.transaction.unsigned.data.toList
    done.reason.isSucceed ∧ accounts.world = latest.world.overlay done.applies ∧
      accounts.Sparse ∧ info.logs = done.logs ∧ info.result = done.output
  /-- The new block's hash was not indexed. -/
  fresh : db.hashIndex[block.header.hash c]? = none
  /-- The new block's hash is indexed, and the other hashes as before. -/
  hashIndex : ∀ hash : H256, db'.hashIndex[hash]? =
    if block.header.hash c = hash then some block.header.number else db.hashIndex[hash]?
  /-- The transaction is recorded, and the others as before. -/
  infos : ∀ hash : H256, db'.infos[hash]? =
    if tx.hash = hash then some info else db.infos[hash]?
  /-- The record names the transaction. -/
  recorded : info.transaction = some tx
  /-- The receipt names the new block. -/
  receipt : ∃ r, db'.receipt c tx.hash = some (some r) ∧
    r.transactionHash = some tx.hash ∧ r.blockHash = some (block.header.hash c) ∧
    r.blockNumber = some (block.header.number.setWidth 256) ∧
    r.stateRoot = some block.header.stateRoot

section

variable {c : Crypto} {evm : Evm} {now : U64} {db db' : HashMapEthDB} {tx : SignedTransaction}

/-- Executing a transaction on a well-formed store includes it, unless headers collide. -/
theorem Executes.inclusion (h : Executes c evm now tx db db') (hw : db.WellFormed c)
    (hk : Set.InjOn c.keccak db'.headerEncodings) :
    ∃ block latest accounts info,
      Inclusion c evm now tx db db' block latest accounts info := by
  obtain ⟨last, latest, hb, ha, hr, rfl⟩ := h
  have hnum := hw.toNat_number_next hb now [tx]
  have hsparse := hw.sparse latest (List.mem_of_getLast? ha)
  let done := submitRun c evm now tx last latest
  have hdone : done = _ := submitRun_eq hsparse
  exact ⟨last.next c now [tx], latest, done.applies.foldl (Accounts.applyOne false) latest,
    finish (submitBackend c tx (last.next c now [tx]) last latest).info done, {
      blocks := rfl
      transactions := rfl
      number := hnum
      accountMaps := rfl
      parent := ha
      executed := by
        refine ⟨last, tx.transaction.receiver, hb, rfl,
          fun _ => UnverifiedTransaction.receiver_eq_some_iff, ?_⟩
        rw [← hdone]
        exact ⟨hr, Accounts.world_foldl_applyOne _, hsparse.foldl_applyOne false _, rfl, rfl⟩
      fresh := hw.hashIndex_next_eq_none hb now [tx] hk
      hashIndex := getElem?_hashIndex_extend
      infos := getElem?_infos_extend
      recorded := rfl
      receipt := ⟨_, receipt_extend_eq hw hb, rfl, rfl, rfl, rfl⟩ }⟩

/-- A raw transaction is refused and changes nothing, or it is accepted and executed. -/
theorem sendRawTransaction_cases (hb : db.blocks ≠ []) (ha : db.accounts ≠ [])
    (raw : List UInt8) (poisoned : Bool) :
    (∃ e, sendRawTransaction c evm now raw ⟨db, poisoned⟩ =
      (some (.error e), ⟨db, poisoned⟩)) ∨
    ∃ tx db', Accepted c raw tx ∧ Executes c evm now tx db db' ∧
      sendRawTransaction c evm now raw ⟨db, poisoned⟩ = (some (.ok tx.hash), ⟨db', false⟩) := by
  unfold sendRawTransaction
  cases hd : UnverifiedTransaction.decode c { bytes := raw } with
  | error e => exact Or.inl ⟨_, Handler.rpcTry_error_bind e _⟩
  | ok t =>
    rw [Handler.rpcTry_ok_bind]
    cases hn : SignedTransaction.new c t with
    | error e => exact Or.inl ⟨_, Handler.rpcTry_error_bind e _⟩
    | ok tx =>
      obtain rfl := SignedTransaction.transaction_of_new hn
      rw [Handler.rpcTry_ok_bind]
      cases poisoned with
      | true => exact Or.inl ⟨_, Handler.bind_of_error (getMutDb_poisoned _)⟩
      | false =>
        rcases submitTx_total hb ha with ⟨db', hs, hexec⟩ | hs
        · have hopen : getMutDb (fun db => db.submitTx c evm now tx) ⟨db, false⟩ = _ :=
            getMutDb_of_some hs
          exact Or.inr ⟨tx, db', ⟨hd, hn⟩, hexec, Handler.bind_of_ok hopen⟩
        · have hopen : getMutDb (fun db => db.submitTx c evm now tx) ⟨db, false⟩ = _ :=
            getMutDb_of_some hs
          exact Or.inl ⟨_, Handler.bind_of_ok hopen⟩

/-- Submission is all or nothing: it responds with an error and changes nothing, or it
responds with the hash of the decoded transaction and includes it. -/
theorem sendRawTransaction_atomic {runtime : Runtime} (h : Reachable c evm runtime.ethDb)
    (raw : List UInt8)
    (hk : Set.InjOn c.keccak
      (sendRawTransaction c evm now raw runtime).2.ethDb.headerEncodings) :
    (∃ e, sendRawTransaction c evm now raw runtime = (some (.error e), runtime)) ∨
    ∃ tx db' block latest accounts info,
      UnverifiedTransaction.decode c { bytes := raw } = .ok tx.transaction ∧
      sendRawTransaction c evm now raw runtime = (some (.ok tx.hash), ⟨db', false⟩) ∧
      Inclusion c evm now tx runtime.ethDb db' block latest accounts info := by
  have hw := h.wellFormed
  rcases sendRawTransaction_cases hw.blocks_ne_nil hw.accounts_ne_nil raw runtime.poisoned with
    he | ⟨tx, db', hacc, hexec, hsend⟩
  · exact Or.inl he
  · have hafter : (sendRawTransaction c evm now raw runtime).2.ethDb = db' :=
      congrArg (fun served => served.2.ethDb) hsend
    rw [hafter] at hk
    obtain ⟨block, latest, accounts, info, hinc⟩ := hexec.inclusion hw hk
    exact Or.inr ⟨tx, db', block, latest, accounts, info, hacc.1, hsend, hinc⟩

/-- The smallest signed creation, sent to the genesis store of the sample machine. -/
theorem sendRawTransaction_atomic_smallest :
    let runtime : Runtime := ⟨HashMapEthDB.new .sample 0, false⟩
    let raw := [0xc9, 0x80, 0x80, 0x80, 0x80, 0x80, 0x80, 0x1b, 0x01, 0x01]
    (∃ e, sendRawTransaction .sample .sample 5 raw runtime = (some (.error e), runtime)) ∨
    ∃ tx db' block latest accounts info,
      UnverifiedTransaction.decode .sample { bytes := raw } = .ok tx.transaction ∧
      sendRawTransaction .sample .sample 5 raw runtime = (some (.ok tx.hash), ⟨db', false⟩) ∧
      Inclusion .sample .sample 5 tx runtime.ethDb db' block latest accounts info :=
  sendRawTransaction_atomic (reachable_new .sample .sample 0) _
    (injOn_headerEncodings (by decide +kernel))

end

end Tethereum
