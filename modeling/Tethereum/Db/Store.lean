import Tethereum.Db.Backend

/-!
# The chain store

Blocks and account maps are kept side by side, one map for each block, with an
index of the block hashes and a record of the executed transactions. Every
operation is a function of the store, of the clock reading it takes, and of the
virtual machine; an `unwrap` that fails is a panic.
-/

namespace Tethereum

/-- The store of a node. -/
structure HashMapEthDB where
  /-- The blocks, oldest first. -/
  blocks : List Block := []
  /-- The accounts behind each block. -/
  accounts : List Accounts := []
  /-- The number of each block hash. -/
  hashIndex : Std.ExtTreeMap H256 U64 := ∅
  /-- What is kept of each transaction hash. -/
  infos : Std.ExtTreeMap H256 TransactionInfo := ∅

/-- The block that `new_block` puts on top of the best one. -/
def Block.next (c : Crypto) (now : U64) (best : Block) (txs : List SignedTransaction) : Block :=
  let h : Header := {}
  let h := { h with parentHash := best.header.hash c }
  let h := { h with number := best.header.number + 1 }
  let h := { h with stateRoot := H256.fromLowU64Be h.number }
  let h := { h with receiptsRoot := H256.fromLowU64Be h.number }
  let h := { h with timestamp := now }
  let b : Block := { header := h, transactions := txs, uncles := [] }
  let b := { b with header :=
    { b.header with transactionsRoot := transactionRoot c b.transactions } }
  { b with header := (b.header.computeHash c).2 }

/-- The genesis block. -/
def Block.genesis (c : Crypto) (now : U64) : Block :=
  let h : Header := {}
  let h := { h with timestamp := now }
  { header := (h.computeHash c).2, transactions := [], uncles := [] }

namespace HashMapEthDB

/-- `create_genesis`. -/
def createGenesis (c : Crypto) (now : U64) (db : HashMapEthDB) : HashMapEthDB :=
  let g := Block.genesis c now
  { db with
    blocks := db.blocks ++ [g]
    hashIndex := db.hashIndex.insert (g.header.hash c) 0
    accounts := db.accounts ++ [∅] }

/-- A store that holds the genesis block. -/
def new (c : Crypto) (now : U64) : HashMapEthDB :=
  createGenesis c now { blocks := [], accounts := [], hashIndex := ∅, infos := ∅ }

/-- Create a new block. -/
def newBlock (c : Crypto) (now : U64) (db : HashMapEthDB) (txs : List SignedTransaction) :
    Outcome Block := do
  let best ← db.blocks.getLast?
  return best.next c now txs

/-- `save_block`. -/
def saveBlock (c : Crypto) (db : HashMapEthDB) (block : Block) : HashMapEthDB :=
  let (h, n) := (block.header.hash c, block.header.number)
  { db with blocks := db.blocks ++ [block], hashIndex := db.hashIndex.insert h n }

/-- The backend that a submitted transaction runs on. -/
def submitBackend (c : Crypto) (tx : SignedTransaction) (newBlock last : Block)
    (newAccounts : Accounts) : EthDBBackend where
  accounts := newAccounts
  sender := tx.sender
  gasPrice := tx.transaction.unsigned.gasPrice
  block := newBlock
  info := {
    postState := last.header.stateRoot
    parentHash := last.header.hash c
    blockHash := newBlock.header.hash c
    index := 0
    transaction := some tx }

/-- Execute a transaction on a copy of the latest accounts and, if it succeeds, extend the
chain by a block with it. -/
def submitTx (c : Crypto) (evm : Evm) (now : U64) (db : HashMapEthDB) (tx : SignedTransaction) :
    Outcome (Except String Unit × HashMapEthDB) := do
  let newBlock ← db.newBlock c now [tx]
  let newAccounts ← db.accounts.getLast?
  let last ← db.blocks.getLast?
  let backend := submitBackend c tx newBlock last newAccounts
  let ((exitReason, res, _), backend) := backend.execute evm tx.sender
    tx.transaction.unsigned.value tx.transaction.receiver tx.transaction.unsigned.data.toList
  if exitReason.isSucceed then
    let info := { backend.info with result := res }
    let db := { db with accounts := db.accounts ++ [backend.accounts] }
    let db := db.saveBlock c newBlock
    let db := { db with infos := db.infos.insert tx.hash info }
    return (.ok (), db)
  else
    return (.error "invalid transaction received", db)

/-- The backend that a simulated request runs on. -/
def requestBackend (caller : H160) (accounts : Accounts) (block : Block) : EthDBBackend where
  accounts := accounts
  sender := caller
  gasPrice := 0
  block := block
  info := {}

/-- Estimate gas, on the borrowed accounts of a block. -/
def estimateGas (evm : Evm) (db : HashMapEthDB) (blockNumber : U64) (caller : H160)
    (value : U256) («to» : Option H160) (input : List UInt8) :
    Outcome ((ExitReason × List UInt8 × U64) × HashMapEthDB) := do
  let accounts ← db.accounts[blockNumber.toNat]?
  let block ← db.blocks.getLast?
  let ((r, o, g), backend) :=
    (requestBackend caller accounts block).execute evm caller value «to» input
  return ((r, o.getD [], g),
    { db with accounts := db.accounts.set blockNumber.toNat backend.accounts })

/-- Static call, on the borrowed accounts of a block. -/
def call (evm : Evm) (db : HashMapEthDB) (blockNumber : U64) (caller contractAddress : H160)
    (input : List UInt8) : Outcome ((ExitReason × List UInt8 × U64) × HashMapEthDB) := do
  let accounts ← db.accounts[blockNumber.toNat]?
  let block ← db.blocks.getLast?
  let (result, backend) :=
    (requestBackend caller accounts block).call evm caller contractAddress input
  return (result, { db with accounts := db.accounts.set blockNumber.toNat backend.accounts })

/-- The number of the latest block; the subtraction underflows on an empty store. -/
def bestNumber (db : HashMapEthDB) : Outcome U64 :=
  if db.blocks.isEmpty then none else some (BitVec.ofNat 64 (db.blocks.length - 1))

/-- The latest block. -/
def bestBlock (db : HashMapEthDB) : Outcome Block :=
  if db.blocks.isEmpty then none else db.blocks[db.blocks.length - 1]?

/-- The receipt of a transaction hash, if there is one. -/
def receipt (c : Crypto) (db : HashMapEthDB) (hash : H256) : Outcome (Option RpcReceipt) :=
  match db.infos[hash]? with
  | none => some none
  | some info => do
    let tx ← info.transaction
    let blockNumber := db.hashIndex[info.blockHash]?.map (·.setWidth 256)
    let number : U256 ← blockNumber
    return some {
      transactionHash := some hash
      transactionIndex := some (BitVec.ofNat 256 info.index)
      blockHash := some info.blockHash
      «from» := some tx.sender
      «to» := tx.transaction.receiver
      blockNumber := blockNumber
      contractAddress := tx.contractAddress c
      stateRoot := db.blocks[number.toNat]?.map (·.header.stateRoot)
      statusCode := some 1 }

/-! ## What the operations do -/

variable {c : Crypto} {evm : Evm} {now : U64} {db : HashMapEthDB}

/-- What is kept of a transaction after its run. -/
def finish (info : TransactionInfo) (done : Execution (Option (List UInt8))) : TransactionInfo :=
  { info with logs := info.logs ++ done.logs, result := done.output }

/-- The machine's run of a submitted transaction. -/
def submitRun (c : Crypto) (evm : Evm) (now : U64) (tx : SignedTransaction) (last : Block)
    (latest : Accounts) : Execution (Option (List UInt8)) :=
  (submitBackend c tx (last.next c now [tx]) last latest).run evm tx.sender
    tx.transaction.unsigned.value tx.transaction.receiver tx.transaction.unsigned.data.toList

/-- The store after a transaction was executed on it. -/
def extend (c : Crypto) (evm : Evm) (now : U64) (db : HashMapEthDB) (tx : SignedTransaction)
    (last : Block) (latest : Accounts) : HashMapEthDB :=
  let block := last.next c now [tx]
  let done := submitRun c evm now tx last latest
  { blocks := db.blocks ++ [block]
    accounts := db.accounts ++ [done.applies.foldl (Accounts.applyOne false) latest]
    hashIndex := db.hashIndex.insert (block.header.hash c) block.header.number
    infos := db.infos.insert tx.hash (finish (submitBackend c tx block last latest).info done) }

/-- On a store with a block and an account map, a submission either extends the chain or
is refused and changes nothing; which of the two is up to the machine. -/
theorem submitTx_eq {tx : SignedTransaction} {last : Block} {latest : Accounts}
    (hb : db.blocks.getLast? = some last) (ha : db.accounts.getLast? = some latest) :
    db.submitTx c evm now tx =
      if (submitRun c evm now tx last latest).reason.isSucceed
      then some (.ok (), db.extend c evm now tx last latest)
      else some (.error "invalid transaction received", db) := by
  unfold submitRun
  by_cases hr : ((submitBackend c tx (last.next c now [tx]) last latest).run evm tx.sender
    tx.transaction.unsigned.value tx.transaction.receiver
    tx.transaction.unsigned.data.toList).reason.isSucceed
  · simp only [submitTx, newBlock, hb, ha, Option.bind_eq_bind, Option.bind_some,
      Option.pure_def, EthDBBackend.execute, hr, if_true]
    rfl
  · simp only [submitTx, newBlock, hb, ha, Option.bind_eq_bind, Option.bind_some,
      Option.pure_def, EthDBBackend.execute, hr, if_false, Bool.false_eq_true]

/-- A simulated transaction leaves its changes in the accounts it borrowed. -/
theorem estimateGas_eq {n : U64} {accounts : Accounts} {last : Block}
    (ha : db.accounts[n.toNat]? = some accounts) (hb : db.blocks.getLast? = some last)
    (caller : H160) (value : U256) («to» : Option H160) (input : List UInt8) :
    db.estimateGas evm n caller value «to» input =
      let done := (requestBackend caller accounts last).run evm caller value «to» input
      some ((done.reason, done.output.getD [], done.usedGas),
        { db with accounts := db.accounts.set n.toNat (if done.reason.isSucceed
          then done.applies.foldl (Accounts.applyOne false) accounts else accounts) }) := by
  simp only [estimateGas, ha, hb, Option.bind_eq_bind, Option.bind_some, Option.pure_def,
    EthDBBackend.execute]
  split
  · rfl
  · rfl

/-- A simulated call leaves the store as it is. -/
theorem call_eq {n : U64} {accounts : Accounts} {last : Block}
    (ha : db.accounts[n.toNat]? = some accounts) (hb : db.blocks.getLast? = some last)
    (caller contractAddress : H160) (input : List UInt8) :
    db.call evm n caller contractAddress input =
      some (((requestBackend caller accounts last).call evm caller contractAddress input).1,
        db) := by
  obtain ⟨hlt, hget⟩ := List.getElem?_eq_some_iff.mp ha
  simp only [call, ha, hb, Option.bind_eq_bind, Option.bind_some, Option.pure_def,
    EthDBBackend.call_snd, requestBackend, ← hget, List.set_getElem_self]

/-- The receipt of a recorded transaction whose block is indexed. -/
theorem receipt_eq {hash : H256} {info : TransactionInfo} {tx : SignedTransaction} {n : U64}
    (hi : db.infos[hash]? = some info) (ht : info.transaction = some tx)
    (hn : db.hashIndex[info.blockHash]? = some n) :
    db.receipt c hash = some (some {
      transactionHash := some hash
      transactionIndex := some (BitVec.ofNat 256 info.index)
      blockHash := some info.blockHash
      «from» := some tx.sender
      «to» := tx.transaction.receiver
      blockNumber := some (n.setWidth 256)
      contractAddress := tx.contractAddress c
      stateRoot := db.blocks[n.toNat]?.map (·.header.stateRoot)
      statusCode := some 1 }) := by
  have hwidth : (n.setWidth 256).toNat = n.toNat :=
    BitVec.toNat_setWidth_of_le (by decide)
  simp only [receipt, hi, ht, hn, Option.bind_eq_bind, Option.bind_some, Option.map_some,
    Option.pure_def, hwidth]

end HashMapEthDB

/-! ## Executed transactions -/

/-- The transaction is executed with success on the latest accounts, which extends the
store. -/
def Executes (c : Crypto) (evm : Evm) (now : U64) (tx : SignedTransaction)
    (db db' : HashMapEthDB) : Prop :=
  ∃ last latest, db.blocks.getLast? = some last ∧ db.accounts.getLast? = some latest ∧
    (HashMapEthDB.submitRun c evm now tx last latest).reason.isSucceed ∧
    db' = db.extend c evm now tx last latest

section

variable {c : Crypto} {evm : Evm} {now : U64} {db db' : HashMapEthDB} {tx : SignedTransaction}
  {result : Except String Unit}

/-- A submission never panics: it executes the transaction, or it refuses it and changes
nothing. -/
theorem HashMapEthDB.submitTx_total (hb : db.blocks ≠ []) (ha : db.accounts ≠ []) :
    (∃ db', db.submitTx c evm now tx = some (.ok (), db') ∧ Executes c evm now tx db db') ∨
      db.submitTx c evm now tx = some (.error "invalid transaction received", db) := by
  have hlast := List.getLast?_eq_some_getLast hb
  have hlatest := List.getLast?_eq_some_getLast ha
  rw [submitTx_eq hlast hlatest]
  split
  · rename_i hr
    exact Or.inl ⟨_, rfl, _, _, hlast, hlatest, hr, rfl⟩
  · exact Or.inr rfl

/-- A submission executes the transaction, or it is refused and changes nothing. -/
theorem HashMapEthDB.submitTx_cases (hb : db.blocks ≠ []) (ha : db.accounts ≠ [])
    (h : db.submitTx c evm now tx = some (result, db')) :
    (result = .ok () ∧ Executes c evm now tx db db') ∨
      (result = .error "invalid transaction received" ∧ db' = db) := by
  rcases submitTx_total hb ha with ⟨db'', hs, hexec⟩ | hs
  · rw [hs] at h
    cases h
    exact Or.inl ⟨rfl, hexec⟩
  · rw [hs] at h
    cases h
    exact Or.inr ⟨rfl, rfl⟩

end

end Tethereum
