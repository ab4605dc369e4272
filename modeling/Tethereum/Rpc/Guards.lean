import Tethereum.Core.Locks
import Tethereum.Rpc.Availability

/-!
# Requests that take guards

A request waits for the guard of the store, looks at the store, changes one
container of it after another, and gives the guard back where the code drops it:
`parse_number` is handed the first guard of a request for what is behind a tag
and drops it, and every other guard is dropped at the end of the method. Next to
each other such requests serve what their sections serve.
-/

namespace Tethereum

open HashMapEthDB EthClient Interleaving

/-- A request on its way, guards and steps apart. -/
abbrev RequestGuards (α : Type) := GuardThread Runtime (Outcome (Except RpcError α))

namespace RequestGuards

variable {α β : Type}

/-- Respond. -/
def respond (a : α) : RequestGuards α := .done (some (.ok a))

/-- Go on with a result that takes no guard, unless it is an error. -/
def attempt (result : Except RpcError α) (next : α → RequestGuards β) : RequestGuards β :=
  match result with
  | .ok a => next a
  | .error e => .done (some (.error e))

/-- `get_db!`. The guard of a poisoned lock is dropped with the error that holds it. -/
def getDb (next : RequestGuards α) : RequestGuards α :=
  .acquire .read (.look fun runtime =>
    if runtime.poisoned then .release (.done (some (.error lockError))) else next)

/-- `get_mut_db!`. -/
def getMutDb (next : RequestGuards α) : RequestGuards α :=
  .acquire .write (.look fun runtime =>
    if runtime.poisoned then .release (.done (some (.error lockError))) else next)

/-- Look at the store under the read guard and drop it; so does a panic. -/
def reading (critical : HashMapEthDB → Outcome (Except RpcError α))
    (next : α → RequestGuards β) : RequestGuards β :=
  getDb (.look fun runtime => .release (match critical runtime.ethDb with
    | none => .done none
    | some result => attempt result next))

/-- `unwrap` under the write guard. The panic poisons the lock and drops the guard. -/
def unwrap (o : Option α) (next : α → RequestGuards β) : RequestGuards β :=
  match o with
  | none => .change (fun runtime => { runtime with poisoned := true }) (.release (.done none))
  | some a => next a

/-- Change the store. -/
def changeDb (update : HashMapEthDB → HashMapEthDB) (next : RequestGuards α) : RequestGuards α :=
  .change (fun runtime => { runtime with ethDb := update runtime.ethDb }) next

/-- `submit_tx`, under the write guard: one container is changed after another. -/
def submitTx (c : Crypto) (evm : Evm) (now : U64) (tx : SignedTransaction)
    (next : Except String Unit → RequestGuards α) : RequestGuards α :=
  .look fun runtime => unwrap (runtime.ethDb.newBlock c now [tx]) fun newBlock =>
  .look fun runtime => unwrap runtime.ethDb.accounts.getLast? fun newAccounts =>
  .look fun runtime => unwrap runtime.ethDb.blocks.getLast? fun last =>
    let backend := submitBackend c tx newBlock last newAccounts
    let ((exitReason, res, _), backend) := backend.execute evm tx.sender
      tx.transaction.unsigned.value tx.transaction.receiver tx.transaction.unsigned.data.toList
    if exitReason.isSucceed then
      let info := { backend.info with result := res }
      changeDb (fun db => { db with accounts := db.accounts ++ [backend.accounts] }) <|
      changeDb (fun db => { db with blocks := db.blocks ++ [newBlock] }) <|
      changeDb (fun db => { db with
        hashIndex := db.hashIndex.insert (newBlock.header.hash c) newBlock.header.number }) <|
      changeDb (fun db => { db with infos := db.infos.insert tx.hash info }) <|
      next (.ok ())
    else next (.error "invalid transaction received")

/-- `apply`, on the borrowed accounts of a block: one change after another. -/
def applyAll (n : U64) (values : List Apply) (next : RequestGuards α) : RequestGuards α :=
  values.foldr (fun value next => changeDb (fun db => { db with
    accounts := db.accounts.modify n.toNat (Accounts.applyOne false · value) }) next) next

/-- `HashMapEthDB::estimate_gas`, under the write guard. -/
def estimateDb (evm : Evm) (n : U64) (caller : H160) (value : U256) («to» : Option H160)
    (input : List UInt8) (next : ExitReason × List UInt8 × U64 → RequestGuards α) :
    RequestGuards α :=
  .look fun runtime => unwrap runtime.ethDb.accounts[n.toNat]? fun accounts =>
  .look fun runtime => unwrap runtime.ethDb.blocks.getLast? fun block =>
    let done := (requestBackend caller accounts block).run evm caller value «to» input
    let next := next (done.reason, done.output.getD [], done.usedGas)
    if done.reason.isSucceed then applyAll n done.applies next else next

/-- `HashMapEthDB::call`, under the write guard. -/
def callDb (evm : Evm) (n : U64) (caller contractAddress : H160) (input : List UInt8)
    (next : ExitReason × List UInt8 × U64 → RequestGuards α) : RequestGuards α :=
  .look fun runtime => unwrap runtime.ethDb.accounts[n.toNat]? fun accounts =>
  .look fun runtime => unwrap runtime.ethDb.blocks.getLast? fun block =>
    next ((requestBackend caller accounts block).call evm caller contractAddress input).1

/-- `eth_sendRawTransaction`. -/
def sendRawTransaction (c : Crypto) (evm : Evm) (now : U64) (raw : List UInt8) :
    RequestGuards NodeResponse :=
  attempt (rpcTry (UnverifiedTransaction.decode c { bytes := raw })
    "rpc error: parse raw transaction failed from rlp") fun tx =>
  attempt (rpcTry (SignedTransaction.new c tx) "verify transaction failed") fun signed =>
  getMutDb <| submitTx c evm now signed fun result =>
  .release <| attempt (rpcTry (result.map fun _ => signed.hash)
    "rpc error: invalid transaction received") fun h =>
  respond (.hash h)

/-- `eth_call`. -/
def call (evm : Evm) (req : CallRequest) (num : Option BlockNumber) :
    RequestGuards NodeResponse :=
  attempt (rpcTry (okOr req.to) "missing contract address") fun «to» =>
  reading (fun db => (parseNumber num db).map (rpcTry · "parse number failed")) fun n =>
  getMutDb <| callDb evm n (req.from.getD .zero) «to» (req.data.getD []) fun (reason, ret, _) =>
  .release <| attempt (if reason.isSucceed then .ok ret else rpcErr "call failed") fun ret =>
  respond (.state (.output ret))

/-- `eth_estimateGas`. -/
def estimateGas (evm : Evm) (req : CallRequest) (num : Option BlockNumber) :
    RequestGuards NodeResponse :=
  reading (fun db => (parseNumber num db).map (rpcTry · "parse number failed")) fun n =>
  getMutDb <| estimateDb evm n (req.from.getD .zero) (req.value.getD 0) req.to
    (req.data.getD []) fun (_, _, gas) =>
  .release <| respond (.state (.quantity (gas.setWidth 256)))

/-- `eth_getBalance`. -/
def balance (address : H160) (num : Option BlockNumber) : RequestGuards NodeResponse :=
  reading (fun db => (parseNumber num db).map (rpcTry · "parse block number failed"))
    fun number =>
  reading (fun db => some (rpcTry (okOr db.accounts[number.toNat]?) "invalid block number"))
    fun states =>
  respond (.state (.quantity ((states[address]?.map (·.balance)).getD 0)))

/-- `eth_getTransactionCount`. -/
def transactionCount (k : H160) (num : Option BlockNumber) : RequestGuards NodeResponse :=
  reading (fun db => (parseNumber num db).map (rpcTry · "parse number failed")) fun n =>
  reading (fun db =>
    some (.ok (((db.accounts[n.toNat]?.bind (·[k]?)).map (·.nonce)).getD 0))) fun nonce =>
  respond (.state (.quantity nonce))

/-! ## What the steps come to -/

/-- The steps under the write guard do the work: a panic poisons the lock, and otherwise they go on
with the store that the work leaves. -/
def Does (steps : (α → RequestGuards β) → RequestGuards β)
    (work : HashMapEthDB → Outcome (α × HashMapEthDB)) : Prop :=
  ∀ next db, (steps next).work .write ⟨db, false⟩ =
    (work db).elim (some (⟨db, true⟩, .done none)) fun done =>
      (next done.1).work .write ⟨done.2, false⟩

/-- The containers are changed as `submit_tx` changes the store. -/
theorem does_submitTx (c : Crypto) (evm : Evm) (now : U64) (tx : SignedTransaction) :
    Does (submitTx (α := α) c evm now tx) fun db => db.submitTx c evm now tx := by
  intro next db
  simp only [submitTx, HashMapEthDB.submitTx, GuardThread.work]
  cases hn : db.newBlock c now [tx] with
  | none => rfl
  | some newBlock =>
    simp only [unwrap, GuardThread.work, Option.bind_eq_bind, Option.bind_some]
    cases db.accounts.getLast? with
    | none => rfl
    | some newAccounts =>
      simp only [GuardThread.work, Option.bind_some]
      cases db.blocks.getLast? with
      | none => rfl
      | some last =>
        simp only [Option.bind_some]
        split
        · rfl
        · rfl

/-- To change one element again and again leaves what the changes make of it. -/
theorem foldl_modify {γ δ : Type} (f : γ → δ → γ) {l : List γ} {i : Nat} {a : γ}
    (h : l[i]? = some a) (values : List δ) :
    values.foldl (fun l value => l.modify i (f · value)) l = l.set i (values.foldl f a) := by
  induction values generalizing l a with
  | nil =>
    obtain ⟨hlt, rfl⟩ := List.getElem?_eq_some_iff.mp h
    exact (List.set_getElem_self hlt).symm
  | cons value values ih =>
    have hmodify : (l.modify i (f · value))[i]? = some (f a value) := by
      rw [List.getElem?_modify_eq, h]
      rfl
    rw [List.foldl_cons, ih hmodify, List.modify_eq_set_getElem?, h]
    exact List.set_set _

/-- The changes are made in the accounts, one after another. -/
theorem work_applyAll (n : U64) (values : List Apply) (next : RequestGuards β)
    (runtime : Runtime) :
    (applyAll n values next).work .write runtime = next.work .write { runtime with
      ethDb := { runtime.ethDb with
        accounts := values.foldl
          (fun accounts value => accounts.modify n.toNat (Accounts.applyOne false · value))
          runtime.ethDb.accounts } } := by
  induction values generalizing runtime with
  | nil => rfl
  | cons value values ih => exact ih _

/-- The borrowed accounts are changed as `estimate_gas` changes the store. -/
theorem does_estimateDb (evm : Evm) (n : U64) (caller : H160) (value : U256)
    («to» : Option H160) (input : List UInt8) :
    Does (estimateDb (α := α) evm n caller value «to» input) fun db =>
      db.estimateGas evm n caller value «to» input := by
  intro next db
  simp only [estimateDb, GuardThread.work]
  cases ha : db.accounts[n.toNat]? with
  | none =>
    have hpanic : db.estimateGas evm n caller value «to» input = none := by
      rw [HashMapEthDB.estimateGas, ha]
      rfl
    rw [hpanic]
    rfl
  | some accounts =>
    simp only [unwrap, GuardThread.work]
    cases hb : db.blocks.getLast? with
    | none =>
      have hpanic : db.estimateGas evm n caller value «to» input = none := by
        rw [HashMapEthDB.estimateGas, ha, hb]
        rfl
      rw [hpanic]
      rfl
    | some block =>
      rw [estimateGas_eq ha hb]
      simp only [Option.elim_some]
      split
      · rw [work_applyAll, foldl_modify _ ha]
      · obtain ⟨hlt, rfl⟩ := List.getElem?_eq_some_iff.mp ha
        rw [List.set_getElem_self]

/-- A call changes nothing. -/
theorem does_callDb (evm : Evm) (n : U64) (caller contractAddress : H160) (input : List UInt8) :
    Does (callDb (α := α) evm n caller contractAddress input) fun db =>
      db.call evm n caller contractAddress input := by
  intro next db
  simp only [callDb, GuardThread.work]
  cases ha : db.accounts[n.toNat]? with
  | none =>
    have hpanic : db.call evm n caller contractAddress input = none := by
      rw [HashMapEthDB.call, ha]
      rfl
    rw [hpanic]
    rfl
  | some accounts =>
    simp only [unwrap, GuardThread.work]
    cases hb : db.blocks.getLast? with
    | none =>
      have hpanic : db.call evm n caller contractAddress input = none := by
        rw [HashMapEthDB.call, ha, hb]
        rfl
      rw [hpanic]
      rfl
    | some block =>
      rw [call_eq ha hb]
      rfl

/-! ## Guards and sections -/

section

variable {thread : α → RequestThread β} {next : α → RequestGuards β}

/-- A result without a guard goes on alike. -/
theorem sectionsOf_attempt {result : Except RpcError α} (h : ∀ a, (thread a).SectionsOf (next a)) :
    (RequestThread.attempt result thread).SectionsOf (attempt result next) := by
  cases result with
  | error e => rfl
  | ok a => exact h a

/-- A look under the read guard is a section. -/
theorem sectionsOf_reading {critical : HashMapEthDB → Outcome (Except RpcError α)}
    (h : ∀ a, (thread a).SectionsOf (next a)) :
    (RequestThread.lock (Tethereum.getDb critical) thread).SectionsOf (reading critical next) := by
  refine ⟨.read, _, rfl, fun ⟨db, poisoned⟩ => ?_⟩
  cases poisoned with
  | true => exact ⟨_, rfl, rfl⟩
  | false =>
    refine ⟨_, rfl, ?_⟩
    simp only [getDb_open]
    cases critical db with
    | none => rfl
    | some result =>
      cases result with
      | error e => rfl
      | ok a => exact h a

/-- Steps that do the work under the write guard, and then drop it, are a section. -/
theorem sectionsOf_getMutDb {critical : HashMapEthDB → Outcome (α × HashMapEthDB)}
    {steps : (α → RequestGuards β) → RequestGuards β} {last : α → RequestGuards β}
    (hsteps : Does steps critical)
    (hlast : ∀ a runtime, (last a).work .write runtime = some (runtime, next a))
    (h : ∀ a, (thread a).SectionsOf (next a)) :
    (RequestThread.lock (Tethereum.getMutDb critical) thread).SectionsOf
      (getMutDb (steps last)) := by
  refine ⟨.write, _, rfl, fun ⟨db, poisoned⟩ => ?_⟩
  cases poisoned with
  | true => exact ⟨_, rfl, rfl⟩
  | false =>
    have hwork := hsteps last db
    cases hc : critical db with
    | none =>
      have hsection := getMutDb_of_none hc
      rw [hc] at hwork
      refine ⟨.done none, ?_, ?_⟩
      · simp only [hsection]
        exact hwork
      · simp only [hsection]
        rfl
    | some done =>
      obtain ⟨a, db'⟩ := done
      have hsection := getMutDb_of_some hc
      rw [hc, Option.elim_some, hlast] at hwork
      refine ⟨next a, ?_, ?_⟩
      · simp only [hsection]
        exact hwork
      · simp only [hsection]
        exact h a

end

end RequestGuards

/-- The guards and steps of a request. -/
def NodeRequest.guards (c : Crypto) (evm : Evm) : NodeRequest → RequestGuards NodeResponse
  | .sendRawTransaction now raw => RequestGuards.sendRawTransaction c evm now raw
  | .state (.call req tag) => RequestGuards.call evm req tag
  | .state (.estimateGas req tag) => RequestGuards.estimateGas evm req tag
  | .state (.balance address tag) => RequestGuards.balance address tag
  | .state (.transactionCount address tag) => RequestGuards.transactionCount address tag

/-- The guards and steps of a request to the services. -/
def ServiceRequest.guards (c : Crypto) (evm : Evm) :
    ServiceRequest → RequestGuards ServiceResponse
  | .node req => (req.guards c evm).map nodeResponse
  | .blockNumber => .reading (fun db => db.bestNumber.map fun n => .ok (n.setWidth 256))
    fun n => .respond (.quantity n)
  | .blockByNumber _ _ => .reading (fun db => do
      let best ← db.bestBlock
      let r := RpcBlock.ofBlock c best
      return .ok (some { inner := r, extraInfo := [] }))
    fun block => .respond (.block block)
  | .transactionReceipt h => .reading (fun db => (db.receipt c h).map .ok)
    fun receipt => .respond (.receipt receipt)
  | .sha3 data => .respond (.digest (c.keccak data))
  | .clientVersion => .respond (.text "tethereum v0.1; rust")
  | .version => .respond (.text (toString Tethereum.chainId.toNat))
  | .peerCount => .respond (.count 0)
  | .isListening => .respond (.flag false)
  | .protocolVersion => .respond (.text "tethereum")
  | .author => .respond (.address .zero)
  | .isMining => .respond (.flag true)
  | .chainId => .respond (.chain (some Tethereum.chainId))
  | .gasPrice => .respond (.quantity 0)
  | .accounts => .respond (.addresses [])
  | .hashrate => .respond (.quantity 0)
  | .syncing => .respond (.flag false)

/-- A request guard by guard has the sections of its thread. -/
theorem NodeRequest.sectionsOf_guards (c : Crypto) (evm : Evm) (req : NodeRequest) :
    (req.thread c evm).SectionsOf (req.guards c evm) := by
  cases req with
  | sendRawTransaction now raw =>
    apply RequestGuards.sectionsOf_attempt
    intro tx
    apply RequestGuards.sectionsOf_attempt
    intro signed
    apply RequestGuards.sectionsOf_getMutDb (RequestGuards.does_submitTx c evm now signed)
      fun _ _ => rfl
    intro result
    exact RequestGuards.sectionsOf_attempt fun hash => rfl
  | state req =>
    cases req with
    | call req tag =>
      apply RequestGuards.sectionsOf_attempt
      intro to'
      apply RequestGuards.sectionsOf_reading
      intro n
      apply RequestGuards.sectionsOf_getMutDb (RequestGuards.does_callDb evm n _ _ _)
        fun _ _ => rfl
      intro done
      exact RequestGuards.sectionsOf_attempt fun ret => rfl
    | estimateGas req tag =>
      apply RequestGuards.sectionsOf_reading
      intro n
      exact RequestGuards.sectionsOf_getMutDb (RequestGuards.does_estimateDb evm n _ _ _ _)
        (fun _ _ => rfl) fun done => rfl
    | balance address tag =>
      exact RequestGuards.sectionsOf_reading fun n => RequestGuards.sectionsOf_reading
        fun states => rfl
    | transactionCount k tag =>
      exact RequestGuards.sectionsOf_reading fun n => RequestGuards.sectionsOf_reading
        fun nonce => rfl

/-- So has a request to the services. -/
theorem ServiceRequest.sectionsOf_guards (c : Crypto) (evm : Evm) (req : ServiceRequest) :
    (req.thread c evm).SectionsOf (req.guards c evm) := by
  cases req with
  | node req => exact (req.sectionsOf_guards c evm).map nodeResponse
  | blockNumber => exact RequestGuards.sectionsOf_reading fun n => rfl
  | blockByNumber tag full => exact RequestGuards.sectionsOf_reading fun block => rfl
  | transactionReceipt h => exact RequestGuards.sectionsOf_reading fun receipt => rfl
  | _ => rfl

/-- All requests at their beginning, before any guard is taken. -/
def startGuards {ι : Type} (c : Crypto) (evm : Evm) (requests : ι → ServiceRequest)
    (runtime : Runtime) : GuardPool ι Runtime (Outcome (Except RpcError ServiceResponse)) where
  shared := runtime
  threads i := (requests i).guards c evm

/-- Whatever requests are served step by step next to each other, a request that has ended has ended
as it does when whole sections are served in the order in which the guards were given, without a
writer the store is the one of these sections, and a writer is alone. Whatever has happened, every
request can be brought to its end. -/
theorem served_in_sections {ι : Type} [DecidableEq ι] (c : Crypto) (evm : Evm)
    (requests : ι → ServiceRequest) (runtime : Runtime) (schedule : List ι) :
    let q := startGuards c evm requests runtime
    let p := (startServices c evm requests runtime).run (q.granted schedule)
    (q.granted schedule).Sublist schedule ∧
      (∀ i result, (q.run schedule).threads i = .done result → p.threads i = .done result) ∧
      ((∀ i, (q.run schedule).held i ≠ some .write) → (q.run schedule).shared = p.shared) ∧
      (∀ i, (q.run schedule).held i = some .write →
        ∀ j, j ≠ i → (q.run schedule).held j = none) ∧
      ∀ i, ∃ later result, (q.run (schedule ++ later)).threads i = .done result := by
  intro q p
  have hstart : q.InSections (startServices c evm requests runtime) := {
    held := GuardPool.Held.of_none fun _ => rfl
    outside := fun i _ => (requests i).sectionsOf_guards c evm
    inside := by rintro _ _ ⟨⟩
    shared := fun _ => rfl }
  have hrun : (q.run schedule).InSections p := hstart.run schedule
  refine ⟨q.granted_sublist schedule, fun i result hdone => hrun.done hdone, hrun.shared,
    hrun.held.alone, ?_⟩
  intro i
  obtain ⟨later, result, hdone⟩ := hrun.exists_done i
  exact ⟨later, result, by rw [GuardPool.run_append, hdone]⟩

end Tethereum
