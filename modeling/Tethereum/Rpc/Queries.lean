import Tethereum.Rpc.Tags

/-!
# Reading the state behind a tag

Four handlers resolve a tag and then look the accounts up, each in its own way:
with an error, with a default, or with an `unwrap` under the write guard. They
all respond to a tag that names a block; what they do with a number beyond the
best one depends on the handler.
-/

namespace Tethereum

open HashMapEthDB EthClient

/-- The requests that read the state behind a tag. -/
inductive StateRequest
  /-- `eth_call`. -/
  | call (req : CallRequest) (tag : Option BlockNumber)
  /-- `eth_estimateGas`. -/
  | estimateGas (req : CallRequest) (tag : Option BlockNumber)
  /-- `eth_getBalance`. -/
  | balance (address : H160) (tag : Option BlockNumber)
  /-- `eth_getTransactionCount`. -/
  | transactionCount (address : H160) (tag : Option BlockNumber)

/-- What they respond with. -/
inductive StateResponse
  /-- Output of a call. -/
  | output (bytes : List UInt8)
  /-- Gas, balance or count. -/
  | quantity (n : U256)
  deriving DecidableEq

namespace StateRequest

/-- The tag of a request. -/
def tag : StateRequest → Option BlockNumber
  | .call _ tag | .estimateGas _ tag | .balance _ tag | .transactionCount _ tag => tag

/-- The handler of a request. -/
def serve (evm : Evm) : StateRequest → Handler StateResponse
  | .call req tag => do return .output (← EthClient.call evm req tag)
  | .estimateGas req tag => do return .quantity (← EthClient.estimateGas evm req tag)
  | .balance address tag => do return .quantity (← EthClient.balance address tag)
  | .transactionCount address tag => do
    return .quantity (← EthClient.transactionCount address tag)

/-- The request is about a balance, or it lacks the contract to call, or its tag is not a
number greater than the best one. -/
def Guarded (db : HashMapEthDB) : StateRequest → Prop
  | .balance _ _ => True
  | .call req tag => req.to = none ∨ ¬ Beyond db tag
  | .estimateGas _ tag | .transactionCount _ tag => ¬ Beyond db tag

end StateRequest

/-- The request is responded to, and with an error if its tag names no block. -/
def Answered {α : Type} (c : Crypto) (db : HashMapEthDB) (tag : Option BlockNumber)
    (response : Outcome (Except RpcError α)) : Prop :=
  response ≠ none ∧ (¬ NamesBlock c db tag → ∃ e, response = some (.error e))

section

variable {c : Crypto} {evm : Evm} {db : HashMapEthDB} {tag : Option BlockNumber} {α β : Type}

/-- An error is an answer to any request. -/
theorem answered_error (e : RpcError) : Answered c db tag (some (.error e : Except _ α)) :=
  ⟨Option.some_ne_none _, fun _ => ⟨e, rfl⟩⟩

/-- Any response is an answer to a request that names a block. -/
theorem answered_of_namesBlock (h : NamesBlock c db tag) (response : Except RpcError α) :
    Answered c db tag (some response) :=
  ⟨Option.some_ne_none _, fun hn => absurd h hn⟩

/-- A value is no answer to a request that names no block. -/
theorem not_answered_ok (h : ¬ NamesBlock c db tag) (a : α) :
    ¬ Answered c db tag (some (.ok a)) := by
  rintro ⟨_, herror⟩
  obtain ⟨e, he⟩ := herror h
  cases he

/-- A panic is no answer. -/
theorem not_answered_panic : ¬ Answered c db tag (none : Outcome (Except RpcError α)) :=
  fun h => h.1 rfl

/-- Wrapping the value of a response changes nothing. -/
theorem answered_map_iff {g : α → β} {response : Outcome (Except RpcError α)} :
    Answered c db tag (response.map (·.map g)) ↔ Answered c db tag response := by
  cases response with
  | none => exact iff_of_false not_answered_panic not_answered_panic
  | some result =>
    cases result with
    | error e => exact iff_of_true (answered_error e) (answered_error e)
    | ok a =>
      by_cases h : NamesBlock c db tag
      · exact iff_of_true (answered_of_namesBlock h _) (answered_of_namesBlock h _)
      · exact iff_of_false (not_answered_ok h _) (not_answered_ok h _)

/-- A handler that wraps its response. -/
theorem Handler.bind_pure_apply (x : Handler α) (g : α → β) (runtime : Runtime) :
    (x >>= fun a => pure (g a)) runtime =
      ((x runtime).1.map (·.map g), (x runtime).2) := by
  rcases hx : x runtime with ⟨response, runtime'⟩
  cases response with
  | none => exact Handler.bind_of_panic hx
  | some result =>
    cases result with
    | error e => exact Handler.bind_of_error hx
    | ok a => exact Handler.bind_of_ok hx

/-! ## The tag under the read guard -/

variable {n : U64}

/-- A resolved tag. -/
theorem getDb_parseNumber (hp : parseNumber tag db = some (.ok n)) (msg : String) :
    getDb (fun db => (parseNumber tag db).map (rpcTry · msg)) ⟨db, false⟩ =
      (some (.ok n), ⟨db, false⟩) := by
  rw [getDb_open, hp]
  rfl

/-- A tag that is not resolved. -/
theorem getDb_parseNumber_error {e : String} (hp : parseNumber tag db = some (.error e))
    (msg : String) :
    getDb (fun db => (parseNumber tag db).map (rpcTry · msg)) ⟨db, false⟩ =
      (some (.error ⟨msg⟩), ⟨db, false⟩) := by
  rw [getDb_open, hp]
  rfl

/-! ## The handlers -/

/-- A balance is looked up with an error for a missing block. -/
theorem balance_eq (hp : parseNumber tag db = some (.ok n)) (address : H160) :
    EthClient.balance address tag ⟨db, false⟩ =
      (some (db.accounts[n.toNat]?.elim (.error ⟨"invalid block number"⟩)
        fun states => .ok ((states[address]?.map (·.balance)).getD 0)), ⟨db, false⟩) := by
  unfold EthClient.balance
  rw [Handler.bind_of_ok (getDb_parseNumber hp _)]
  cases ha : db.accounts[n.toNat]? with
  | none => exact Handler.bind_of_error (by rw [getDb_open, ha]; rfl)
  | some states => exact Handler.bind_of_ok (by rw [getDb_open, ha]; rfl)

/-- A count is looked up with zero for a missing block. -/
theorem transactionCount_eq (hp : parseNumber tag db = some (.ok n)) (k : H160) :
    EthClient.transactionCount k tag ⟨db, false⟩ =
      (some (.ok (((db.accounts[n.toNat]?.bind (·[k]?)).map (·.nonce)).getD 0)),
        ⟨db, false⟩) := by
  unfold EthClient.transactionCount
  rw [Handler.bind_of_ok (getDb_parseNumber hp _), getDb_open]

/-- An estimate panics for a missing block, which poisons the lock. -/
theorem estimateGas_of_none (hp : parseNumber tag db = some (.ok n))
    (ha : db.accounts[n.toNat]? = none) (req : CallRequest) :
    EthClient.estimateGas evm req tag ⟨db, false⟩ = (none, ⟨db, true⟩) := by
  unfold EthClient.estimateGas
  rw [Handler.bind_of_ok (getDb_parseNumber hp _)]
  apply Handler.bind_of_panic
  apply getMutDb_of_none
  rw [HashMapEthDB.estimateGas, ha]
  rfl

/-- An estimate for a stored block responds with the gas, and leaves the changes of a successful
run behind in the accounts. -/
theorem estimateGas_run (hp : parseNumber tag db = some (.ok n)) {accounts : Accounts}
    (ha : db.accounts[n.toNat]? = some accounts) {last : Block}
    (hb : db.blocks.getLast? = some last) (req : CallRequest) :
    let done := (requestBackend (req.from.getD .zero) accounts last).run evm
      (req.from.getD .zero) (req.value.getD 0) req.to (req.data.getD [])
    EthClient.estimateGas evm req tag ⟨db, false⟩ =
      (some (.ok (done.usedGas.setWidth 256)),
        ⟨{ db with accounts := db.accounts.set n.toNat (if done.reason.isSucceed
          then done.applies.foldl (Accounts.applyOne false) accounts else accounts) }, false⟩) := by
  intro done
  have hopen : getMutDb (fun db => db.estimateGas evm n (req.from.getD .zero)
      (req.value.getD 0) req.to (req.data.getD [])) ⟨db, false⟩ = _ :=
    getMutDb_of_some (estimateGas_eq ha hb _ _ _ _)
  unfold EthClient.estimateGas
  rw [Handler.bind_of_ok (getDb_parseNumber hp _), Handler.bind_of_ok hopen]
  rfl

/-- An estimate responds for a stored block. -/
theorem estimateGas_of_some (hp : parseNumber tag db = some (.ok n)) {accounts : Accounts}
    (ha : db.accounts[n.toNat]? = some accounts) {last : Block}
    (hb : db.blocks.getLast? = some last) (req : CallRequest) :
    ∃ gas db', EthClient.estimateGas evm req tag ⟨db, false⟩ =
      (some (.ok gas), ⟨db', false⟩) :=
  ⟨_, _, estimateGas_run hp ha hb req⟩

/-- A call without a contract is an error. -/
theorem call_of_missing {req : CallRequest} (ht : req.to = none) (runtime : Runtime) :
    EthClient.call evm req tag runtime =
      (some (.error ⟨"missing contract address"⟩), runtime) := by
  unfold EthClient.call
  exact Handler.bind_of_error (by rw [ht]; rfl)

/-- A call panics for a missing block, which poisons the lock. -/
theorem call_of_none (hp : parseNumber tag db = some (.ok n))
    (ha : db.accounts[n.toNat]? = none) {req : CallRequest} {«to» : H160}
    (ht : req.to = some «to») :
    EthClient.call evm req tag ⟨db, false⟩ = (none, ⟨db, true⟩) := by
  unfold EthClient.call
  rw [Handler.bind_of_ok (by rw [ht]; rfl), Handler.bind_of_ok (getDb_parseNumber hp _)]
  apply Handler.bind_of_panic
  apply getMutDb_of_none
  rw [HashMapEthDB.call, ha]
  rfl

/-- A call responds for a stored block and leaves the store as it is. -/
theorem call_of_some (hp : parseNumber tag db = some (.ok n)) {accounts : Accounts}
    (ha : db.accounts[n.toNat]? = some accounts) {last : Block}
    (hb : db.blocks.getLast? = some last) {req : CallRequest} {«to» : H160}
    (ht : req.to = some «to») :
    ∃ response, EthClient.call evm req tag ⟨db, false⟩ = (some response, ⟨db, false⟩) := by
  unfold EthClient.call
  rw [Handler.bind_of_ok (by rw [ht]; rfl), Handler.bind_of_ok (getDb_parseNumber hp _),
    Handler.bind_of_ok (getMutDb_of_some (call_eq ha hb _ _ _))]
  generalize ((requestBackend (req.from.getD .zero) accounts last).call evm
    (req.from.getD .zero) «to» (req.data.getD [])).1 = result
  obtain ⟨reason, ret, gas⟩ := result
  by_cases hr : reason.isSucceed
  · exact ⟨.ok ret, by simp only [hr]; rfl⟩
  · exact ⟨rpcErr "call failed", by simp only [hr]; rfl⟩

/-! ## Answers on a well-formed store -/

/-- A balance is always answered. -/
theorem answered_balance (hw : db.WellFormed c) (address : H160) :
    Answered c db tag (EthClient.balance address tag ⟨db, false⟩).1 := by
  rcases hw.parseNumber_cases tag with ⟨n, hp, hn, hname, _⟩ | ⟨n, hp, hn, _, _⟩ | ⟨hp, _, _⟩
  · rw [balance_eq hp]
    exact answered_of_namesBlock hname _
  · rw [balance_eq hp, hw.accounts_eq_none hn]
    exact answered_error _
  · rw [EthClient.balance, Handler.bind_of_error (getDb_parseNumber_error hp _)]
    exact answered_error _

/-- A count is not answered beyond the best number. -/
theorem answered_transactionCount_iff (hw : db.WellFormed c) (k : H160) :
    Answered c db tag (EthClient.transactionCount k tag ⟨db, false⟩).1 ↔ ¬ Beyond db tag := by
  rcases hw.parseNumber_cases tag with ⟨n, hp, hn, hname, hbeyond⟩ |
    ⟨n, hp, hn, hname, hbeyond⟩ | ⟨hp, _, hbeyond⟩
  · rw [transactionCount_eq hp]
    exact iff_of_true (answered_of_namesBlock hname _) hbeyond
  · rw [transactionCount_eq hp]
    exact iff_of_false (not_answered_ok hname _) (not_not_intro hbeyond)
  · rw [EthClient.transactionCount, Handler.bind_of_error (getDb_parseNumber_error hp _)]
    exact iff_of_true (answered_error _) hbeyond

/-- An estimate is not answered beyond the best number. -/
theorem answered_estimateGas_iff (hw : db.WellFormed c) (req : CallRequest) :
    Answered c db tag (EthClient.estimateGas evm req tag ⟨db, false⟩).1 ↔ ¬ Beyond db tag := by
  obtain ⟨last, hb⟩ := hw.exists_last
  rcases hw.parseNumber_cases tag with ⟨n, hp, hn, hname, hbeyond⟩ |
    ⟨n, hp, hn, hname, hbeyond⟩ | ⟨hp, _, hbeyond⟩
  · obtain ⟨accounts, ha⟩ := hw.exists_accounts hn
    obtain ⟨gas, db', he⟩ := estimateGas_of_some hp ha hb req
    rw [he]
    exact iff_of_true (answered_of_namesBlock hname _) hbeyond
  · rw [estimateGas_of_none hp (hw.accounts_eq_none hn)]
    exact iff_of_false not_answered_panic (not_not_intro hbeyond)
  · rw [EthClient.estimateGas, Handler.bind_of_error (getDb_parseNumber_error hp _)]
    exact iff_of_true (answered_error _) hbeyond

/-- A call of a contract is not answered beyond the best number. -/
theorem answered_call_iff (hw : db.WellFormed c) (req : CallRequest) :
    Answered c db tag (EthClient.call evm req tag ⟨db, false⟩).1 ↔
      req.to = none ∨ ¬ Beyond db tag := by
  obtain ⟨last, hb⟩ := hw.exists_last
  cases ht : req.to with
  | none =>
    rw [call_of_missing ht]
    exact iff_of_true (answered_error _) (Or.inl rfl)
  | some «to» =>
    rcases hw.parseNumber_cases tag with ⟨n, hp, hn, hname, hbeyond⟩ |
      ⟨n, hp, hn, hname, hbeyond⟩ | ⟨hp, _, hbeyond⟩
    · obtain ⟨accounts, ha⟩ := hw.exists_accounts hn
      obtain ⟨response, he⟩ := call_of_some hp ha hb ht
      rw [he]
      exact iff_of_true (answered_of_namesBlock hname _) (Or.inr hbeyond)
    · rw [call_of_none hp (hw.accounts_eq_none hn) ht]
      exact iff_of_false not_answered_panic (by simp [hbeyond])
    · rw [EthClient.call, Handler.bind_of_ok (by rw [ht]; rfl),
        Handler.bind_of_error (getDb_parseNumber_error hp _)]
      exact iff_of_true (answered_error _) (Or.inr hbeyond)

/-- On a reachable store a request is answered exactly when it is guarded. -/
theorem StateRequest.answered_iff (h : Reachable c evm db) (req : StateRequest) :
    Answered c db req.tag (req.serve evm ⟨db, false⟩).1 ↔ req.Guarded db := by
  have hw := h.wellFormed
  cases req with
  | balance address tag =>
    simp only [serve, StateRequest.tag, Guarded, iff_true, Handler.bind_pure_apply,
      answered_map_iff]
    exact answered_balance hw address
  | transactionCount address tag =>
    simp only [serve, StateRequest.tag, Guarded, Handler.bind_pure_apply, answered_map_iff]
    exact answered_transactionCount_iff hw address
  | estimateGas req tag =>
    simp only [serve, StateRequest.tag, Guarded, Handler.bind_pure_apply, answered_map_iff]
    exact answered_estimateGas_iff hw req
  | call req tag =>
    simp only [serve, StateRequest.tag, Guarded, Handler.bind_pure_apply, answered_map_iff]
    exact answered_call_iff hw req

/-- A balance on the genesis store of the sample machine. -/
theorem StateRequest.answered_iff_genesis :
    let db := HashMapEthDB.new .sample 0
    let req := StateRequest.balance .zero (some (.num 7))
    Answered .sample db req.tag (req.serve .sample ⟨db, false⟩).1 ↔ req.Guarded db :=
  answered_iff (reachable_new .sample .sample 0) _

/-- Asked about block 1 of a genesis store, an estimate and a call panic and leave the lock
poisoned, so that the next request fails, and a count is zero. -/
theorem StateRequest.beyond_genesis :
    ∃ db, Reachable .sample .sample db ∧ ¬ NamesBlock .sample db (some (.num 1)) ∧
      (estimateGas {} (some (.num 1))).serve .sample ⟨db, false⟩ = (none, ⟨db, true⟩) ∧
      (call { «to» := some .zero } (some (.num 1))).serve .sample ⟨db, false⟩ =
        (none, ⟨db, true⟩) ∧
      ((balance .zero none).serve .sample ⟨db, true⟩).1 =
        some (.error ⟨"failed to require runtime.eth_db read lock"⟩) ∧
      ((transactionCount .zero (some (.num 1))).serve .sample ⟨db, false⟩).1 =
        some (.ok (.quantity 0)) :=
  ⟨HashMapEthDB.new .sample 0, reachable_new _ _ 0, by
    intro h
    exact absurd h (Nat.lt_irrefl 1), rfl, rfl, rfl, rfl⟩

end

end Tethereum
