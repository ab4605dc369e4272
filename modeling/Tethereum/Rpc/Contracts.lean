import Tethereum.Core.Contracts
import Tethereum.Rpc.Availability

/-!
# Contracts of requests

What the operations on the store keep, every request keeps, in any interleaving. What
a request promises about its response is proved guard by guard: under each guard the
store is one that the others have kept.
-/

namespace Tethereum

open HashMapEthDB EthClient Interleaving

namespace HashMapEthDB

variable {c : Crypto} {evm : Evm} {db db' : HashMapEthDB}

/-- A submission that ends executes the transaction or is refused. -/
theorem executes_of_submitTx {now : U64} {tx : SignedTransaction} {result : Except String Unit}
    (h : db.submitTx c evm now tx = some (result, db')) :
    (result = .ok () ∧ Executes c evm now tx db db') ∨
      (result = .error "invalid transaction received" ∧ db' = db) := by
  obtain ⟨_, hblock, hs⟩ := Option.bind_eq_some_iff.mp h
  obtain ⟨best, hbest, _⟩ := Option.bind_eq_some_iff.mp hblock
  obtain ⟨latest, hlatest, _⟩ := Option.bind_eq_some_iff.mp hs
  have hb : db.blocks ≠ [] := List.ne_nil_of_mem (List.mem_of_getLast? hbest)
  have ha : db.accounts ≠ [] := List.ne_nil_of_mem (List.mem_of_getLast? hlatest)
  exact submitTx_cases hb ha h

/-- An estimate that ends has run on the accounts of its block, which it may have changed. -/
theorem changed_of_estimateGas {n : U64} {caller : H160} {value : U256} {«to» : Option H160}
    {input : List UInt8} {result : ExitReason × List UInt8 × U64}
    (h : db.estimateGas evm n caller value «to» input = some (result, db')) :
    ∃ accounts ∈ db.accounts, ∃ last,
      let done := (requestBackend caller accounts last).run evm caller value «to» input
      db' = { db with accounts := db.accounts.set n.toNat (if done.reason.isSucceed
        then done.applies.foldl (Accounts.applyOne false) accounts else accounts) } := by
  obtain ⟨accounts, ha, hs⟩ := Option.bind_eq_some_iff.mp h
  obtain ⟨last, hb, _⟩ := Option.bind_eq_some_iff.mp hs
  rw [estimateGas_eq ha hb] at h
  cases h
  exact ⟨accounts, List.mem_of_getElem? ha, last, rfl⟩

/-- A call that ends has changed nothing. -/
theorem unchanged_of_call {n : U64} {caller contractAddress : H160} {input : List UInt8}
    {result : ExitReason × List UInt8 × U64}
    (h : db.call evm n caller contractAddress input = some (result, db')) : db' = db := by
  obtain ⟨accounts, ha, hs⟩ := Option.bind_eq_some_iff.mp h
  obtain ⟨last, hb, _⟩ := Option.bind_eq_some_iff.mp hs
  rw [call_eq ha hb] at h
  cases h
  rfl

end HashMapEthDB

/-- The property of the store is kept by every operation on it. -/
structure KeptByOperations (c : Crypto) (evm : Evm) (P : HashMapEthDB → Prop) : Prop where
  /-- An execution keeps it. -/
  executes : ∀ {db db' : HashMapEthDB} {now : U64} {tx : SignedTransaction}, P db →
    Executes c evm now tx db db' → P db'
  /-- An estimate keeps it. -/
  estimateGas : ∀ {db db' : HashMapEthDB} {n : U64} {caller : H160} {value : U256}
    {«to» : Option H160} {input : List UInt8} {result : ExitReason × List UInt8 × U64},
    P db → db.estimateGas evm n caller value «to» input = some (result, db') → P db'

section

variable {α β : Type} {c : Crypto} {evm : Evm} {P : HashMapEthDB → Prop} {Q : β → Prop}

/-- Every section keeps the property of the store, and a response is a good one. -/
def RequestThread.Ensures (P : HashMapEthDB → Prop) (Q : β → Prop) (t : RequestThread β) : Prop :=
  Thread.Ensures (fun runtime : Runtime => P runtime.ethDb)
    (fun result => ∀ response, result = some (.ok response) → Q response) t

/-! ## Guard by guard -/

/-- A good response is one. -/
theorem RequestThread.ensures_respond {b : β} (h : Q b) : (respond b).Ensures P Q := by
  rintro _ ⟨⟩
  exact h

/-- An error is no response. -/
theorem RequestThread.ensures_error (e : RpcError) :
    RequestThread.Ensures P Q (.done (some (.error e))) := by
  rintro _ ⟨⟩

/-- A result without a guard promises what follows it. -/
theorem RequestThread.ensures_attempt {result : Except RpcError α} {next : α → RequestThread β}
    (h : ∀ a, result = .ok a → (next a).Ensures P Q) : (attempt result next).Ensures P Q := by
  cases result with
  | error e => exact ensures_error e
  | ok a => exact h a rfl

/-- A read promises what follows it, from any store with the property. -/
theorem RequestThread.ensures_getDb {critical : HashMapEthDB → Outcome (Except RpcError α)}
    {next : α → RequestThread β}
    (h : ∀ db a, P db → critical db = some (.ok a) → (next a).Ensures P Q) :
    (lock (getDb critical) next).Ensures P Q := by
  rintro ⟨db, poisoned⟩ hP
  cases poisoned with
  | true => exact ⟨hP, ensures_error _⟩
  | false =>
    refine ⟨hP, ?_⟩
    simp only [getDb_open]
    cases hread : critical db with
    | none => exact fun _ => by rintro ⟨⟩
    | some result =>
      cases result with
      | error e => exact ensures_error e
      | ok a => exact h db a hP hread

/-- Work keeps the property and promises what follows it, from any store with the property. -/
theorem RequestThread.ensures_getMutDb {critical : HashMapEthDB → Outcome (α × HashMapEthDB)}
    {next : α → RequestThread β}
    (h : ∀ db a db', P db → critical db = some (a, db') → P db' ∧ (next a).Ensures P Q) :
    (lock (getMutDb critical) next).Ensures P Q := by
  rintro ⟨db, poisoned⟩ hP
  cases poisoned with
  | true => exact ⟨hP, ensures_error _⟩
  | false =>
    cases hwork : critical db with
    | none =>
      simp only [getMutDb_of_none hwork]
      exact ⟨hP, fun _ => by rintro ⟨⟩⟩
    | some done =>
      obtain ⟨a, db'⟩ := done
      simp only [getMutDb_of_some hwork]
      exact h db a db' hP hwork

/-- A response that is wrapped is promised unwrapped. -/
theorem RequestThread.ensures_map {t : RequestThread α} {wrap : α → β}
    (h : t.Ensures P fun a => Q (wrap a)) :
    RequestThread.Ensures P Q (t.map (·.map (·.map wrap))) := by
  refine Thread.ensures_map.mpr (Thread.Ensures.mono h fun result hresult response hresponse => ?_)
  obtain ⟨inner, rfl, hinner⟩ := Option.map_eq_some_iff.mp hresponse
  cases inner with
  | error e => contradiction
  | ok a =>
    cases hinner
    exact hresult a rfl

/-! ## Requests -/

/-- Submitting a raw transaction keeps what operations keep; its response is the hash of what
was accepted and submitted. -/
theorem RequestThread.ensures_sendRawTransaction (hP : KeptByOperations c evm P) (now : U64)
    (raw : List UInt8) {Q : NodeResponse → Prop}
    (h : ∀ tx db db', Accepted c raw tx → P db → Executes c evm now tx db db' →
      Q (.hash tx.hash)) :
    (sendRawTransaction c evm now raw).Ensures P Q := by
  apply ensures_attempt
  intro t hdecode
  apply ensures_attempt
  intro tx hnew
  apply ensures_getMutDb
  intro db result db' hdb hsubmit
  rcases executes_of_submitTx hsubmit with ⟨rfl, hexec⟩ | ⟨rfl, rfl⟩
  · refine ⟨hP.executes hdb hexec, ensures_attempt fun hash hhash => ensures_respond ?_⟩
    cases hhash
    have hdec := rpcTry_eq_ok_iff.mp hdecode
    have hsigned := rpcTry_eq_ok_iff.mp hnew
    obtain rfl := SignedTransaction.transaction_of_new hsigned
    exact h tx db db' ⟨hdec, hsigned⟩ hdb hexec
  · exact ⟨hdb, ensures_error _⟩

/-- A balance is one of the accounts behind a block. -/
theorem RequestThread.ensures_balance (address : H160) (tag : Option BlockNumber)
    {Q : NodeResponse → Prop}
    (h : ∀ db accounts, P db → accounts ∈ db.accounts →
      Q (.state (.quantity ((accounts[address]?.map (·.balance)).getD 0)))) :
    (balance address tag).Ensures P Q := by
  apply ensures_getDb
  intro db n _ _
  apply ensures_getDb
  intro db' states hdb' hread
  have hstates := rpcTry_eq_ok_iff.mp (Option.some.inj hread)
  cases haccounts : db'.accounts[n.toNat]? with
  | none =>
    rw [haccounts] at hstates
    contradiction
  | some accounts =>
    rw [haccounts] at hstates
    cases hstates
    exact ensures_respond (h db' states hdb' (List.mem_of_getElem? haccounts))

/-- The responses that a request to the node can get. -/
def NodeRequest.Expects : NodeRequest → NodeResponse → Prop
  | .sendRawTransaction _ _, response => ∃ h, response = .hash h
  | .state (.call _ _), response => ∃ bytes, response = .state (.output bytes)
  | .state _, response => ∃ n, response = .state (.quantity n)

/-- The responses that a request to the services can get. -/
def ServiceRequest.Expects (c : Crypto) : ServiceRequest → ServiceResponse → Prop
  | .node req, response => ∃ inner, response = .node inner ∧ req.Expects inner
  | .blockNumber, response => ∃ n, response = .quantity n
  | .blockByNumber _ _, response =>
    ∃ block, response = .block (some ⟨RpcBlock.ofBlock c block, []⟩)
  | .transactionReceipt _, response => ∃ receipt, response = .receipt receipt
  -- the others always respond with the same
  | req, response => ∀ evm, req.thread c evm = .respond response

/-- A request to the node keeps what operations keep, and gets what it expects. -/
theorem NodeRequest.ensures (hP : KeptByOperations c evm P) (req : NodeRequest) :
    (req.thread c evm).Ensures P req.Expects := by
  cases req with
  | sendRawTransaction now raw =>
    exact RequestThread.ensures_sendRawTransaction hP now raw fun _ _ _ _ _ _ => ⟨_, rfl⟩
  | state req =>
    cases req with
    | call creq tag =>
      apply RequestThread.ensures_attempt
      intro to' _
      apply RequestThread.ensures_getDb
      intro db n _ _
      apply RequestThread.ensures_getMutDb
      intro db result db' hdb hcall
      refine ⟨?_, RequestThread.ensures_attempt fun ret _ =>
        RequestThread.ensures_respond ⟨ret, rfl⟩⟩
      rwa [unchanged_of_call hcall]
    | estimateGas creq tag =>
      apply RequestThread.ensures_getDb
      intro db n _ _
      apply RequestThread.ensures_getMutDb
      intro db result db' hdb hestimate
      exact ⟨hP.estimateGas hdb hestimate, RequestThread.ensures_respond ⟨_, rfl⟩⟩
    | balance address tag =>
      exact RequestThread.ensures_balance address tag fun _ _ _ _ => ⟨_, rfl⟩
    | transactionCount k tag =>
      apply RequestThread.ensures_getDb
      intro db n _ _
      apply RequestThread.ensures_getDb
      intro db' nonce _ _
      exact RequestThread.ensures_respond ⟨nonce, rfl⟩

/-- A request to the services keeps what operations keep, and gets what it expects. -/
theorem ServiceRequest.ensures (hP : KeptByOperations c evm P) (req : ServiceRequest) :
    (req.thread c evm).Ensures P (req.Expects c) := by
  cases req with
  | node req =>
    apply RequestThread.ensures_map
    exact Thread.Ensures.mono (req.ensures hP) fun result hresult response hresponse =>
      ⟨response, rfl, hresult response hresponse⟩
  | blockNumber =>
    apply RequestThread.ensures_getDb
    intro db n _ _
    exact RequestThread.ensures_respond ⟨n, rfl⟩
  | blockByNumber tag full =>
    apply RequestThread.ensures_getDb
    intro db block _ hread
    obtain ⟨best, _, hblock⟩ := Option.bind_eq_some_iff.mp hread
    cases hblock
    exact RequestThread.ensures_respond ⟨best, rfl⟩
  | transactionReceipt hash =>
    apply RequestThread.ensures_getDb
    intro db receipt _ _
    exact RequestThread.ensures_respond ⟨receipt, rfl⟩
  | _ => exact RequestThread.ensures_respond fun _ => rfl

/-! ## Runs -/

/-- A property that does not depend on the accounts is kept if executions keep it. -/
theorem KeptByOperations.of_executes
    (hexec : ∀ {db db' : HashMapEthDB} {now : U64} {tx : SignedTransaction}, P db →
      Executes c evm now tx db db' → P db')
    (haccounts : ∀ {db : HashMapEthDB} (accounts : List Accounts), P db →
      P { db with accounts }) : KeptByOperations c evm P where
  executes := hexec
  estimateGas hP hestimate := by
    obtain ⟨_, _, _, rfl⟩ := changed_of_estimateGas hestimate
    exact haccounts _ hP

variable {ι : Type} [DecidableEq ι]

/-- In every interleaving the store keeps what operations keep, and every request gets what it
expects. -/
theorem KeptByOperations.run (hP : KeptByOperations c evm P) (runtime : Runtime)
    (h : P runtime.ethDb) (requests : ι → ServiceRequest) (schedule : List ι) :
    let p := (startServices c evm requests runtime).run schedule
    P p.shared.ethDb ∧ ∀ i response, p.threads i = .done (some (.ok response)) →
      (requests i).Expects c response := by
  have hstart : Pool.Ensures (fun runtime : Runtime => P runtime.ethDb)
      (fun i result => ∀ response, result = some (.ok response) →
        (requests i).Expects c response)
      (startServices c evm requests runtime) := ⟨h, fun i => (requests i).ensures hP⟩
  have hrun := hstart.run schedule
  exact ⟨hrun.shared, fun i response hdone => hrun.result hdone response rfl⟩

/-- A response is one that its request can get, whatever the store is. -/
theorem ServiceRequest.expects_of_done {runtime : Runtime} {requests : ι → ServiceRequest}
    {schedule : List ι} {i : ι} {response : ServiceResponse}
    (h : ((startServices c evm requests runtime).run schedule).threads i =
      .done (some (.ok response))) : (requests i).Expects c response := by
  have hany : KeptByOperations c evm fun _ => True :=
    .of_executes (fun _ _ => trivial) fun _ _ => trivial
  exact (hany.run runtime trivial requests schedule).2 i response h

end

end Tethereum
