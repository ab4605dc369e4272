import Tethereum.Rpc.Reads

/-!
# Calls next to submissions

A call finds the newest accounts under its first guard and the newest block under
its second one. If submissions come in between, the machine is shown the old
accounts in the environment of the new block, which no snapshot of the store had.
-/

namespace Tethereum

open HashMapEthDB EthClient Interleaving

/-- What is responded to a call that ran on some accounts in the environment of a block. -/
def callResponse (evm : Evm) (req : CallRequest) («to» : H160) (accounts : Accounts)
    (block : Block) : Except RpcError NodeResponse :=
  let (reason, ret, _) := ((requestBackend (req.from.getD .zero) accounts block).call evm
    (req.from.getD .zero) «to» (req.data.getD [])).1
  if reason.isSucceed then .ok (.state (.output ret)) else rpcErr "call failed"

/-- The request is answered in a run as it is, served without company, on a snapshot of the
store at some moment between its start and the end of the schedule. -/
def AnsweredOnSnapshot {ι : Type} [DecidableEq ι] (c : Crypto) (evm : Evm) (req : NodeRequest)
    (i : ι) (p : Pool ι Runtime (Outcome (Except RpcError NodeResponse)))
    (start schedule : List ι) : Prop :=
  ∃ moment, start <+: moment ∧ moment <+: schedule ∧ (p.run schedule).threads i =
    .done (req.serve c evm ⟨(p.run moment).shared.ethDb, false⟩).1

/-! ## What the machine is shown -/

section

variable {caller : H160} {accounts accounts' : Accounts} {block block' : Block}

/-- The accounts can be read off what the machine is shown. -/
theorem accounts_eq_of_view_eq
    (h : (requestBackend caller accounts block).view =
      (requestBackend caller accounts' block').view) : accounts = accounts' := by
  apply Std.ExtTreeMap.ext_getElem?
  intro address
  have hexists := congrFun (congrArg Backend.exists h) address
  have hbasic := congrFun (congrArg Backend.basic h) address
  have hcode := congrFun (congrArg Backend.code h) address
  have hstorage := congrFun (congrFun (congrArg Backend.originalStorage h) address)
  simp only [EthDBBackend.view, requestBackend, EthDBBackend.basic, EthDBBackend.originalStorage,
    Std.ExtTreeMap.contains_eq_isSome_getElem?] at hexists hbasic hcode hstorage
  cases hget : accounts[address]? with
  | none =>
    rw [hget] at hexists
    exact (Option.not_isSome_iff_eq_none.mp (by simp [← hexists])).symm
  | some account =>
    cases hget' : accounts'[address]? with
    | none =>
      rw [hget, hget'] at hexists
      contradiction
    | some account' =>
      simp only [hget, hget', Basic.mk.injEq, Option.bind_some] at hbasic hcode hstorage
      have hslots : account.storage = account'.storage :=
        Std.ExtTreeMap.ext_getElem? fun {index} => hstorage index
      obtain ⟨nonce, balance, storage, code⟩ := account
      obtain ⟨nonce', balance', storage', code'⟩ := account'
      simp only at hbasic hcode hslots
      rw [hbasic.1, hbasic.2, hcode, hslots]

/-- The number of the block can be read off what the machine is shown. -/
theorem number_eq_of_view_eq
    (h : (requestBackend caller accounts block).view =
      (requestBackend caller accounts' block').view) :
    block.header.number.toNat = block'.header.number.toNat := by
  have hnumber := congrArg (fun view => view.blockNumber.toNat) h
  simpa only [EthDBBackend.toNat_blockNumber_view, requestBackend] using hnumber

end

/-! ## Answers -/

section

variable {ι : Type} {c : Crypto} {evm : Evm} {req : CallRequest} {tag : Option BlockNumber}
  {«to» : H160}

/-- The thread of a call. -/
theorem threads_startRequests {requests : ι → NodeRequest} {i : ι}
    (hi : requests i = .state (.call req tag)) (c : Crypto) (evm : Evm) (runtime : Runtime) :
    (startRequests c evm requests runtime).threads i = RequestThread.call evm req tag := by
  simp only [startRequests, hi]
  rfl

/-- What ran before the second turn of a thread. -/
theorem prefix_second_turn (i : ι) (s₁ s₂ s₃ : List ι) :
    s₁ ++ i :: s₂ <+: s₁ ++ i :: (s₂ ++ i :: s₃) :=
  ⟨i :: s₃, by rw [List.append_assoc, List.cons_append]⟩

variable [DecidableEq ι]

/-- A call without an address takes no guard. -/
theorem RequestThread.call_eq_done (hto : req.to = none) :
    RequestThread.call evm req tag = .done (some (rpcErr "missing contract address")) := by
  rw [RequestThread.call, hto]
  rfl

/-- A call of a contract takes two guards and then responds. -/
theorem RequestThread.call_eq (hto : req.to = some «to») :
    RequestThread.call evm req tag =
      lock (getDb fun db => (parseNumber tag db).map (rpcTry · "parse number failed")) fun n =>
      lock (getMutDb fun db => db.call evm n (req.from.getD .zero) «to» (req.data.getD []))
        fun result => .done (some (if result.1.isSucceed
          then .ok (.state (.output result.2.1)) else rpcErr "call failed")) := by
  have hend : ∀ result : ExitReason × List UInt8 × U64,
      attempt (if result.1.isSucceed then .ok result.2.1 else rpcErr "call failed")
        (fun ret => respond (.state (.output ret))) =
      .done (some (if result.1.isSucceed then .ok (.state (.output result.2.1))
        else rpcErr "call failed" : Except RpcError NodeResponse)) := by
    intro result
    split
    · rfl
    · rfl
  simp only [RequestThread.call, hend]
  rw [hto]
  rfl

/-- A call without company runs on the newest accounts in the environment of the newest
block. -/
theorem serve_call {db : HashMapEthDB} (h : Positioned c db)
    (hlen : db.blocks.length ≤ isizeMax)
    (htag : tag.getD .latest = .latest ∨ tag.getD .latest = .pending)
    (hto : req.to = some «to») {latest : Accounts} {last : Block}
    (ha : db.accounts.getLast? = some latest) (hb : db.blocks.getLast? = some last) :
    ((NodeRequest.state (.call req tag)).serve c evm ⟨db, false⟩).1 =
      some (callResponse evm req «to» latest last) := by
  obtain ⟨n, hn, hget⟩ := resolve_newest h hlen htag ha
  rw [← NodeRequest.handler_thread]
  simp only [NodeRequest.thread, RequestThread.call_eq hto, RequestThread.handler_lock]
  rw [Handler.bind_of_ok (getDb_parseNumber hn _),
    Handler.bind_of_ok (getMutDb_of_some (HashMapEthDB.call_eq hget hb _ _ _))]
  rfl

/-- A call whose tag is resolved at one moment and that runs at a later one is shown the
accounts of the first moment and the block of the second one. -/
theorem threads_run_call {p : Pool ι Runtime (Outcome (Except RpcError NodeResponse))}
    (hp : p.Guarantees (Runtime.Sound c) Runtime.Grows) {i : ι} {s₁ s₂ s₃ : List ι}
    (hi : p.threads i = RequestThread.call evm req tag) (hs₁ : i ∉ s₁) (hs₂ : i ∉ s₂)
    (htag : tag.getD .latest = .latest ∨ tag.getD .latest = .pending)
    (hto : req.to = some «to»)
    (hlen : (p.run s₁).shared.ethDb.blocks.length ≤ isizeMax) {latest : Accounts} {last : Block}
    (ha : (p.run s₁).shared.ethDb.accounts.getLast? = some latest)
    (hb : (p.run (s₁ ++ i :: s₂)).shared.ethDb.blocks.getLast? = some last) :
    (p.run (s₁ ++ i :: (s₂ ++ i :: s₃))).threads i =
      .done (some (callResponse evm req «to» latest last)) := by
  rw [RequestThread.call_eq hto] at hi
  have hsound₁ := run_sound hp s₁
  obtain ⟨n, hn, hget⟩ := resolve_newest hsound₁.positioned hlen htag ha
  have hresolved : (getDb (fun db => (parseNumber tag db).map (rpcTry · "parse number failed"))
      (p.run s₁).shared).1 = some (.ok n) := by
    rw [hsound₁.eq, getDb_parseNumber hn]
  have hgrows := run_grows hp (List.prefix_append s₁ (i :: s₂))
  have hsame := hgrows.getElem?_accounts (List.getElem?_eq_some_iff.mp hget).1
  have hran : (getMutDb (fun db => db.call evm n (req.from.getD .zero) «to»
      (req.data.getD [])) (p.run (s₁ ++ i :: s₂)).shared).1 =
      some (.ok ((requestBackend (req.from.getD .zero) latest last).call evm
        (req.from.getD .zero) «to» (req.data.getD [])).1) := by
    rw [(run_sound hp (s₁ ++ i :: s₂)).eq,
      getMutDb_of_some (HashMapEthDB.call_eq (hsame.trans hget) hb _ _ _)]
  exact RequestThread.threads_run_lock_lock hi hs₁ hresolved hs₂ hran rfl

/-- A program can tell one environment from all others. -/
theorem exists_tellsApart (shown : Backend) : ∃ answer : CallAnswer,
    ∀ (evm : Evm) (req : CallRequest) («to» : H160) (accounts : Accounts) (block : Block),
      callResponse (evm.withCall answer) req «to» accounts block =
          .ok (.state (.output [1])) ↔
        (requestBackend (req.from.getD .zero) accounts block).view = shown := by
  classical
  refine ⟨fun backend _ _ _ _ _ _ =>
    (.exit (.succeed .returned) (if backend = shown then [1] else []), 0), ?_⟩
  intro evm req to' accounts block
  by_cases hview : (requestBackend (req.from.getD .zero) accounts block).view = shown
  · simp [callResponse, EthDBBackend.call, Evm.withCall, hview, ExitReason.isSucceed]
  · simp [callResponse, EthDBBackend.call, Evm.withCall, hview, ExitReason.isSucceed]

/-- Submissions and a call of the newest block keep everything in its place. -/
theorem guarantees_startRequests {db : HashMapEthDB} (hsound : Runtime.Sound c ⟨db, false⟩)
    {requests : ι → NodeRequest} {i : ι} (hi : requests i = .state (.call req tag))
    (hothers : ∀ j, j ≠ i → ∃ now raw, requests j = .sendRawTransaction now raw)
    (htag : tag.getD .latest = .latest ∨ tag.getD .latest = .pending) (evm : Evm) :
    (startRequests c evm requests ⟨db, false⟩).Guarantees (Runtime.Sound c) Runtime.Grows := by
  refine ⟨hsound, fun j => ?_⟩
  by_cases hj : j = i
  · subst hj
    rw [threads_startRequests hi]
    exact RequestThread.guarantees_call Runtime.Grows.refl evm req htag _
  · obtain ⟨now, raw, hreq⟩ := hothers j hj
    simp only [startRequests, hreq]
    exact RequestThread.guarantees_sendRawTransaction c evm now raw _

/-- What the machine answers to calls does not matter to the states of a run. -/
theorem shared_run_withCall {db : HashMapEthDB} (hsound : Runtime.Sound c ⟨db, false⟩)
    {requests : ι → NodeRequest} {i : ι} (hi : requests i = .state (.call req tag))
    (hothers : ∀ j, j ≠ i → ∃ now raw, requests j = .sendRawTransaction now raw)
    (htag : tag.getD .latest = .latest ∨ tag.getD .latest = .pending) (answer : CallAnswer)
    (s : List ι) :
    ((startRequests c (evm.withCall answer) requests ⟨db, false⟩).run s).shared =
      ((startRequests c evm requests ⟨db, false⟩).run s).shared := by
  have hsilent : ∀ evm, ((startRequests c evm requests ⟨db, false⟩).threads i).Guarantees
      (Runtime.Sound c) Runtime.Grows Eq ⟨db, false⟩ := by
    intro evm
    rw [threads_startRequests hi]
    exact RequestThread.guarantees_call (fun _ => rfl) evm req htag _
  have halike : Pool.Alike (Runtime.Sound c) Runtime.Grows i
      (startRequests c (evm.withCall answer) requests ⟨db, false⟩)
      (startRequests c evm requests ⟨db, false⟩) := {
    shared := rfl
    others := by
      intro j hj
      obtain ⟨now, raw, hreq⟩ := hothers j hj
      simp only [startRequests, hreq]
      rfl
    guarantees := guarantees_startRequests hsound hi hothers htag _
    silent := hsilent _
    silent' := hsilent _ }
  exact halike.shared_run Runtime.Grows.refl Runtime.Grows.trans s

/-- There is a newest account map at every moment. -/
theorem exists_latest_run {p : Pool ι Runtime (Outcome (Except RpcError NodeResponse))}
    (hp : p.Guarantees (Runtime.Sound c) Runtime.Grows) (s : List ι) :
    ∃ latest, (p.run s).shared.ethDb.accounts.getLast? = some latest := by
  exact ⟨_, List.getLast?_eq_some_getLast (run_sound hp s).positioned.accounts_ne_nil⟩

/-- There is a newest block at every moment. -/
theorem exists_last_run {p : Pool ι Runtime (Outcome (Except RpcError NodeResponse))}
    (hp : p.Guarantees (Runtime.Sound c) Runtime.Grows) (s : List ι) :
    ∃ last, (p.run s).shared.ethDb.blocks.getLast? = some last := by
  exact ⟨_, List.getLast?_eq_some_getLast (run_sound hp s).positioned.nonempty⟩

/-- Moments of a run whose newest blocks have the same number have the same accounts. -/
theorem accounts_eq_of_number_eq
    {p : Pool ι Runtime (Outcome (Except RpcError NodeResponse))}
    (hp : p.Guarantees (Runtime.Sound c) Runtime.Grows) {s s' schedule : List ι}
    (hs : s <+: schedule) (hs' : s' <+: schedule)
    (hlen : (p.run schedule).shared.ethDb.blocks.length ≤ isizeMax) {last last' : Block}
    (hb : (p.run s).shared.ethDb.blocks.getLast? = some last)
    (hb' : (p.run s').shared.ethDb.blocks.getLast? = some last')
    (hnumber : last.header.number.toNat = last'.header.number.toNat) :
    (p.run s).shared.ethDb.accounts = (p.run s').shared.ethDb.accounts := by
  have hposition := (run_sound hp s).positioned
  have hposition' := (run_sound hp s').positioned
  have hle := (run_grows hp hs).blocks.length_le
  have hle' := (run_grows hp hs').blocks.length_le
  have hpos := List.length_pos_iff.mpr hposition.nonempty
  have hpos' := List.length_pos_iff.mpr hposition'.nonempty
  have hblocks : (p.run s).shared.ethDb.blocks.length =
      (p.run s').shared.ethDb.blocks.length := by
    rw [hposition.number_last hb, hposition'.number_last hb', BitVec.toNat_ofNat,
      BitVec.toNat_ofNat] at hnumber
    simp only [isizeMax] at hlen
    omega
  have haccounts : (p.run s).shared.ethDb.accounts.length =
      (p.run s').shared.ethDb.accounts.length := by
    rw [← hposition.aligned, ← hposition'.aligned, hblocks]
  rcases List.prefix_or_prefix_of_prefix hs hs' with h | h
  · exact (run_grows hp h).accounts.eq_of_length haccounts
  · exact ((run_grows hp h).accounts.eq_of_length haccounts.symm).symm

/-- A call that ran on old accounts in the environment of a newer block is answered on a
snapshot, whatever the program, only if the newest accounts were the same as the old ones. -/
theorem latest_eq_of_answeredOnSnapshot {db : HashMapEthDB}
    (hsound : Runtime.Sound c ⟨db, false⟩) {requests : ι → NodeRequest} {i : ι}
    (hi : requests i = .state (.call req tag))
    (hothers : ∀ j, j ≠ i → ∃ now raw, requests j = .sendRawTransaction now raw)
    (htag : tag.getD .latest = .latest ∨ tag.getD .latest = .pending) (hto : req.to = some «to»)
    {s₁ s₂ s₃ start : List ι} (hs₁ : i ∉ s₁) (hs₂ : i ∉ s₂)
    (hlen : ((startRequests c evm requests ⟨db, false⟩).run
      (s₁ ++ i :: (s₂ ++ i :: s₃))).shared.ethDb.blocks.length ≤ isizeMax)
    (h : ∀ answer, AnsweredOnSnapshot c (evm.withCall answer) (requests i) i
      (startRequests c (evm.withCall answer) requests ⟨db, false⟩) start
      (s₁ ++ i :: (s₂ ++ i :: s₃))) :
    ((startRequests c evm requests ⟨db, false⟩).run
        (s₁ ++ i :: s₂)).shared.ethDb.accounts.getLast? =
      ((startRequests c evm requests ⟨db, false⟩).run s₁).shared.ethDb.accounts.getLast? := by
  have hp := guarantees_startRequests hsound hi hothers htag evm
  have hfirst : s₁ <+: s₁ ++ i :: (s₂ ++ i :: s₃) := List.prefix_append _ _
  have hsecond := prefix_second_turn i s₁ s₂ s₃
  have hlen₁ := (run_grows hp hfirst).blocks.length_le.trans hlen
  obtain ⟨latest, ha⟩ := exists_latest_run hp s₁
  obtain ⟨last, hb⟩ := exists_last_run hp (s₁ ++ i :: s₂)
  -- the program that tells what the call was shown from everything else
  obtain ⟨answer, hanswer⟩ :=
    exists_tellsApart (requestBackend (req.from.getD .zero) latest last).view
  have hshared : ∀ s, ((startRequests c (evm.withCall answer) requests ⟨db, false⟩).run s).shared =
      ((startRequests c evm requests ⟨db, false⟩).run s).shared :=
    shared_run_withCall hsound hi hothers htag answer
  have hq := guarantees_startRequests hsound hi hothers htag (evm.withCall answer)
  obtain ⟨moment, _, hmoment, hend⟩ := h answer
  obtain ⟨latestₘ, haₘ⟩ := exists_latest_run hp moment
  obtain ⟨lastₘ, hbₘ⟩ := exists_last_run hp moment
  have hpositioned := (run_sound hp moment).positioned
  have hlenₘ := (run_grows hp hmoment).blocks.length_le.trans hlen
  have hran : ((startRequests c (evm.withCall answer) requests ⟨db, false⟩).run
      (s₁ ++ i :: (s₂ ++ i :: s₃))).threads i =
      .done (some (callResponse (evm.withCall answer) req «to» latest last)) :=
    threads_run_call hq (threads_startRequests hi c _ _) hs₁ hs₂ htag hto
      (by rw [hshared]; exact hlen₁) (by rw [hshared]; exact ha) (by rw [hshared]; exact hb)
  rw [hran, hi, hshared, serve_call hpositioned hlenₘ htag hto haₘ hbₘ] at hend
  have hsame := Option.some.inj (Thread.done.inj hend)
  have hview := (hanswer evm req «to» latestₘ lastₘ).mp
    (hsame.symm.trans ((hanswer evm req «to» latest last).mpr rfl))
  have haccounts := accounts_eq_of_number_eq hp hmoment hsecond hlen hbₘ hb
    (number_eq_of_view_eq hview)
  rw [← haccounts, haₘ, ha, accounts_eq_of_view_eq hview]

/-- In every interleaving of a call of the newest block with submissions, the answer is that of
one snapshot between the start and the end of the call, whatever the program, exactly when the
call has no address or its second guard finds the newest accounts that its first guard
found. -/
theorem call_atomic_iff {db : HashMapEthDB} (h : Reachable c evm db)
    {requests : ι → NodeRequest} {i : ι} (hi : requests i = .state (.call req tag))
    (hothers : ∀ j, j ≠ i → ∃ now raw, requests j = .sendRawTransaction now raw)
    (htag : tag.getD .latest = .latest ∨ tag.getD .latest = .pending)
    {start s₁ s₂ s₃ : List ι} (hstart : start <+: s₁) (hs₁ : i ∉ s₁) (hs₂ : i ∉ s₂) :
    let p := fun evm => startRequests c evm requests ⟨db, false⟩
    let schedule := s₁ ++ i :: (s₂ ++ i :: s₃)
    ((p evm).run schedule).shared.ethDb.blocks.length ≤ isizeMax →
    (∀ answer, Reachable c (evm.withCall answer) db) ∧
    ((∀ answer, AnsweredOnSnapshot c (evm.withCall answer) (requests i) i
        (p (evm.withCall answer)) start schedule) ↔
      req.to = none ∨
        ((p evm).run (s₁ ++ i :: s₂)).shared.ethDb.accounts.getLast? =
          ((p evm).run s₁).shared.ethDb.accounts.getLast?) := by
  intro p schedule hlen
  have hsound : Runtime.Sound c ⟨db, false⟩ := ⟨rfl, h.wellFormed.positioned⟩
  have hfirst : s₁ <+: schedule := List.prefix_append _ _
  have hsecond : s₁ ++ i :: s₂ <+: schedule := prefix_second_turn i s₁ s₂ s₃
  refine ⟨fun answer => h.withCall answer, ?_⟩
  cases hto : req.to with
  | none =>
    refine iff_of_true (fun answer => ⟨start, List.prefix_refl _, ?_, ?_⟩) (Or.inl rfl)
    · exact hstart.trans hfirst
    · have hdone : (p (evm.withCall answer)).threads i =
          .done (some (rpcErr "missing contract address")) :=
        (threads_startRequests hi c _ _).trans (RequestThread.call_eq_done hto)
      rw [Pool.threads_run_of_done hdone, hi, ← NodeRequest.handler_thread]
      simp only [NodeRequest.thread, RequestThread.call_eq_done hto]
      rfl
  | some to' =>
    simp only [reduceCtorEq, false_or]
    constructor
    · exact latest_eq_of_answeredOnSnapshot hsound hi hothers htag hto hs₁ hs₂ hlen
    · intro hlatest answer
      refine ⟨s₁ ++ i :: s₂, hstart.trans (List.prefix_append _ _), hsecond, ?_⟩
      have hq := guarantees_startRequests hsound hi hothers htag (evm.withCall answer)
      have hthread : (p (evm.withCall answer)).threads i =
          RequestThread.call (evm.withCall answer) req tag := threads_startRequests hi c _ _
      have hshared : ∀ s, ((p (evm.withCall answer)).run s).shared = ((p evm).run s).shared :=
        shared_run_withCall hsound hi hothers htag answer
      obtain ⟨latest, ha⟩ := exists_latest_run hq s₁
      obtain ⟨last, hb⟩ := exists_last_run hq (s₁ ++ i :: s₂)
      have hpositioned := (run_sound hq (s₁ ++ i :: s₂)).positioned
      rw [← hshared] at hlen
      rw [← hshared, ← hshared, ha] at hlatest
      rw [hi, serve_call hpositioned
        ((run_grows hq hsecond).blocks.length_le.trans hlen) htag hto hlatest hb]
      exact threads_run_call hq hthread hs₁ hs₂ htag hto
        ((run_grows hq hfirst).blocks.length_le.trans hlen) ha hb

/-- A call on the genesis block that a creation overtakes. -/
theorem call_atomic_iff_overtaken :
    let raw := [0xc9, 0x80, 0x80, 0x80, 0x80, 0x80, 0x80, 0x1b, 0x01, 0x01]
    let req : CallRequest := { «to» := some .zero }
    let requests : Bool → NodeRequest
      | true => .sendRawTransaction 5 raw
      | false => .state (.call req none)
    let p := fun evm => startRequests .sample evm requests ⟨HashMapEthDB.new .sample 0, false⟩
    (∀ answer, Reachable .sample (Evm.sample.withCall answer) (HashMapEthDB.new .sample 0)) ∧
    ((∀ answer, AnsweredOnSnapshot .sample (Evm.sample.withCall answer) (requests false) false
        (p (Evm.sample.withCall answer)) [] [false, true, false]) ↔
      req.to = none ∨
        ((p .sample).run [false, true]).shared.ethDb.accounts.getLast? =
          ((p .sample).run []).shared.ethDb.accounts.getLast?) := by
  intro raw req requests p
  have hothers : ∀ j, j ≠ false → ∃ now raw, requests j = .sendRawTransaction now raw := by
    intro j hj
    cases j with
    | false => contradiction
    | true => exact ⟨5, raw, rfl⟩
  have hlen : ((p .sample).run [false, true, false]).shared.ethDb.blocks.length ≤ isizeMax := by
    decide +kernel
  have hsubmission : false ∉ [true] := by simp
  exact call_atomic_iff (reachable_new .sample .sample 0) (i := false) rfl hothers
    (Or.inl rfl) List.nil_prefix List.not_mem_nil hsubmission hlen

/-- An answer that tells the nonce of an account and the number of the block. -/
def answerNonceAndNumber (address : H160) : CallAnswer := fun backend _ _ _ _ _ _ =>
  (.exit (.succeed .returned) [UInt8.ofNat (backend.basic address).nonce.toNat,
    UInt8.ofNat backend.blockNumber.toNat], 0)

/-- A program that returns a nonce and the block number returns the nonce of block 0 with the
number 1 when a submission comes between the guards; no snapshot gives this answer. -/
theorem call_torn :
    let sender : H160 := ⟨List.replicate 19 0 ++ [1], rfl⟩
    let evm := Evm.sample.withCall (answerNonceAndNumber sender)
    let requests : Bool → NodeRequest
      | true => .sendRawTransaction 5
          [0xc9, 0x80, 0x80, 0x80, 0x80, 0x80, 0x80, 0x1b, 0x01, 0x01]
      | false => .state (.call { «to» := some .zero } none)
    let p := startRequests .sample evm requests ⟨HashMapEthDB.new .sample 0, false⟩
    Reachable .sample evm (HashMapEthDB.new .sample 0) ∧
    (p.run [false, true, false]).threads false =
      .done (some (.ok (.state (.output [0, 1])))) ∧
    ¬ AnsweredOnSnapshot .sample evm (requests false) false p [] [false, true, false] := by
  intro sender evm requests p
  have hdone : (p.run [false, true, false]).threads false =
      .done (some (.ok (.state (.output [0, 1])))) := rfl
  refine ⟨reachable_new _ _ 0, hdone, ?_⟩
  rintro ⟨moment, _, hmoment, h⟩
  have hanswer := Thread.done.inj (hdone.symm.trans h)
  simp only [← List.mem_inits, List.inits, List.map_cons, List.map_nil, List.mem_cons,
    List.not_mem_nil, or_false] at hmoment
  rcases hmoment with rfl | rfl | rfl | rfl
  · cases hanswer
  · cases hanswer
  · cases hanswer
  · cases hanswer

end

end Tethereum
