import Tethereum.Rpc.Sections

/-!
# When a node stops answering

Whatever requests are served next to each other, the lock is poisoned exactly when
one of them panicked, and only a call or an estimate for a number that no block has
panics. From then on nothing changes any more, and no request that takes a guard
gets anything but an error.
-/

namespace Tethereum

open HashMapEthDB EthClient Interleaving

/-- All requests to the services at their beginning. -/
def startServices {ι : Type} (c : Crypto) (evm : Evm) (requests : ι → ServiceRequest)
    (runtime : Runtime) : Pool ι Runtime (Outcome (Except RpcError ServiceResponse)) where
  shared := runtime
  threads i := (requests i).thread c evm

/-- The request takes a guard, unless it ends before with an error. -/
def ServiceRequest.TakesGuard : ServiceRequest → Prop
  | .node _ | .blockNumber | .blockByNumber _ _ | .transactionReceipt _ => True
  | _ => False

section

variable {ι : Type} {c : Crypto} {evm : Evm} {db : HashMapEthDB} {requests : ι → ServiceRequest}

/-- Sections move the runtime on. -/
theorem sections_moves (c : Crypto) (evm : Evm) (requests : ι → ServiceRequest) :
    Pool.Moves (Runtime.Kept c) Runtime.Later fun i => (requests i).Section c evm where
  refl := Runtime.Later.refl
  trans := Runtime.Later.trans
  section_move _ h := h.later

/-- A reachable store is in order. -/
theorem HashMapEthDB.Reachable.kept (h : Reachable c evm db) (poisoned : Bool) :
    Runtime.Kept c ⟨db, poisoned⟩ :=
  ⟨h.wellFormed.positioned, h.recorded⟩

/-- All requests announce what their sections do. -/
theorem startServices_announces {runtime : Runtime} (h : runtime.Kept c) (evm : Evm)
    (requests : ι → ServiceRequest) :
    (startServices c evm requests runtime).Announces (Runtime.Kept c) Runtime.Later
      fun i => (requests i).Section c evm :=
  ⟨h, fun i => (requests i).announces c evm runtime⟩

/-! ## The first guard -/

/-- The error of a poisoned lock. -/
def lockError : RpcError := ⟨"failed to require runtime.eth_db read lock"⟩

/-- No guard comes from a poisoned lock. -/
def RequestThread.WaitsForGuard {β : Type} (t : RequestThread β) : Prop :=
  ∃ update next, t = .locked update next ∧
    ∀ runtime : Runtime, runtime.poisoned = true → next runtime = .done (some (.error lockError))

/-- A read waits for a guard. -/
theorem RequestThread.waitsForGuard_getDb {α β : Type}
    (critical : HashMapEthDB → Outcome (Except RpcError α)) (next : α → RequestThread β) :
    (lock (getDb critical) next).WaitsForGuard := by
  refine ⟨_, _, rfl, fun runtime hp => ?_⟩
  simp only [getDb, hp, if_true]
  rfl

/-- A write waits for a guard. -/
theorem RequestThread.waitsForGuard_getMutDb {α β : Type}
    (critical : HashMapEthDB → Outcome (α × HashMapEthDB)) (next : α → RequestThread β) :
    (lock (getMutDb critical) next).WaitsForGuard := by
  refine ⟨_, _, rfl, fun runtime hp => ?_⟩
  simp only [getMutDb, hp, if_true]
  rfl

/-- A response of another kind does not change what a thread waits for. -/
theorem RequestThread.WaitsForGuard.map {t : RequestThread NodeResponse} (h : t.WaitsForGuard) :
    RequestThread.WaitsForGuard (Thread.map nodeResponse t) := by
  obtain ⟨update, next, rfl, hnext⟩ := h
  refine ⟨_, _, rfl, fun runtime hp => ?_⟩
  rw [hnext runtime hp]
  rfl

/-- A submission ends with an error before it takes a guard, or it waits for one. -/
theorem RequestThread.sendRawTransaction_cases (c : Crypto) (evm : Evm) (now : U64)
    (raw : List UInt8) :
    (∃ e, sendRawTransaction c evm now raw = .done (some (.error e))) ∨
      (sendRawTransaction c evm now raw).WaitsForGuard := by
  unfold sendRawTransaction
  cases UnverifiedTransaction.decode c { bytes := raw } with
  | error e => exact Or.inl ⟨_, rfl⟩
  | ok t =>
    simp only [rpcTry, Except.mapError, attempt]
    cases SignedTransaction.new c t with
    | error e => exact Or.inl ⟨_, rfl⟩
    | ok tx => exact Or.inr (waitsForGuard_getMutDb _ _)

/-- So does a submission or a read. -/
theorem NodeRequest.thread_cases (c : Crypto) (evm : Evm) (req : NodeRequest) :
    (∃ e, req.thread c evm = .done (some (.error e))) ∨ (req.thread c evm).WaitsForGuard := by
  cases req with
  | sendRawTransaction now raw => exact RequestThread.sendRawTransaction_cases c evm now raw
  | state req =>
    cases req with
    | call req tag =>
      cases ht : req.to with
      | none => exact Or.inl ⟨_, by rw [thread, RequestThread.call, ht]; rfl⟩
      | some to' =>
        refine Or.inr ?_
        rw [thread, RequestThread.call, ht]
        exact RequestThread.waitsForGuard_getDb _ _
    | estimateGas req tag => exact Or.inr (RequestThread.waitsForGuard_getDb _ _)
    | balance address tag => exact Or.inr (RequestThread.waitsForGuard_getDb _ _)
    | transactionCount k tag => exact Or.inr (RequestThread.waitsForGuard_getDb _ _)

/-- A request has ended uneventfully at its beginning, with an error if it takes a guard, or it
waits for a guard. -/
theorem ServiceRequest.thread_cases (c : Crypto) (evm : Evm) (req : ServiceRequest) :
    (∃ response, req.thread c evm = .done (some response) ∧ Uneventful (some (some response)) ∧
      (req.TakesGuard → ∃ e, response = .error e)) ∨ (req.thread c evm).WaitsForGuard := by
  cases req with
  | node req =>
    rcases req.thread_cases c evm with ⟨e, he⟩ | hwaits
    · exact Or.inl ⟨.error e, by rw [thread, he]; rfl, uneventful_error e, fun _ => ⟨e, rfl⟩⟩
    · exact Or.inr hwaits.map
  | blockNumber => exact Or.inr (RequestThread.waitsForGuard_getDb _ _)
  | blockByNumber tag full => exact Or.inr (RequestThread.waitsForGuard_getDb _ _)
  | transactionReceipt h => exact Or.inr (RequestThread.waitsForGuard_getDb _ _)
  | _ => exact Or.inl ⟨_, rfl, uneventful_ok fun _ => by rintro ⟨⟩, False.elim⟩

/-- No request has panicked or been included at its beginning. -/
theorem ServiceRequest.uneventful_thread (c : Crypto) (evm : Evm) (req : ServiceRequest) :
    Uneventful (req.thread c evm).answer := by
  rcases req.thread_cases c evm with ⟨response, hdone, huneventful, _⟩ | ⟨update, next, hopen, _⟩
  · rw [hdone]
    exact huneventful
  · rw [hopen]
    exact uneventful_none

/-! ## Panics -/

/-- A section poisons the lock exactly when it panics, which only a request for a number that no
block has does. -/
theorem ServiceRequest.Section.poisoned_iff {req : ServiceRequest} {runtime runtime' : Runtime}
    {answer : ServiceAnswer} (h : req.Section c evm runtime runtime' answer) :
    (runtime'.poisoned = true ↔ runtime.poisoned = true ∨ answer = some none) ∧
      (answer = some none →
        ∃ n, req.AsksAbout n ∧ runtime'.ethDb.blocks.length ≤ n.toNat) := by
  cases h with
  | stays huneventful =>
    exact ⟨(or_iff_left huneventful.1).symm, fun hpanic => absurd hpanic huneventful.1⟩
  | includes hopen haccepted hexec =>
    rw [hopen]
    exact ⟨by simp, by rintro ⟨⟩⟩
  | changes hopen hi =>
    rw [hopen]
    exact ⟨by simp, by rintro ⟨⟩⟩
  | panics hopen hasks hn => exact ⟨by simp, fun _ => ⟨_, hasks, hn⟩⟩

/-- In every interleaving of any requests, the lock is poisoned exactly when a request has
panicked, and a request that has panicked is a call or an estimate for a number that no block
has. -/
theorem poisoned_iff_panicked [DecidableEq ι] (h : Reachable c evm db)
    (requests : ι → ServiceRequest) (schedule : List ι) :
    let p := (startServices c evm requests ⟨db, false⟩).run schedule
    (p.shared.poisoned = true ↔ ∃ i, p.threads i = .done none) ∧
      ∀ i, p.threads i = .done none →
        ∃ n, (requests i).AsksAbout n ∧ p.shared.ethDb.blocks.length ≤ n.toNat := by
  have hinvariant := (startServices_announces (h.kept false) evm requests).induction
    (sections_moves c evm requests)
    (P := fun _ q => (q.shared.poisoned = true → ∃ i, q.threads i = .done none) ∧
      ∀ i, q.threads i = .done none → q.shared.poisoned = true ∧
        ∃ n, (requests i).AsksAbout n ∧ q.shared.ethDb.blocks.length ≤ n.toNat)
    ?_ (fun _ _ hq _ => hq) ?_ schedule
  · obtain ⟨hpoisoned, hpanicked⟩ := hinvariant
    refine ⟨⟨hpoisoned, ?_⟩, fun i hi => (hpanicked i hi).2⟩
    rintro ⟨i, hi⟩
    exact (hpanicked i hi).1
  · refine ⟨by rintro ⟨⟩, fun i hi => ?_⟩
    have hstart := ((requests i).uneventful_thread c evm).1
    exact absurd (congrArg Thread.answer hi) hstart
  · rintro s i _ ⟨hpoisoned, hpanicked⟩ hopen hsection
    generalize (startServices c evm requests ⟨db, false⟩).run s = q at *
    obtain ⟨hiff, hbeyond⟩ := hsection.poisoned_iff
    refine ⟨fun hp => ?_, fun j hj => ?_⟩
    · rcases hiff.mp hp with hp | hpanic
      · obtain ⟨j, hj⟩ := hpoisoned hp
        have hne : j ≠ i := by
          rintro rfl
          rw [hj] at hopen
          contradiction
        exact ⟨j, by rw [Pool.threads_step_of_ne hne, hj]⟩
      · exact ⟨i, Thread.answer_eq_some_iff.mp hpanic⟩
    · by_cases hji : j = i
      · subst hji
        have hpanic := congrArg Thread.answer hj
        exact ⟨hiff.mpr (Or.inr hpanic), hbeyond hpanic⟩
      · rw [Pool.threads_step_of_ne hji] at hj
        obtain ⟨hp, hn⟩ := hpanicked j hj
        rw [hsection.later.frozen hp]
        exact ⟨hp, hn⟩

/-- A call for block 1 of a genesis store panics next to a submission. -/
theorem poisoned_iff_panicked_call :
    let requests : Bool → ServiceRequest
      | true => .node (.sendRawTransaction 5
          [0xc9, 0x80, 0x80, 0x80, 0x80, 0x80, 0x80, 0x1b, 0x01, 0x01])
      | false => .node (.state (.call { «to» := some .zero } (some (.num 1))))
    let p := (startServices .sample .sample requests ⟨HashMapEthDB.new .sample 0, false⟩).run
      [false, false, true]
    p.shared.poisoned = true ∧ (p.shared.poisoned = true ↔ ∃ i, p.threads i = .done none) ∧
      ∀ i, p.threads i = .done none →
        ∃ n, (requests i).AsksAbout n ∧ p.shared.ethDb.blocks.length ≤ n.toNat :=
  ⟨rfl, poisoned_iff_panicked (reachable_new .sample .sample 0) _ _⟩

/-- Once the lock is poisoned, nothing changes any more, and every request that comes later and
takes a guard gets an error. -/
theorem frozen_of_poisoned [DecidableEq ι] (h : Reachable c evm db)
    (requests : ι → ServiceRequest) {s₁ : List ι} (s₂ : List ι) :
    let p := startServices c evm requests ⟨db, false⟩
    (p.run s₁).shared.poisoned = true →
      (p.run (s₁ ++ s₂)).shared = (p.run s₁).shared ∧
        ∀ j, j ∉ s₁ → (requests j).TakesGuard → ∀ response,
          (p.run (s₁ ++ s₂)).threads j = .done response → ∃ e, response = some (.error e) := by
  intro p hp
  have hannounces : p.Announces (Runtime.Kept c) Runtime.Later _ :=
    startServices_announces (h.kept false) evm requests
  have hmoves := sections_moves c evm requests
  refine ⟨(hannounces.run_longer hmoves (List.prefix_append s₁ s₂)).frozen hp, ?_⟩
  intro j hj hguard response hdone
  have hfirst : (p.run s₁).threads j = (requests j).thread c evm :=
    Pool.threads_run_of_not_mem hj
  rw [Pool.run_append] at hdone
  rcases (requests j).thread_cases c evm with ⟨result, hended, _, herror⟩ |
    ⟨update, next, hopen, hnext⟩
  · rw [Pool.threads_run_of_done (hfirst.trans hended)] at hdone
    obtain ⟨e, rfl⟩ := herror hguard
    exact ⟨e, (Thread.done.inj hdone).symm⟩
  · obtain ⟨s₃, s₄, rfl, hs₃⟩ := Pool.exists_first_turn (hfirst.trans hopen) hdone
    have hlater := (hannounces.run hmoves s₁).1.run_longer hmoves (List.nil_prefix (l := s₃))
    have hstill : ((p.run s₁).run s₃).shared.poisoned = true := by
      rw [hlater.frozen hp]
      exact hp
    have hend := Pool.threads_run_of_locked (hfirst.trans hopen) hs₃
    rw [hnext _ hstill] at hend
    rw [List.append_cons, Pool.run_append, Pool.threads_run_of_done hend] at hdone
    exact ⟨lockError, (Thread.done.inj hdone).symm⟩

/-- After a call for block 1 of a genesis store, a submission gets an error. -/
theorem frozen_of_poisoned_call :
    let requests : Bool → ServiceRequest
      | true => .node (.sendRawTransaction 5
          [0xc9, 0x80, 0x80, 0x80, 0x80, 0x80, 0x80, 0x1b, 0x01, 0x01])
      | false => .node (.state (.call { «to» := some .zero } (some (.num 1))))
    let p := startServices .sample .sample requests ⟨HashMapEthDB.new .sample 0, false⟩
    (p.run ([false, false] ++ [true])).shared = (p.run [false, false]).shared ∧
      ∀ j, j ∉ [false, false] → (requests j).TakesGuard → ∀ response,
        (p.run ([false, false] ++ [true])).threads j = .done response →
          ∃ e, response = some (.error e) :=
  frozen_of_poisoned (reachable_new .sample .sample 0) _ _ rfl

end

end Tethereum
