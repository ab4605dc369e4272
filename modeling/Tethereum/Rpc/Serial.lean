import Tethereum.Core.Serial
import Tethereum.Rpc.Sessions

/-!
# One request after another

Without simulated calls and estimates every run of requests could have been served
one after another: a submission takes effect under its guard, a read of the accounts
when its tag is resolved, or when the accounts are looked up, if the tag is a number.
-/

namespace Tethereum

open HashMapEthDB EthClient Interleaving

/-- The request runs the machine without putting anything into the chain. -/
def ServiceRequest.simulates : ServiceRequest → Bool
  | .node (.state (.call _ _)) => true
  | .node (.state (.estimateGas _ _)) => true
  | _ => false

/-- Serve requests one after another. -/
def serveInOrder {ι : Type} (c : Crypto) (evm : Evm) (requests : ι → ServiceRequest)
    (order : List ι) (runtime : Runtime) : Runtime :=
  order.foldl (fun runtime i => ((requests i).serve c evm runtime).2) runtime

/-- The state and the responses are those of serving the requests of the order one after
another. -/
structure ServedInOrder {ι : Type} (c : Crypto) (evm : Evm) (requests : ι → ServiceRequest)
    (start : Runtime) (p : ServicePool ι) (schedule order : List ι) : Prop where
  /-- Every request comes once at most. -/
  nodup : order.Nodup
  /-- Only requests come that have had a turn. -/
  started : order ⊆ schedule
  /-- The state is the one after serving them. -/
  runtime : p.shared = serveInOrder c evm requests order start
  /-- A response is the one when the order comes to the request, unless it is always the same. -/
  response : ∀ i response, p.threads i = .done response →
    (∀ runtime, (requests i).serve c evm runtime = (response, runtime)) ∨
      ∃ o₁ o₂, order = o₁ ++ i :: o₂ ∧
        ((requests i).serve c evm (serveInOrder c evm requests o₁ start)).1 = response

/-! ## Sections that take effect -/

section

variable {c : Crypto} {evm : Evm} {α β : Type} {runtime : Runtime}

/-- A section after which the thread ends, and which keeps the store in order, is atomic. -/
theorem RequestThread.atomic_lock {critical : Handler α} {next : α → RequestThread β}
    (h : ∀ runtime' : Runtime, runtime'.Sound c →
      (critical runtime').2.Sound c ∧ runtime'.Grows (critical runtime').2)
    (hnext : ∀ a, ∃ result, next a = .done result) :
    (lock critical next).Atomic (Runtime.Sound c) Runtime.Grows runtime := by
  apply Thread.atomic_of_ends
  intro runtime' hsound
  obtain ⟨hsound', hgrows⟩ := h runtime' hsound
  refine ⟨hsound', hgrows, ?_⟩
  cases hc : (critical runtime').1 with
  | none => exact ⟨_, rfl⟩
  | some result =>
    cases result with
    | error e => exact ⟨_, rfl⟩
    | ok a => exact hnext a

/-- A result without a guard is atomic when what follows it is. -/
theorem RequestThread.atomic_attempt {result : Except RpcError α} {next : α → RequestThread β}
    (h : ∀ a, (next a).Atomic (Runtime.Sound c) Runtime.Grows runtime) :
    (attempt result next).Atomic (Runtime.Sound c) Runtime.Grows runtime := by
  cases result with
  | error e => trivial
  | ok a => exact h a

/-- A response under the read guard ends the thread and changes nothing. -/
theorem RequestThread.lock_getDb_response (critical : HashMapEthDB → Outcome (Except RpcError α))
    (respond' : α → β) :
    (lock (getDb critical) fun a => respond (respond' a)) =
      .locked id fun runtime => .done ((getDb critical runtime).1.map (·.map respond')) := by
  rw [lock]
  congr 1
  · funext runtime
    exact getDb_snd critical runtime
  · funext runtime
    cases (getDb critical runtime).1 with
    | none => rfl
    | some result =>
      cases result with
      | error e => rfl
      | ok a => rfl

/-- A response under the read guard is atomic. -/
theorem RequestThread.atomic_response
    (critical : HashMapEthDB → Outcome (Except RpcError α)) (respond' : α → β) :
    (lock (getDb critical) fun a => respond (respond' a)).Atomic (Runtime.Sound c) Runtime.Grows
      runtime := by
  rw [lock_getDb_response]
  exact Thread.atomic_of_ends fun runtime' hsound =>
    ⟨hsound, Runtime.Grows.refl runtime', _, rfl⟩

/-- A submission is atomic. -/
theorem RequestThread.atomic_sendRawTransaction (now : U64) (raw : List UInt8) :
    (sendRawTransaction c evm now raw).Atomic (Runtime.Sound c) Runtime.Grows runtime := by
  apply atomic_attempt
  intro tx
  apply atomic_attempt
  intro signed
  apply atomic_lock
  · intro runtime' hsound
    have hp := hsound.positioned
    rw [hsound.eq]
    rcases submitTx_total hp.nonempty hp.accounts_ne_nil with ⟨db', hs, hexec⟩ | hs
    · rw [getMutDb_of_some hs]
      exact ⟨⟨rfl, hp.executes hexec⟩, Extends.of_executes hexec⟩
    · rw [getMutDb_of_some hs]
      exact ⟨⟨rfl, hp⟩, Extends.refl _⟩
  · intro result
    cases result with
    | error e => exact ⟨_, rfl⟩
    | ok u => exact ⟨_, rfl⟩

/-- A tag is resolved to the position of a block, or it is a number, or it is the hash of no
block. -/
theorem Runtime.Sound.parseNumber_cases (h : runtime.Sound c) (tag : Option BlockNumber) :
    (∃ n, parseNumber tag runtime.ethDb = some (.ok n) ∧
      n.toNat < runtime.ethDb.accounts.length) ∨
    (∃ n, tag = some (.num n)) ∨ parseNumber tag runtime.ethDb = some (.error "err") := by
  rcases h.positioned.parseNumber_cases tag with ⟨n, hp, hn, _⟩ | ⟨n, _, _, _, hstored⟩ | ⟨hp, _⟩
  · rw [h.positioned.aligned] at hn
    exact Or.inl ⟨n, hp, hn⟩
  · simp only [Stored, not_forall] at hstored
    obtain ⟨m, rfl, _⟩ := hstored
    exact Or.inr (Or.inl ⟨m, rfl⟩)
  · exact Or.inr (Or.inr hp)

/-- The turn of a read that finds the lock open. -/
theorem RequestThread.turn_lock_getDb {critical : HashMapEthDB → Outcome (Except RpcError α)}
    {next : α → RequestThread β} {result : Except RpcError α} (h : runtime.Sound c)
    (hc : critical runtime.ethDb = some result) :
    (lock (getDb critical) next).turn runtime = (attempt result next, runtime) := by
  have hget : getDb critical runtime = (some result, runtime) := by
    rw [← hc, h.eq, getDb_open]
  rw [lock, Thread.turn]
  simp only [hget]
  cases result with
  | error e => rfl
  | ok a => rfl

/-- A read behind a tag is atomic when it looks at nothing but the accounts that the tag is
resolved to. -/
theorem RequestThread.atomic_read {tag : Option BlockNumber} {msg : String}
    {second : U64 → HashMapEthDB → Outcome (Except RpcError α)} {respond' : α → β}
    (hsecond : ∀ n (db db' : HashMapEthDB), db.accounts[n.toNat]? = db'.accounts[n.toNat]? →
      second n db = second n db') :
    (lock (getDb fun db => (parseNumber tag db).map (rpcTry · msg)) fun n =>
      lock (getDb (second n)) fun a => respond (respond' a)).Atomic (Runtime.Sound c)
        Runtime.Grows runtime := by
  intro runtime' _ hsound
  let look := fun n => lock (getDb (second n)) fun a => respond (respond' a)
  let t := lock (getDb fun db => (parseNumber tag db).map (rpcTry · msg)) look
  have hturn : ∀ (runtime : Runtime) result, runtime.Sound c →
      parseNumber tag runtime.ethDb = some result →
        t.turn runtime = (attempt (rpcTry result msg) look, runtime) := by
    intro runtime result hsound hp
    exact turn_lock_getDb hsound (by rw [hp]; rfl)
  have hlook : ∀ n, look n = _ := fun n => lock_getDb_response (second n) respond'
  change t.TakesEffect _ _ runtime' ∨ (t.turn runtime').2 = runtime' ∧
    (t.turn runtime').1.answer = none ∧ (t.turn runtime').1.Atomic _ _ runtime' ∧
      ∀ runtime'', runtime'.Grows runtime'' → runtime''.Sound c →
        (t.turn runtime').1.alone runtime'' = t.alone runtime''
  rcases hsound.parseNumber_cases tag with ⟨n, hp, hn⟩ | ⟨n, rfl⟩ | hp
  · -- the accounts are there, and stay as they are
    refine Or.inl ?_
    rw [Thread.TakesEffect, ← Thread.alone_turn, hturn runtime' _ hsound hp]
    change runtime'.Sound c ∧ runtime'.Grows runtime' ∧ runtime' = ((look n).alone runtime').2 ∧
      (look n).Settled _ _ ((look n).alone runtime').1 runtime'
    rw [hlook]
    refine ⟨hsound, Runtime.Grows.refl _, rfl, fun runtime'' hgrows hsound'' => ⟨rfl, ?_⟩⟩
    have hsame := hsecond n _ _ (hgrows.getElem?_accounts hn)
    rw [hsound.eq, hsound''.eq]
    simp only [getDb_open, hsame]
    rfl
  · -- whatever is there, the number stays the same
    refine Or.inr ?_
    rw [hturn runtime' (.ok n) hsound rfl]
    refine ⟨rfl, rfl, atomic_response _ _, fun runtime'' _ hsound'' => ?_⟩
    rw [← Thread.alone_turn t, hturn runtime'' (.ok n) hsound'' rfl]
  · -- the thread ends with an error
    refine Or.inl ?_
    rw [Thread.TakesEffect, ← Thread.alone_turn, hturn runtime' _ hsound hp]
    exact ⟨hsound, Runtime.Grows.refl _, rfl, rfl⟩

/-- Every request that does not simulate is atomic. -/
theorem ServiceRequest.atomic_thread {req : ServiceRequest} (h : req.simulates = false)
    (c : Crypto) (evm : Evm) (runtime : Runtime) :
    (req.thread c evm).Atomic (Runtime.Sound c) Runtime.Grows runtime := by
  cases req with
  | node req =>
    apply Thread.Atomic.map
    cases req with
    | sendRawTransaction now raw => exact RequestThread.atomic_sendRawTransaction now raw
    | state req =>
      cases req with
      | call creq tag => cases h
      | estimateGas creq tag => cases h
      | balance address tag =>
        apply RequestThread.atomic_read
        intro n db db' hsame
        rw [hsame]
      | transactionCount k tag =>
        apply RequestThread.atomic_read
        intro n db db' hsame
        rw [hsame]
  | blockNumber => exact RequestThread.atomic_response _ _
  | blockByNumber tag full => exact RequestThread.atomic_response _ _
  | transactionReceipt hash => exact RequestThread.atomic_response _ _
  | _ => trivial

end

/-! ## Served in order -/

section

variable {ι : Type} {c : Crypto} {evm : Evm} {db : HashMapEthDB} {requests : ι → ServiceRequest}

/-- To serve requests in an order is to let their threads run alone in it. -/
theorem serial_startServices (c : Crypto) (evm : Evm) (requests : ι → ServiceRequest)
    (runtime : Runtime) (order : List ι) :
    (startServices c evm requests runtime).serial order =
      serveInOrder c evm requests order runtime := by
  have halone : ∀ (runtime : Runtime) i,
      ((startServices c evm requests runtime).threads i).alone = (requests i).serve c evm :=
    fun _ i => (requests i).handler_thread c evm
  simp only [Pool.serial, halone]
  rfl

/-- A serial run of threads is one of requests. -/
theorem ServedInOrder.of_serializes [DecidableEq ι] {start : Runtime} {schedule order : List ι}
    (h : (startServices c evm requests start).Serializes schedule order) :
    ServedInOrder c evm requests start ((startServices c evm requests start).run schedule)
      schedule order := by
  have halone : ∀ i, ((startServices c evm requests start).threads i).alone =
      (requests i).serve c evm := fun i => (requests i).handler_thread c evm
  refine ⟨h.nodup, h.started, h.shared.trans (serial_startServices ..), fun i response hdone => ?_⟩
  rcases h.result i response hdone with hended | ⟨o₁, o₂, horder, hresult⟩
  · refine Or.inl fun runtime => ?_
    rw [← halone, hended]
    rfl
  · refine Or.inr ⟨o₁, o₂, horder, ?_⟩
    rw [← hresult, halone, serial_startServices]

/-- Without calls and estimates, every run of requests is one in which they are served one after
another. The order grows with the run, so that a request that had its response before another
one started comes before it. -/
theorem exists_servedInOrder [DecidableEq ι] (h : Reachable c evm db)
    (hrequests : ∀ i, (requests i).simulates = false) (schedule : List ι) :
    let p := startServices c evm requests ⟨db, false⟩
    ∃ order, ServedInOrder c evm requests ⟨db, false⟩ (p.run schedule) schedule order ∧
      ∀ s, s <+: schedule → ∃ o, o <+: order ∧
        ServedInOrder c evm requests ⟨db, false⟩ (p.run s) s o := by
  intro p
  have hsound : Runtime.Sound c ⟨db, false⟩ := ⟨rfl, h.wellFormed.positioned⟩
  have hatomic : ∀ i, (p.threads i).Atomic (Runtime.Sound c) Runtime.Grows p.shared :=
    fun i => ServiceRequest.atomic_thread (hrequests i) c evm _
  obtain ⟨order, horder, hprefix⟩ := Pool.exists_serializes Runtime.Grows.refl
    Runtime.Grows.trans hsound hatomic schedule
  refine ⟨order, .of_serializes horder, fun s hs => ?_⟩
  obtain ⟨o, ho, hserial⟩ := hprefix s hs
  exact ⟨o, ho, .of_serializes hserial⟩

/-- A count is served before the creation that overtakes it. -/
theorem exists_servedInOrder_overtaken :
    let requests : Bool → ServiceRequest
      | true => .node (.sendRawTransaction 5
          [0xc9, 0x80, 0x80, 0x80, 0x80, 0x80, 0x80, 0x1b, 0x01, 0x01])
      | false => .node (.state (.transactionCount ⟨List.replicate 19 0 ++ [1], rfl⟩ none))
    let start : Runtime := ⟨HashMapEthDB.new .sample 0, false⟩
    let p := startServices .sample .sample requests start
    ∃ order, ServedInOrder .sample .sample requests start (p.run [false, true, false])
        [false, true, false] order ∧
      ∀ s, s <+: [false, true, false] → ∃ o, o <+: order ∧
        ServedInOrder .sample .sample requests start (p.run s) s o :=
  exists_servedInOrder (reachable_new .sample .sample 0) (by decide) _

end

end Tethereum
