import Tethereum.Core.Interleaving
import Tethereum.Db.History
import Tethereum.Rpc.Queries
import Tethereum.Rpc.Submission

/-!
# Requests as threads

A handler gives the lock back between its guards, so a request is a thread whose
sections are what it does under each guard. Served alone it is the handler; next
to other requests its sections may lie far apart.
-/

namespace Tethereum

open HashMapEthDB EthClient Interleaving

/-- The requests that read or extend the store. -/
inductive NodeRequest
  /-- `eth_sendRawTransaction`, at a clock reading. -/
  | sendRawTransaction (now : U64) (raw : List UInt8)
  /-- A request that reads the state behind a tag. -/
  | state (req : StateRequest)

/-- What they respond with. -/
inductive NodeResponse
  /-- Hash of a transaction. -/
  | hash (h : H256)
  /-- What was read. -/
  | state (response : StateResponse)
  deriving DecidableEq

/-- The handler of a request. -/
def NodeRequest.serve (c : Crypto) (evm : Evm) : NodeRequest → Handler NodeResponse
  | .sendRawTransaction now raw => do
    return .hash (← EthClient.sendRawTransaction c evm now raw)
  | .state req => do return .state (← req.serve evm)

/-- A request on its way: it ends with a response or a panic. -/
abbrev RequestThread (α : Type) := Thread Runtime (Outcome (Except RpcError α))

namespace RequestThread

variable {α β : Type}

/-- Respond. -/
def respond (a : α) : RequestThread α := .done (some (.ok a))

/-- Go on with a result that takes no guard, unless it is an error. -/
def attempt (result : Except RpcError α) (next : α → RequestThread β) : RequestThread β :=
  match result with
  | .ok a => next a
  | .error e => .done (some (.error e))

/-- Work under a guard and go on, unless there was an error or a panic. -/
def lock (critical : Handler α) (next : α → RequestThread β) : RequestThread β :=
  .locked (fun runtime => (critical runtime).2) fun runtime =>
    match (critical runtime).1 with
    | some (.ok a) => next a
    | some (.error e) => .done (some (.error e))
    | none => .done none

/-- The handler that a thread is as long as nobody interrupts it. -/
def handler (t : RequestThread α) : Handler α := t.alone

/-- `eth_sendRawTransaction`. -/
def sendRawTransaction (c : Crypto) (evm : Evm) (now : U64) (raw : List UInt8) :
    RequestThread NodeResponse :=
  attempt (rpcTry (UnverifiedTransaction.decode c { bytes := raw })
    "rpc error: parse raw transaction failed from rlp") fun tx =>
  attempt (rpcTry (SignedTransaction.new c tx) "verify transaction failed") fun signed =>
  lock (getMutDb fun db => db.submitTx c evm now signed) fun result =>
  attempt (rpcTry (result.map fun _ => signed.hash)
    "rpc error: invalid transaction received") fun h =>
  respond (.hash h)

/-- `eth_call`. -/
def call (evm : Evm) (req : CallRequest) (num : Option BlockNumber) :
    RequestThread NodeResponse :=
  attempt (rpcTry (okOr req.to) "missing contract address") fun «to» =>
  lock (getDb fun db => (parseNumber num db).map (rpcTry · "parse number failed")) fun n =>
  lock (getMutDb fun db => db.call evm n (req.from.getD .zero) «to» (req.data.getD []))
    fun (reason, ret, _) =>
  attempt (if reason.isSucceed then .ok ret else rpcErr "call failed") fun ret =>
  respond (.state (.output ret))

/-- `eth_estimateGas`. -/
def estimateGas (evm : Evm) (req : CallRequest) (num : Option BlockNumber) :
    RequestThread NodeResponse :=
  lock (getDb fun db => (parseNumber num db).map (rpcTry · "parse number failed")) fun n =>
  lock (getMutDb fun db =>
    db.estimateGas evm n (req.from.getD .zero) (req.value.getD 0) req.to (req.data.getD []))
    fun (_, _, gas) =>
  respond (.state (.quantity (gas.setWidth 256)))

/-- `eth_getBalance`. -/
def balance (address : H160) (num : Option BlockNumber) : RequestThread NodeResponse :=
  lock (getDb fun db => (parseNumber num db).map (rpcTry · "parse block number failed"))
    fun number =>
  lock (getDb fun db => some (rpcTry (okOr db.accounts[number.toNat]?) "invalid block number"))
    fun states =>
  respond (.state (.quantity ((states[address]?.map (·.balance)).getD 0)))

/-- `eth_getTransactionCount`. -/
def transactionCount (k : H160) (num : Option BlockNumber) : RequestThread NodeResponse :=
  lock (getDb fun db => (parseNumber num db).map (rpcTry · "parse number failed")) fun n =>
  lock (getDb fun db =>
    some (.ok (((db.accounts[n.toNat]?.bind (·[k]?)).map (·.nonce)).getD 0))) fun nonce =>
  respond (.state (.quantity nonce))

end RequestThread

/-- The thread of a request. -/
def NodeRequest.thread (c : Crypto) (evm : Evm) : NodeRequest → RequestThread NodeResponse
  | .sendRawTransaction now raw => RequestThread.sendRawTransaction c evm now raw
  | .state (.call req tag) => RequestThread.call evm req tag
  | .state (.estimateGas req tag) => RequestThread.estimateGas evm req tag
  | .state (.balance address tag) => RequestThread.balance address tag
  | .state (.transactionCount address tag) => RequestThread.transactionCount address tag

/-! ## Requests without company -/

section

variable {α β γ : Type}

/-- Handlers compose as they should. -/
theorem Handler.bind_assoc (x : Handler α) (f : α → Handler β) (g : β → Handler γ) :
    (x >>= f) >>= g = x >>= fun a => f a >>= g := by
  funext runtime
  rcases hx : x runtime with ⟨response, runtime'⟩
  cases response with
  | none => rw [bind_of_panic hx, bind_of_panic (bind_of_panic hx)]
  | some result =>
    cases result with
    | error e => rw [bind_of_error hx, bind_of_error (bind_of_error hx)]
    | ok a =>
      rw [bind_of_ok hx]
      change Handler.bind (x >>= f) g runtime = Handler.bind (f a) g runtime'
      rw [Handler.bind, Handler.bind, bind_of_ok hx]

/-- A response is passed on. -/
theorem Handler.pure_bind (a : α) (f : α → Handler β) : (pure a >>= f) = f a := rfl

/-- A result that is decided by a test. -/
theorem Handler.ofExcept_ite (p : Prop) [Decidable p] (a : α) (result : Except RpcError α) :
    ofExcept (if p then .ok a else result) = if p then pure a else ofExcept result := by
  split
  · rfl
  · rfl

/-- A section alone is the work under the guard. -/
theorem RequestThread.handler_lock (critical : Handler α) (next : α → RequestThread β) :
    (lock critical next).handler = critical >>= fun a => (next a).handler := by
  funext runtime
  rcases hx : critical runtime with ⟨response, runtime'⟩
  cases response with
  | none =>
    rw [Handler.bind_of_panic hx]
    simp only [handler, lock, Thread.alone, hx]
  | some result =>
    cases result with
    | error e =>
      rw [Handler.bind_of_error hx]
      simp only [handler, lock, Thread.alone, hx]
    | ok a =>
      rw [Handler.bind_of_ok hx]
      simp only [handler, lock, Thread.alone, hx]

/-- A result without a guard is tried at once. -/
theorem RequestThread.handler_attempt (result : Except RpcError α)
    (next : α → RequestThread β) :
    (attempt result next).handler = Handler.ofExcept result >>= fun a => (next a).handler := by
  cases result with
  | error e => rfl
  | ok a => rfl

/-- A response is the end. -/
theorem RequestThread.handler_respond (a : α) : (respond a).handler = pure a := rfl

/-- A thread that nobody interrupts does what the handler does. -/
theorem NodeRequest.handler_thread (c : Crypto) (evm : Evm) (req : NodeRequest) :
    (req.thread c evm).handler = req.serve c evm := by
  cases req with
  | sendRawTransaction now raw =>
    simp only [thread, serve, RequestThread.sendRawTransaction, EthClient.sendRawTransaction,
      RequestThread.handler_lock, RequestThread.handler_attempt, RequestThread.handler_respond,
      Handler.bind_assoc]
  | state req =>
    cases req with
    | call req tag =>
      simp only [thread, serve, StateRequest.serve, RequestThread.call, EthClient.call,
        RequestThread.handler_lock, RequestThread.handler_attempt, RequestThread.handler_respond,
        Handler.bind_assoc, Handler.pure_bind, Handler.ofExcept_ite]
    | estimateGas req tag =>
      simp only [thread, serve, StateRequest.serve, RequestThread.estimateGas,
        EthClient.estimateGas, RequestThread.handler_lock, RequestThread.handler_respond,
        Handler.bind_assoc, Handler.pure_bind]
    | balance address tag =>
      simp only [thread, serve, StateRequest.serve, RequestThread.balance, EthClient.balance,
        RequestThread.handler_lock, RequestThread.handler_respond, Handler.bind_assoc,
        Handler.pure_bind]
    | transactionCount address tag =>
      simp only [thread, serve, StateRequest.serve, RequestThread.transactionCount,
        EthClient.transactionCount, RequestThread.handler_lock, RequestThread.handler_respond,
        Handler.bind_assoc, Handler.pure_bind]

end

/-! ## Turns -/

section

variable {ι α β γ : Type} [DecidableEq ι] {p : Pool ι Runtime (Outcome (Except RpcError γ))}
  {i : ι} {s s₁ s₂ s₃ : List ι} {critical : Handler α} {a : α}

/-- The first turn of a request is its first section. -/
theorem RequestThread.threads_run_lock {next : α → RequestThread γ}
    (h : p.threads i = lock critical next) (hs : i ∉ s)
    (ha : (critical (p.run s).shared).1 = some (.ok a)) :
    (p.run (s ++ [i])).threads i = next a := by
  rw [Pool.threads_run_of_locked h hs]
  simp only [ha]

/-- A request of two sections has finished after its second turn. -/
theorem RequestThread.threads_run_lock_lock {critical' : α → Handler β}
    {next : α → β → RequestThread γ} {b : β} {result : Outcome (Except RpcError γ)}
    (h : p.threads i = lock critical fun a => lock (critical' a) (next a)) (hs₁ : i ∉ s₁)
    (ha : (critical (p.run s₁).shared).1 = some (.ok a)) (hs₂ : i ∉ s₂)
    (hb : (critical' a (p.run (s₁ ++ i :: s₂)).shared).1 = some (.ok b))
    (hdone : next a b = .done result) :
    (p.run (s₁ ++ i :: (s₂ ++ i :: s₃))).threads i = .done result := by
  have hfirst := threads_run_lock h hs₁ ha
  rw [List.append_cons, Pool.run_append] at hb
  have hend := threads_run_lock hfirst hs₂ hb
  rw [List.append_cons s₁, Pool.run_append, List.append_cons s₂, Pool.run_append]
  exact Pool.threads_run_of_done (hend.trans hdone)

end

/-! ## What requests guarantee -/

/-- The lock is open, and in the store everything is in its place. -/
structure Runtime.Sound (c : Crypto) (runtime : Runtime) : Prop where
  /-- Nothing panicked under the write guard. -/
  unpoisoned : runtime.poisoned = false
  /-- Everything is in its place. -/
  positioned : Positioned c runtime.ethDb

/-- Blocks and account maps were only put on top. -/
def Runtime.Grows (runtime runtime' : Runtime) : Prop :=
  Extends runtime.ethDb runtime'.ethDb

section

variable {c : Crypto} {evm : Evm} {α β : Type} {runtime : Runtime}
  {G : Runtime → Runtime → Prop}

theorem Runtime.Grows.refl (runtime : Runtime) : runtime.Grows runtime :=
  Extends.refl runtime.ethDb

theorem Runtime.Grows.trans {r₁ r₂ r₃ : Runtime} (h : r₁.Grows r₂) (h' : r₂.Grows r₃) :
    r₁.Grows r₃ :=
  Extends.trans h h'

/-- Earlier states of a run grow into later ones. -/
theorem run_grows {ι ρ : Type} [DecidableEq ι] {p : Pool ι Runtime ρ}
    (hp : p.Guarantees (Runtime.Sound c) Runtime.Grows) {s s' : List ι} (h : s <+: s') :
    (p.run s).shared.Grows (p.run s').shared := by
  obtain ⟨later, rfl⟩ := h
  obtain ⟨hsound, _⟩ := hp.run Runtime.Grows.refl Runtime.Grows.trans s
  rw [Pool.run_append]
  exact (hsound.run Runtime.Grows.refl Runtime.Grows.trans later).2

/-- Every state of a run is sound. -/
theorem run_sound {ι ρ : Type} [DecidableEq ι] {p : Pool ι Runtime ρ}
    (hp : p.Guarantees (Runtime.Sound c) Runtime.Grows) (s : List ι) :
    (p.run s).shared.Sound c :=
  (hp.run Runtime.Grows.refl Runtime.Grows.trans s).1.shared

/-- An open lock is open. -/
theorem Runtime.Sound.eq (h : runtime.Sound c) : runtime = ⟨runtime.ethDb, false⟩ := by
  rw [← h.unpoisoned]

/-- Work under the read guard changes nothing. -/
theorem getDb_snd (critical : HashMapEthDB → Outcome (Except RpcError α)) (runtime : Runtime) :
    (getDb critical runtime).2 = runtime := by
  unfold getDb
  split
  · rfl
  · rfl

/-- A section guarantees what its work does, and then what follows it. -/
theorem RequestThread.guarantees_lock {critical : Handler α} {next : α → RequestThread β}
    (h : ∀ runtime' : Runtime, runtime.Grows runtime' → runtime'.Sound c →
      (critical runtime').2.Sound c ∧ G runtime' (critical runtime').2 ∧
      ∀ a, (critical runtime').1 = some (.ok a) →
        (next a).Guarantees (Runtime.Sound c) Runtime.Grows G (critical runtime').2) :
    (lock critical next).Guarantees (Runtime.Sound c) Runtime.Grows G runtime := by
  intro runtime' hgrows hsound
  obtain ⟨hsound', hG, hnext⟩ := h runtime' hgrows hsound
  refine ⟨hsound', hG, ?_⟩
  rcases hc : critical runtime' with ⟨response, runtime''⟩
  rw [hc] at hnext
  simp only [hc]
  cases response with
  | none => trivial
  | some result =>
    cases result with
    | error e => trivial
    | ok a => exact hnext a rfl

/-- A read guarantees what follows it. -/
theorem RequestThread.guarantees_lock_getDb (hG : ∀ runtime, G runtime runtime)
    {critical : HashMapEthDB → Outcome (Except RpcError α)} {next : α → RequestThread β}
    (h : ∀ (runtime' : Runtime) a, runtime'.Sound c →
      critical runtime'.ethDb = some (.ok a) →
      (next a).Guarantees (Runtime.Sound c) Runtime.Grows G runtime') :
    (lock (getDb critical) next).Guarantees (Runtime.Sound c) Runtime.Grows G runtime := by
  apply guarantees_lock
  intro runtime' _ hsound
  rw [getDb_snd]
  refine ⟨hsound, hG runtime', fun a ha => h runtime' a hsound ?_⟩
  rw [hsound.eq, getDb_open] at ha
  exact ha

/-- A result without a guard guarantees what follows it. -/
theorem RequestThread.guarantees_attempt {result : Except RpcError α}
    {next : α → RequestThread β}
    (h : ∀ a, result = .ok a →
      (next a).Guarantees (Runtime.Sound c) Runtime.Grows G runtime) :
    (attempt result next).Guarantees (Runtime.Sound c) Runtime.Grows G runtime := by
  cases result with
  | error e => trivial
  | ok a => exact h a rfl

/-- A submission puts a block on top, or nothing. -/
theorem RequestThread.guarantees_sendRawTransaction (c : Crypto) (evm : Evm) (now : U64)
    (raw : List UInt8) (runtime : Runtime) :
    (sendRawTransaction c evm now raw).Guarantees (Runtime.Sound c) Runtime.Grows Runtime.Grows
      runtime := by
  apply guarantees_attempt
  intro tx _
  apply guarantees_attempt
  intro signed _
  apply guarantees_lock
  intro runtime' _ hsound
  have hp := hsound.positioned
  rw [hsound.eq]
  rcases submitTx_total hp.nonempty hp.accounts_ne_nil with ⟨db', hs, hexec⟩ | hs
  · rw [getMutDb_of_some hs]
    exact ⟨⟨rfl, hp.executes hexec⟩, Extends.of_executes hexec,
      fun _ _ => guarantees_attempt fun _ _ => trivial⟩
  · rw [getMutDb_of_some hs]
    exact ⟨⟨rfl, hp⟩, Extends.refl _, fun _ _ => guarantees_attempt fun _ _ => trivial⟩

/-- A balance changes nothing. -/
theorem RequestThread.guarantees_balance (hG : ∀ runtime, G runtime runtime) (address : H160)
    (num : Option BlockNumber) (runtime : Runtime) :
    (balance address num).Guarantees (Runtime.Sound c) Runtime.Grows G runtime := by
  apply guarantees_lock_getDb hG
  intro runtime' n _ _
  apply guarantees_lock_getDb hG
  intro runtime'' states _ _
  trivial

/-- A count changes nothing. -/
theorem RequestThread.guarantees_transactionCount (hG : ∀ runtime, G runtime runtime)
    (k : H160) (num : Option BlockNumber) (runtime : Runtime) :
    (transactionCount k num).Guarantees (Runtime.Sound c) Runtime.Grows G runtime := by
  apply guarantees_lock_getDb hG
  intro runtime' n _ _
  apply guarantees_lock_getDb hG
  intro runtime'' nonce _ _
  trivial

/-- A call on the newest block changes nothing. -/
theorem RequestThread.guarantees_call (hG : ∀ runtime, G runtime runtime) (evm : Evm)
    (req : CallRequest) {num : Option BlockNumber}
    (hnum : num.getD .latest = .latest ∨ num.getD .latest = .pending) (runtime : Runtime) :
    (call evm req num).Guarantees (Runtime.Sound c) Runtime.Grows G runtime := by
  apply guarantees_attempt
  intro to' _
  apply guarantees_lock_getDb hG
  intro runtime₁ n hsound₁ hn
  apply guarantees_lock
  intro runtime₂ hgrows hsound₂
  -- the position that was found then is still one now
  have hlt : n.toNat < runtime₁.ethDb.accounts.length := by
    rw [parseNumber_newest hsound₁.positioned hnum] at hn
    cases hn
    exact lt_of_lt_of_eq hsound₁.positioned.toNat_best_lt hsound₁.positioned.aligned
  have ha := hgrows.getElem?_accounts hlt
  rw [List.getElem?_eq_getElem hlt] at ha
  have hlast := List.getLast?_eq_some_getLast hsound₂.positioned.nonempty
  rw [hsound₂.eq, getMutDb_of_some (call_eq ha hlast _ _ _), ← hsound₂.eq]
  exact ⟨hsound₂, hG runtime₂, fun _ _ => guarantees_attempt fun _ _ => trivial⟩

end

end Tethereum
