import Tethereum.Rpc.Services

/-!
# What sections do

Next to any other requests, a section leaves the store as it is, or includes a
transaction, or changes the accounts behind one block, or panics for a number
beyond the best one. Blocks are only put on top, and nothing changes once the lock
is poisoned.
-/

namespace Tethereum

open HashMapEthDB EthClient Interleaving

/-- The store is in order, whether or not the lock is poisoned. -/
structure Runtime.Kept (c : Crypto) (runtime : Runtime) : Prop where
  /-- Everything is in its place. -/
  positioned : Positioned c runtime.ethDb
  /-- Records and blocks belong together. -/
  recorded : Recorded c runtime.ethDb

/-- Blocks were only put on top, and nothing has changed since the lock was poisoned. -/
structure Runtime.Later (runtime runtime' : Runtime) : Prop where
  /-- The old blocks are still there. -/
  blocks : runtime.ethDb.blocks <+: runtime'.ethDb.blocks
  /-- A poisoned lock keeps the store as it is. -/
  frozen : runtime.poisoned = true → runtime' = runtime

/-- The request asks the machine about a block by its number. -/
inductive ServiceRequest.AsksAbout : ServiceRequest → U64 → Prop
  /-- A call of a contract. -/
  | call (req : CallRequest) (n : U64) (ht : req.to ≠ none) :
    AsksAbout (.node (.state (.call req (some (.num n))))) n
  /-- An estimate. -/
  | estimateGas (req : CallRequest) (n : U64) :
    AsksAbout (.node (.state (.estimateGas req (some (.num n))))) n

/-- What a service request ends with, if it ends. -/
abbrev ServiceAnswer := Option (Outcome (Except RpcError ServiceResponse))

/-- The request goes on, or it ends without a panic and is no submission that was included. -/
def Uneventful (answer : ServiceAnswer) : Prop :=
  answer ≠ some none ∧ ∀ h, answer ≠ some (some (.ok (.node (.hash h))))

/-- What a section of a request makes of the runtime, and what the request ends with. -/
inductive ServiceRequest.Section (c : Crypto) (evm : Evm) (runtime : Runtime) :
    ServiceRequest → Runtime → ServiceAnswer → Prop
  /-- Nothing changes. -/
  | stays {req : ServiceRequest} {answer : ServiceAnswer} (h : Uneventful answer) :
    Section c evm runtime req runtime answer
  /-- A submission includes its transaction and responds with the hash. -/
  | includes {now : U64} {raw : List UInt8} {tx : SignedTransaction} {db' : HashMapEthDB}
      (hopen : runtime.poisoned = false) (haccepted : Accepted c raw tx)
      (hexec : Executes c evm now tx runtime.ethDb db') :
    Section c evm runtime (.node (.sendRawTransaction now raw)) ⟨db', false⟩
      (some (some (.ok (.node (.hash tx.hash)))))
  /-- An estimate changes the accounts behind one block. -/
  | changes {req : CallRequest} {tag : Option BlockNumber} {i : Nat} {accounts : Accounts}
      {gas : U256} (hopen : runtime.poisoned = false) (hi : i < runtime.ethDb.accounts.length) :
    Section c evm runtime (.node (.state (.estimateGas req tag)))
      ⟨{ runtime.ethDb with accounts := runtime.ethDb.accounts.set i accounts }, false⟩
      (some (some (.ok (.node (.state (.quantity gas))))))
  /-- A call or an estimate panics for a number that no block has. -/
  | panics {req : ServiceRequest} {n : U64} (hopen : runtime.poisoned = false)
      (hasks : req.AsksAbout n) (hn : runtime.ethDb.blocks.length ≤ n.toNat) :
    Section c evm runtime req ⟨runtime.ethDb, true⟩ (some none)

section

variable {c : Crypto} {evm : Evm} {runtime runtime' runtime'' : Runtime} {req : ServiceRequest}
  {answer : ServiceAnswer}

theorem Runtime.Later.refl (runtime : Runtime) : runtime.Later runtime where
  blocks := List.prefix_refl _
  frozen _ := rfl

theorem Runtime.Later.trans (h : runtime.Later runtime') (h' : runtime'.Later runtime'') :
    runtime.Later runtime'' where
  blocks := h.blocks.trans h'.blocks
  frozen hp := by
    have hsame := h.frozen hp
    rw [hsame] at h'
    exact h'.frozen hp

/-- A request that goes on is uneventful. -/
theorem uneventful_none : Uneventful none :=
  ⟨by rintro ⟨⟩, fun _ => by rintro ⟨⟩⟩

/-- An error is uneventful. -/
theorem uneventful_error (e : RpcError) : Uneventful (some (some (.error e))) :=
  ⟨by rintro ⟨⟩, fun _ => by rintro ⟨⟩⟩

/-- A section moves the runtime on. -/
theorem ServiceRequest.Section.later (h : req.Section c evm runtime runtime' answer) :
    runtime.Later runtime' := by
  cases h with
  | stays h => exact Runtime.Later.refl _
  | includes hopen haccepted hexec =>
    exact ⟨(Extends.of_executes hexec).blocks, fun hp => absurd (hopen.symm.trans hp) (by decide)⟩
  | changes hopen hi =>
    exact ⟨List.prefix_refl _, fun hp => absurd (hopen.symm.trans hp) (by decide)⟩
  | panics hopen hasks hn =>
    exact ⟨List.prefix_refl _, fun hp => absurd (hopen.symm.trans hp) (by decide)⟩

/-- A section keeps the store in order. -/
theorem ServiceRequest.Section.kept (h : req.Section c evm runtime runtime' answer)
    (hk : runtime.Kept c) : runtime'.Kept c := by
  cases h with
  | stays h => exact hk
  | includes hopen haccepted hexec =>
    exact ⟨hk.positioned.executes hexec, hk.recorded.executes hexec⟩
  | changes hopen hi =>
    exact ⟨hk.positioned.set _ _, ⟨hk.recorded.sound, hk.recorded.complete⟩⟩
  | panics hopen hasks hn => exact ⟨hk.positioned, hk.recorded⟩

end

/-! ## Sections of threads -/

section

variable {c : Crypto} {evm : Evm} {α β : Type} {runtime : Runtime} {req : ServiceRequest}
  {next : α → RequestThread β} {wrap : Outcome (Except RpcError β) →
    Outcome (Except RpcError ServiceResponse)}

/-- The thread announces sections of the request, its result wrapped into a response. -/
def RequestThread.Announces (c : Crypto) (evm : Evm) (req : ServiceRequest)
    (wrap : Outcome (Except RpcError β) → Outcome (Except RpcError ServiceResponse))
    (t : RequestThread β) (runtime : Runtime) : Prop :=
  Thread.Announces (Runtime.Kept c) Runtime.Later
    (fun runtime runtime' answer => req.Section c evm runtime runtime' (answer.map wrap)) t runtime

/-- A result without a guard announces what follows it. -/
theorem RequestThread.announces_attempt {result : Except RpcError α}
    (h : ∀ a, result = .ok a → (next a).Announces c evm req wrap runtime) :
    (attempt result next).Announces c evm req wrap runtime := by
  cases result with
  | error e => trivial
  | ok a => exact h a rfl

/-- A section announces what its work does, and then what follows it. -/
theorem RequestThread.announces_lock {critical : Handler α}
    (h : ∀ runtime' response runtime'', runtime.Later runtime' → runtime'.Kept c →
      critical runtime' = (response, runtime'') →
        match response with
        | some (.ok a) =>
          req.Section c evm runtime' runtime'' ((next a).answer.map wrap) ∧
            (next a).Announces c evm req wrap runtime''
        | some (.error e) => req.Section c evm runtime' runtime'' (some (wrap (some (.error e))))
        | none => req.Section c evm runtime' runtime'' (some (wrap none))) :
    (lock critical next).Announces c evm req wrap runtime := by
  intro runtime' hlater hkept
  rcases hc : critical runtime' with ⟨response, runtime''⟩
  have hsection := h runtime' response runtime'' hlater hkept hc
  simp only [hc]
  cases response with
  | none => exact ⟨hsection.kept hkept, hsection, trivial⟩
  | some result =>
    cases result with
    | error e => exact ⟨hsection.kept hkept, hsection, trivial⟩
    | ok a => exact ⟨hsection.1.kept hkept, hsection.1, hsection.2⟩

/-- A read that does not panic announces what follows it. -/
theorem RequestThread.announces_lock_getDb
    {critical : HashMapEthDB → Outcome (Except RpcError α)}
    (hwrap : ∀ e, wrap (some (.error e)) = some (.error e))
    (h : ∀ runtime' : Runtime, runtime'.Kept c → runtime'.poisoned = false →
      ∃ result, critical runtime'.ethDb = some result ∧ ∀ a, result = .ok a →
        Uneventful ((next a).answer.map wrap) ∧ (next a).Announces c evm req wrap runtime') :
    (lock (getDb critical) next).Announces c evm req wrap runtime := by
  apply announces_lock
  intro runtime' response runtime'' _ hkept hc
  obtain rfl : runtime' = runtime'' := by
    rw [← getDb_snd critical runtime', hc]
  have hresponse := congrArg Prod.fst hc
  simp only [getDb] at hresponse
  split at hresponse
  · cases hresponse
    simp only [rpcErr, hwrap]
    exact .stays (uneventful_error _)
  · rename_i hopen
    obtain ⟨result, hresult, hnext⟩ := h runtime' hkept (Bool.eq_false_iff.mpr hopen)
    simp only [hresult] at hresponse
    cases hresponse
    cases result with
    | error e =>
      simp only [hwrap]
      exact .stays (uneventful_error e)
    | ok a =>
      obtain ⟨huneventful, hrest⟩ := hnext a rfl
      exact ⟨.stays huneventful, hrest⟩

/-- A response that is no transaction hash is uneventful. -/
theorem uneventful_ok {response : ServiceResponse} (h : ∀ hash, response ≠ .node (.hash hash)) :
    Uneventful (some (some (.ok response))) := by
  refine ⟨by rintro ⟨⟩, ?_⟩
  rintro hash ⟨⟩
  exact h hash rfl

/-- The position of a stored block is one later on. -/
theorem Runtime.Later.exists_accounts {runtime' : Runtime} (h : runtime.Later runtime')
    (hkept : runtime'.Kept c) {n : U64} (hn : n.toNat < runtime.ethDb.blocks.length) :
    ∃ accounts, runtime'.ethDb.accounts[n.toNat]? = some accounts := by
  have hlt := lt_of_lt_of_le hn h.blocks.length_le
  rw [hkept.positioned.aligned] at hlt
  exact ⟨_, List.getElem?_eq_getElem hlt⟩

/-- A tag is not resolved, or to the position of a block, or it is a number that no block has. -/
theorem Runtime.Kept.parseNumber_cases (h : runtime.Kept c) (tag : Option BlockNumber) :
    ∃ result, parseNumber tag runtime.ethDb = some result ∧ ∀ n, result = .ok n →
      n.toNat < runtime.ethDb.blocks.length ∨ tag = some (.num n) := by
  rcases h.positioned.parseNumber_cases tag with ⟨n, hp, hn, _⟩ | ⟨n, hp, hn, _, hstored⟩ | ⟨hp, _⟩
  · refine ⟨_, hp, ?_⟩
    rintro _ ⟨⟩
    exact Or.inl hn
  · refine ⟨_, hp, ?_⟩
    rintro _ ⟨⟩
    simp only [Stored, not_forall] at hstored
    obtain ⟨m, rfl, _⟩ := hstored
    cases hp
    exact Or.inr rfl
  · refine ⟨_, hp, ?_⟩
    rintro _ ⟨⟩

/-- Another message does not make a result of an error. -/
theorem rpcTry_eq_ok_iff {ε : Type} {result : Except ε α} {msg : String} {a : α} :
    rpcTry result msg = .ok a ↔ result = .ok a := by
  cases result with
  | error e => exact iff_of_false (by rintro ⟨⟩) (by rintro ⟨⟩)
  | ok b => simp only [rpcTry, Except.mapError, Except.ok.injEq]

/-! ## Sections of requests -/

/-- The response of a submission or a read as one of a service. -/
abbrev nodeResponse (response : Outcome (Except RpcError NodeResponse)) :
    Outcome (Except RpcError ServiceResponse) :=
  response.map (·.map .node)

/-- A tag is resolved under the read guard, and what follows may rely on its position. -/
theorem RequestThread.announces_parseNumber {tag : Option BlockNumber} {msg : String}
    {next : U64 → RequestThread NodeResponse} (hopen : ∀ n, (next n).answer = none)
    (h : ∀ (runtime' : Runtime) n, runtime'.Kept c →
      n.toNat < runtime'.ethDb.blocks.length ∨ tag = some (.num n) →
        (next n).Announces c evm req nodeResponse runtime') :
    (lock (getDb fun db => (parseNumber tag db).map (rpcTry · msg)) next).Announces c evm req
      nodeResponse runtime := by
  apply announces_lock_getDb fun _ => rfl
  intro runtime' hkept _
  obtain ⟨result, hresult, hcases⟩ := hkept.parseNumber_cases tag
  refine ⟨_, by rw [hresult]; rfl, ?_⟩
  intro n hn
  cases result with
  | error e => cases hn
  | ok m =>
    cases hn
    rw [hopen]
    exact ⟨uneventful_none, h runtime' n hkept (hcases n rfl)⟩

/-- A submission includes its transaction, or nothing. -/
theorem RequestThread.announces_sendRawTransaction (now : U64) (raw : List UInt8)
    (runtime : Runtime) :
    (sendRawTransaction c evm now raw).Announces c evm (.node (.sendRawTransaction now raw))
      nodeResponse runtime := by
  apply announces_attempt
  intro tx hdecode
  apply announces_attempt
  intro signed hnew
  have hd := rpcTry_eq_ok_iff.mp hdecode
  have hn := rpcTry_eq_ok_iff.mp hnew
  have htx := SignedTransaction.transaction_of_new hn
  have haccepted : Accepted c raw signed := ⟨by rw [hd, htx], by rw [htx, hn]⟩
  apply announces_lock
  intro runtime' response runtime'' _ hkept hc
  obtain ⟨db, poisoned⟩ := runtime'
  cases poisoned with
  | true =>
    cases hc
    exact .stays (uneventful_error _)
  | false =>
    have hp := hkept.positioned
    rcases submitTx_total hp.nonempty hp.accounts_ne_nil with ⟨db', hs, hexec⟩ | hs
    · rw [getMutDb_of_some hs] at hc
      cases hc
      exact ⟨.includes rfl haccepted hexec, trivial⟩
    · rw [getMutDb_of_some hs] at hc
      cases hc
      exact ⟨.stays (uneventful_error _), trivial⟩

/-- A call changes nothing, or it panics for a number that no block has. -/
theorem RequestThread.announces_call (creq : CallRequest) (tag : Option BlockNumber)
    (runtime : Runtime) :
    (call evm creq tag).Announces c evm (.node (.state (.call creq tag))) nodeResponse runtime := by
  apply announces_attempt
  intro to' hto
  have ht : creq.to ≠ none := by
    intro hnone
    rw [hnone] at hto
    cases hto
  apply announces_parseNumber fun _ => rfl
  intro runtime₁ n hkept₁ hn
  apply announces_lock
  intro runtime₂ response runtime' hlater hkept₂ hc
  obtain ⟨db, poisoned⟩ := runtime₂
  cases poisoned with
  | true =>
    cases hc
    exact .stays (uneventful_error _)
  | false =>
    have hp := hkept₂.positioned
    have hlast := List.getLast?_eq_some_getLast hp.nonempty
    cases ha : db.accounts[n.toNat]? with
    | some accounts =>
      rw [getMutDb_of_some (HashMapEthDB.call_eq ha hlast _ _ _)] at hc
      cases hc
      split
      · rename_i a he
        cases he
        generalize ((requestBackend (creq.from.getD .zero) accounts _).call evm
          (creq.from.getD .zero) to' (creq.data.getD [])).1 = result
        obtain ⟨reason, ret, gas⟩ := result
        cases hr : reason.isSucceed with
        | true =>
          simp only [hr, if_true]
          exact ⟨.stays (uneventful_ok fun hash => by rintro ⟨⟩), trivial⟩
        | false =>
          simp only [hr, Bool.false_eq_true, if_false]
          exact ⟨.stays (uneventful_error _), trivial⟩
      · rename_i he
        cases he
      · rename_i he
        cases he
    | none =>
      have hnone : db.call evm n (creq.from.getD .zero) to' (creq.data.getD []) = none := by
        rw [HashMapEthDB.call, ha]
        rfl
      rw [getMutDb_of_none hnone] at hc
      cases hc
      have hbeyond : db.blocks.length ≤ n.toNat := by
        rw [hp.aligned]
        exact List.getElem?_eq_none_iff.mp ha
      rcases hn with hlt | rfl
      · obtain ⟨accounts, hsome⟩ := hlater.exists_accounts hkept₂ hlt
        rw [ha] at hsome
        cases hsome
      · exact .panics rfl (.call creq n ht) hbeyond

/-- An estimate changes the accounts behind one block, or it panics for a number that no block
has. -/
theorem RequestThread.announces_estimateGas (creq : CallRequest) (tag : Option BlockNumber)
    (runtime : Runtime) :
    (estimateGas evm creq tag).Announces c evm (.node (.state (.estimateGas creq tag)))
      nodeResponse runtime := by
  apply announces_parseNumber fun _ => rfl
  intro runtime₁ n hkept₁ hn
  apply announces_lock
  intro runtime₂ response runtime' hlater hkept₂ hc
  obtain ⟨db, poisoned⟩ := runtime₂
  cases poisoned with
  | true =>
    cases hc
    exact .stays (uneventful_error _)
  | false =>
    have hp := hkept₂.positioned
    have hlast := List.getLast?_eq_some_getLast hp.nonempty
    cases ha : db.accounts[n.toNat]? with
    | some accounts =>
      rw [getMutDb_of_some (estimateGas_eq ha hlast _ _ _ _)] at hc
      cases hc
      exact ⟨.changes rfl (List.getElem?_eq_some_iff.mp ha).1, trivial⟩
    | none =>
      have hnone : db.estimateGas evm n (creq.from.getD .zero) (creq.value.getD 0) creq.to
          (creq.data.getD []) = none := by
        rw [HashMapEthDB.estimateGas, ha]
        rfl
      rw [getMutDb_of_none hnone] at hc
      cases hc
      have hbeyond : db.blocks.length ≤ n.toNat := by
        rw [hp.aligned]
        exact List.getElem?_eq_none_iff.mp ha
      rcases hn with hlt | rfl
      · obtain ⟨accounts, hsome⟩ := hlater.exists_accounts hkept₂ hlt
        rw [ha] at hsome
        cases hsome
      · exact .panics rfl (.estimateGas creq n) hbeyond

/-- A balance changes nothing. -/
theorem RequestThread.announces_balance (address : H160) (tag : Option BlockNumber)
    (runtime : Runtime) :
    (balance address tag).Announces c evm req nodeResponse runtime := by
  apply announces_parseNumber fun _ => rfl
  intro runtime₁ n _ _
  apply announces_lock_getDb fun _ => rfl
  intro runtime₂ _ _
  refine ⟨_, rfl, fun states _ => ⟨uneventful_ok fun hash => by rintro ⟨⟩, trivial⟩⟩

/-- A count changes nothing. -/
theorem RequestThread.announces_transactionCount (k : H160) (tag : Option BlockNumber)
    (runtime : Runtime) :
    (transactionCount k tag).Announces c evm req nodeResponse runtime := by
  apply announces_parseNumber fun _ => rfl
  intro runtime₁ n _ _
  apply announces_lock_getDb fun _ => rfl
  intro runtime₂ _ _
  refine ⟨_, rfl, fun nonce _ => ⟨uneventful_ok fun hash => by rintro ⟨⟩, trivial⟩⟩

/-- There is a newest block, the last one. -/
theorem Runtime.Kept.exists_best (h : runtime.Kept c) :
    ∃ best, runtime.ethDb.bestBlock = some best ∧ runtime.ethDb.blocks.getLast? = some best := by
  have hne := h.positioned.nonempty
  refine ⟨_, ?_, List.getLast?_eq_some_getLast hne⟩
  rw [bestBlock, List.isEmpty_eq_false_iff.mpr hne, if_neg Bool.false_ne_true,
    ← List.getLast?_eq_getElem?, List.getLast?_eq_some_getLast hne]

/-- The receipt lookup never panics. -/
theorem Runtime.Kept.exists_receipt (h : runtime.Kept c) (hash : H256) :
    ∃ found, runtime.ethDb.receipt c hash = some found := by
  cases hi : runtime.ethDb.infos[hash]? with
  | none => exact ⟨none, by rw [receipt, hi]⟩
  | some info =>
    obtain ⟨i, block, tx, hb, _, _, ht, hbh, _⟩ := h.recorded.sound hash info hi
    obtain ⟨n, hn⟩ := Option.ne_none_iff_exists'.mp
      (h.positioned.named block (List.mem_of_getElem? hb))
    rw [← hbh] at hn
    exact ⟨_, receipt_eq hi ht hn⟩

/-- A response under the read guard announces no more than that. -/
theorem RequestThread.announces_response {respond' : α → ServiceResponse}
    {critical : HashMapEthDB → Outcome (Except RpcError α)}
    (hresponse : ∀ a hash, respond' a ≠ .node (.hash hash))
    (h : ∀ runtime' : Runtime, runtime'.Kept c → ∃ result, critical runtime'.ethDb = some result) :
    Thread.Announces (Runtime.Kept c) Runtime.Later (req.Section c evm)
      (lock (getDb critical) fun a => respond (respond' a)) runtime := by
  have hannounces : (lock (getDb critical) fun a => respond (respond' a)).Announces c evm req id
      runtime := by
    apply announces_lock_getDb fun _ => rfl
    intro runtime' hkept _
    obtain ⟨result, hresult⟩ := h runtime' hkept
    exact ⟨result, hresult, fun a _ => ⟨uneventful_ok (hresponse a), trivial⟩⟩
  simpa only [RequestThread.Announces, Option.map_id_fun, id_eq] using hannounces

/-- Every request announces what its sections do. -/
theorem ServiceRequest.announces (c : Crypto) (evm : Evm) (req : ServiceRequest)
    (runtime : Runtime) :
    Thread.Announces (Runtime.Kept c) Runtime.Later (req.Section c evm) (req.thread c evm)
      runtime := by
  cases req with
  | node req =>
    apply Thread.announces_map.mpr
    cases req with
    | sendRawTransaction now raw => exact RequestThread.announces_sendRawTransaction now raw runtime
    | state req =>
      cases req with
      | call creq tag => exact RequestThread.announces_call creq tag runtime
      | estimateGas creq tag => exact RequestThread.announces_estimateGas creq tag runtime
      | balance address tag => exact RequestThread.announces_balance address tag runtime
      | transactionCount k tag => exact RequestThread.announces_transactionCount k tag runtime
  | blockNumber =>
    apply RequestThread.announces_response
    · rintro n hash ⟨⟩
    · intro runtime' hkept
      rw [bestNumber_of_ne_nil hkept.positioned.nonempty]
      exact ⟨_, rfl⟩
  | blockByNumber tag full =>
    apply RequestThread.announces_response
    · rintro block hash ⟨⟩
    · intro runtime' hkept
      obtain ⟨best, hbest, _⟩ := hkept.exists_best
      exact ⟨_, by rw [hbest]; rfl⟩
  | transactionReceipt h =>
    apply RequestThread.announces_response
    · rintro receipt hash ⟨⟩
    · intro runtime' hkept
      obtain ⟨found, hfound⟩ := hkept.exists_receipt h
      exact ⟨_, by rw [hfound]; rfl⟩
  | _ => trivial

end

end Tethereum
