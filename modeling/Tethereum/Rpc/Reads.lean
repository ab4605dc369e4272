import Tethereum.Rpc.Threads

/-!
# Reads next to submissions

A reader resolves its tag under one guard and looks the accounts up under the
next. Whatever is submitted in between, the position it found is still one, and
the accounts there are what they were: the read takes effect at its first guard.
-/

namespace Tethereum

open HashMapEthDB EthClient Interleaving

/-- All requests at their beginning. -/
def startRequests {ι : Type} (c : Crypto) (evm : Evm) (requests : ι → NodeRequest)
    (runtime : Runtime) : Pool ι Runtime (Outcome (Except RpcError NodeResponse)) where
  shared := runtime
  threads i := (requests i).thread c evm

/-- The request reads, behind a tag, a quantity off the accounts. -/
inductive NodeRequest.Reads : NodeRequest → Option BlockNumber → (Accounts → U256) → Prop
  /-- A balance. -/
  | balance (address : H160) (tag : Option BlockNumber) :
    Reads (.state (.balance address tag)) tag
      fun accounts => (accounts[address]?.map (·.balance)).getD 0
  /-- A count. -/
  | transactionCount (k : H160) (tag : Option BlockNumber) :
    Reads (.state (.transactionCount k tag)) tag
      fun accounts => (accounts[k]?.map (·.nonce)).getD 0

/-- The request is a submission or a read. -/
def NodeRequest.SubmitsOrReads (req : NodeRequest) : Prop :=
  (∃ now raw, req = .sendRawTransaction now raw) ∨ ∃ tag look, req.Reads tag look

section

variable {ι : Type} [DecidableEq ι] {c : Crypto} {evm : Evm} {req : NodeRequest}
  {tag : Option BlockNumber} {look : Accounts → U256}

/-- A tag that names a block is resolved to the position of one. -/
theorem parseNumber_of_namesBlock {db : HashMapEthDB} (h : Positioned c db)
    (hname : NamesBlock c db tag) :
    ∃ n, parseNumber tag db = some (.ok n) ∧ n.toNat < db.blocks.length := by
  rcases h.parseNumber_cases tag with ⟨n, hn, hlt, _⟩ | ⟨_, _, _, hnot, _⟩ | ⟨_, hnot, _⟩
  · exact ⟨n, hn, hlt⟩
  · exact absurd hname hnot
  · exact absurd hname hnot

/-- A reader resolves its tag and then looks a quantity up in the accounts it found. -/
theorem NodeRequest.Reads.thread_eq (h : req.Reads tag look) (c : Crypto) (evm : Evm) :
    ∃ (msg : String) (α : Type) (second : U64 → HashMapEthDB → Outcome (Except RpcError α))
      (answer : α → U256),
      req.thread c evm =
        RequestThread.lock (getDb fun db => (parseNumber tag db).map (rpcTry · msg)) (fun n =>
        RequestThread.lock (getDb (second n)) fun a =>
        RequestThread.respond (.state (.quantity (answer a)))) ∧
      ∀ n db accounts, db.accounts[n.toNat]? = some accounts →
        ∃ a, second n db = some (.ok a) ∧ answer a = look accounts := by
  cases h with
  | balance address tag =>
    refine ⟨_, _, fun n db => some (rpcTry (okOr db.accounts[n.toNat]?) "invalid block number"),
      fun states => (states[address]?.map (·.balance)).getD 0, rfl, ?_⟩
    intro n db accounts ha
    exact ⟨accounts, by simp only [ha]; rfl, rfl⟩
  | transactionCount k tag =>
    refine ⟨_, _, fun n db =>
      some (.ok (((db.accounts[n.toNat]?.bind (·[k]?)).map (·.nonce)).getD 0)), id, rfl, ?_⟩
    intro n db accounts ha
    exact ⟨_, rfl, by rw [ha]; rfl⟩

/-- Submissions and reads keep everything in its place. -/
theorem NodeRequest.SubmitsOrReads.guarantees (h : req.SubmitsOrReads) (c : Crypto) (evm : Evm)
    (runtime : Runtime) :
    (req.thread c evm).Guarantees (Runtime.Sound c) Runtime.Grows Runtime.Grows runtime := by
  rcases h with ⟨now, raw, rfl⟩ | ⟨tag, look, hreads⟩
  · exact RequestThread.guarantees_sendRawTransaction c evm now raw runtime
  · cases hreads with
    | balance address tag =>
      exact RequestThread.guarantees_balance Runtime.Grows.refl address tag runtime
    | transactionCount k tag =>
      exact RequestThread.guarantees_transactionCount Runtime.Grows.refl k tag runtime

/-- In every interleaving of reads with submissions, an answer to a read is what the store held
behind the tag when it was resolved, which for a number or a hash takes that the block was stored
then. The position that the tag was resolved to is still one when the accounts are looked up. -/
theorem reads_linearizable {db : HashMapEthDB} (h : Reachable c evm db)
    {requests : ι → NodeRequest} (hrequests : ∀ j, (requests j).SubmitsOrReads) {i : ι}
    (hi : (requests i).Reads tag look) {schedule : List ι}
    {response : Outcome (Except RpcError NodeResponse)} :
    let p := startRequests c evm requests ⟨db, false⟩
    (p.run schedule).threads i = .done response →
    ∃ s₁ rest, schedule = s₁ ++ i :: rest ∧ i ∉ s₁ ∧
      (Stored (p.run s₁).shared.ethDb tag →
        (∀ hash requireCanonical, tag = some (.hash hash requireCanonical) →
          ∃ block ∈ (p.run s₁).shared.ethDb.blocks, block.header.hash c = hash) →
        ∃ position n accounts s₂ s₃, rest = s₂ ++ i :: s₃ ∧ i ∉ s₂ ∧
          NamesAt c (p.run s₁).shared.ethDb tag position ∧ n = BitVec.ofNat 64 position ∧
          parseNumber tag (p.run s₁).shared.ethDb = some (.ok n) ∧
          (p.run s₁).shared.ethDb.accounts[n.toNat]? = some accounts ∧
          n.toNat < (p.run (s₁ ++ i :: s₂)).shared.ethDb.accounts.length ∧
          response = some (.ok (.state (.quantity (look accounts))))) := by
  intro p hdone
  have hsound : Runtime.Sound c ⟨db, false⟩ := ⟨rfl, h.wellFormed.positioned⟩
  have hp : p.Guarantees (Runtime.Sound c) Runtime.Grows :=
    ⟨hsound, fun j => (hrequests j).guarantees c evm _⟩
  obtain ⟨msg, α, second, answer, hthread, hsecond⟩ := hi.thread_eq c evm
  have hfirst : p.threads i = RequestThread.lock _ _ := hthread
  obtain ⟨s₁, rest, rfl, hs₁⟩ := Pool.exists_first_turn hfirst hdone
  refine ⟨s₁, rest, rfl, hs₁, fun hstored hhash => ?_⟩
  -- under the first guard the tag is resolved to a position
  have hsound₁ := run_sound hp s₁
  have hpositioned := hsound₁.positioned
  have hname : NamesBlock c _ tag := hpositioned.namesBlock_iff.mpr ⟨hstored, hhash⟩
  obtain ⟨n, hn, hlt⟩ := parseNumber_of_namesBlock hpositioned hname
  obtain ⟨position, hat, hcut⟩ := hpositioned.namesAt_of_parseNumber hname hn
  have haccounts := lt_of_lt_of_eq hlt hpositioned.aligned
  have hresolved : (getDb (fun db => (parseNumber tag db).map (rpcTry · msg))
      (p.run s₁).shared).1 = some (.ok n) := by
    rw [hsound₁.eq, getDb_parseNumber hn]
  obtain ⟨s₂, s₃, rfl, hs₂⟩ : ∃ s₂ s₃, rest = s₂ ++ i :: s₃ ∧ i ∉ s₂ := by
    have hnext := RequestThread.threads_run_lock hfirst hs₁ hresolved
    rw [List.append_cons, Pool.run_append] at hdone
    exact Pool.exists_first_turn hnext hdone
  -- under the second guard the position is still there, with the same accounts
  have hgrows := run_grows hp (List.prefix_append s₁ (i :: s₂))
  have hsame := hgrows.getElem?_accounts haccounts
  obtain ⟨accounts, ha⟩ : ∃ accounts,
      (p.run s₁).shared.ethDb.accounts[n.toNat]? = some accounts :=
    ⟨_, List.getElem?_eq_getElem haccounts⟩
  obtain ⟨a, hlooked, hanswer⟩ := hsecond n _ accounts (hsame.trans ha)
  have hread : (getDb (second n) (p.run (s₁ ++ i :: s₂)).shared).1 = some (.ok a) := by
    rw [(run_sound hp (s₁ ++ i :: s₂)).eq, getDb_open]
    exact hlooked
  rw [RequestThread.threads_run_lock_lock hfirst hs₁ hresolved hs₂ hread rfl] at hdone
  refine ⟨position, n, accounts, s₂, s₃, rfl, hs₂, hat, hcut, hn, ha, ?_, ?_⟩
  · exact (List.getElem?_eq_some_iff.mp (hsame.trans ha)).1
  · rw [← hanswer]
    exact (Thread.done.inj hdone).symm

/-- A count that is overtaken by a creation of the same sender. -/
theorem reads_linearizable_overtaken :
    let sender : H160 := ⟨List.replicate 19 0 ++ [1], rfl⟩
    let raw := [0xc9, 0x80, 0x80, 0x80, 0x80, 0x80, 0x80, 0x1b, 0x01, 0x01]
    let requests : Bool → NodeRequest
      | true => .sendRawTransaction 5 raw
      | false => .state (.transactionCount sender none)
    let response : Outcome (Except RpcError NodeResponse) := some (.ok (.state (.quantity 0)))
    let p := startRequests .sample .sample requests ⟨HashMapEthDB.new .sample 0, false⟩
    ∃ s₁ rest, [false, true, false] = s₁ ++ false :: rest ∧ false ∉ s₁ ∧
      ∃ position n accounts s₂ s₃, rest = s₂ ++ false :: s₃ ∧ false ∉ s₂ ∧
        NamesAt .sample (p.run s₁).shared.ethDb none position ∧ n = BitVec.ofNat 64 position ∧
        parseNumber none (p.run s₁).shared.ethDb = some (.ok n) ∧
        (p.run s₁).shared.ethDb.accounts[n.toNat]? = some accounts ∧
        n.toNat < (p.run (s₁ ++ false :: s₂)).shared.ethDb.accounts.length ∧
        response =
          some (.ok (.state (.quantity ((accounts[sender]?.map (·.nonce)).getD 0)))) := by
  intro sender raw requests response p
  have hrequests : ∀ submits, (requests submits).SubmitsOrReads := by
    intro submits
    cases submits with
    | true => exact Or.inl ⟨5, raw, rfl⟩
    | false => exact Or.inr ⟨_, _, .transactionCount sender none⟩
  have hdone : (p.run [false, true, false]).threads false = .done response := rfl
  obtain ⟨s₁, rest, hschedule, hs₁, hread⟩ := reads_linearizable (reachable_new .sample .sample 0)
    hrequests (i := false) (.transactionCount sender none) hdone
  exact ⟨s₁, rest, hschedule, hs₁, hread (stored_of_forall_ne (by simp)) (by simp)⟩

end

end Tethereum
