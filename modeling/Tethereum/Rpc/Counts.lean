import Tethereum.Core.Guarded
import Tethereum.Rpc.Nonces
import Tethereum.Rpc.Threads

/-!
# Counting transactions

A transaction count is read off an account nonce, not off the blocks. The two
agree as long as nonces only move with blocks; an estimate raises the nonce of
its caller in the accounts of an old block, and no block comes with it.
-/

namespace Tethereum

open HashMapEthDB EthClient

/-- What a successful run does to addresses that are owned by keys, whoever the caller is. -/
structure CallerLaw (evm : Evm) (owned : Set H160) : Prop extends NonceLaw evm owned where
  /-- A run for a caller that is not owned leaves the owned addresses alone. -/
  strangers : ∀ (self : EthDBBackend) (caller : H160) (value : U256) («to» : Option H160)
    (data : List UInt8), self.accounts.world.Codeless owned → caller ∉ owned →
    (self.run evm caller value «to» data).reason.isSucceed → ∀ a ∈ owned,
    (self.accounts.world.overlay (self.run evm caller value «to» data).applies).nonce a =
      self.accounts.world.nonce a ∧
    (self.accounts.world.overlay (self.run evm caller value «to» data).applies).code a = []

/-- Serve requests one after another. -/
def serveAll (c : Crypto) (evm : Evm) (requests : List NodeRequest) (runtime : Runtime) :
    Runtime :=
  requests.foldl (fun runtime req => (req.serve c evm runtime).2) runtime

/-- The number of transactions that a sender has in the blocks 1 to `n`. -/
def sentUpTo (db : HashMapEthDB) (k : H160) (n : Nat) : Nat :=
  ((db.blocks.tail.take n).flatMap (·.transactions)).countP (·.sender = k)

/-- The node counts the transactions of a sender: up to the best number, a transaction count
responds with the number of transactions that the sender has in the blocks 1 to `n`. -/
def Counts (k : H160) (runtime : Runtime) : Prop :=
  ∀ n : U64, n.toNat < runtime.ethDb.blocks.length →
    ∃ count, (EthClient.transactionCount k (some (.num n)) runtime).1 = some (.ok count) ∧
      count.toNat = sentUpTo runtime.ethDb k n.toNat

/-- The request does not ask for the block of a number that is not stored, and if it estimates
for this caller, the run does not succeed. -/
def NodeRequest.Quiet (evm : Evm) (k : H160) (db : HashMapEthDB) : NodeRequest → Prop
  | .state (.call req tag) => req.to = none ∨ Stored db tag
  | .state (.estimateGas req tag) => Stored db tag ∧
    (req.from.getD .zero = k → ∀ n, parseNumber tag db = some (.ok n) →
      ∀ accounts ∈ db.accounts[n.toNat]?, ∀ last ∈ db.blocks.getLast?,
      ((requestBackend k accounts last).run evm k (req.value.getD 0) req.to
        (req.data.getD [])).reason.isSucceed = false)
  | _ => True

/-- The nonce of an owned address counts its transactions, at every block. -/
structure CountHistory (c : Crypto) (owned : Set H160) (k : H160) (runtime : Runtime) : Prop
    extends Runtime.Sound c runtime where
  /-- No owned address has code. -/
  codeless : ∀ accounts ∈ runtime.ethDb.accounts, accounts.world.Codeless owned
  /-- The nonce behind a block is the number of transactions up to it. -/
  counted : ∀ (i : Nat) (accounts : Accounts), runtime.ethDb.accounts[i]? = some accounts →
    (accounts.world.nonce k).toNat = sentUpTo runtime.ethDb k i

section

variable {c : Crypto} {evm : Evm} {owned : Set H160} {k : H160} {runtime : Runtime}
  {db db' : HashMapEthDB} {now : U64} {tx : SignedTransaction} {n : U64} {accounts : Accounts}
  {req : CallRequest} {tag : Option BlockNumber}

/-! ## What is counted -/

/-- A block on top does not change the counts up to an older one. -/
theorem sentUpTo_extend_of_lt {last : Block} {latest : Accounts} {i : Nat}
    (hi : i < db.blocks.length) :
    sentUpTo (db.extend c evm now tx last latest) k i = sentUpTo db k i := by
  have hle : i ≤ db.blocks.tail.length := by
    rw [List.length_tail]
    omega
  have hne : db.blocks ≠ [] := List.ne_nil_of_length_pos (Nat.zero_lt_of_lt hi)
  rw [sentUpTo, extend, List.tail_append_of_ne_nil hne, List.take_append_of_le_length hle,
    sentUpTo]

/-- Up to the block on top, its transaction is counted for its sender. -/
theorem sentUpTo_extend_length {last : Block} {latest : Accounts} (hb : db.blocks ≠ []) :
    sentUpTo (db.extend c evm now tx last latest) k db.blocks.length =
      sentUpTo db k (db.blocks.length - 1) + if tx.sender = k then 1 else 0 := by
  have hpos := List.length_pos_iff.mpr hb
  have hall : (db.blocks.tail ++ [last.next c now [tx]]).take db.blocks.length =
      db.blocks.tail ++ [last.next c now [tx]] := by
    apply List.take_of_length_le
    rw [List.length_append, List.length_tail, List.length_singleton]
    omega
  have hold : db.blocks.tail.take (db.blocks.length - 1) = db.blocks.tail := by
    apply List.take_of_length_le
    rw [List.length_tail]
  rw [sentUpTo, extend, List.tail_append_of_ne_nil hb, hall, List.flatMap_append,
    List.countP_append, sentUpTo, hold]
  simp [List.countP_cons]

/-- A count of a stored block is the nonce in the accounts behind it. -/
theorem transactionCount_num (ha : db.accounts[n.toNat]? = some accounts) :
    (EthClient.transactionCount k (some (.num n)) ⟨db, false⟩).1 =
      some (.ok (accounts.world.nonce k)) := by
  have hnonce : (((some accounts).bind (·[k]?)).map (·.nonce)).getD 0 =
      accounts.world.nonce k := by
    simp only [Option.bind_some, World.nonce, Accounts.world]
    cases accounts[k]? with
    | none => rfl
    | some account => rfl
  have hparse : parseNumber (some (.num n)) db = some (.ok n) := rfl
  rw [transactionCount_eq hparse, ha, hnonce]

/-- A node that keeps the history counts. -/
theorem CountHistory.counts (h : CountHistory c owned k runtime) : Counts k runtime := by
  intro n hn
  have hlt := lt_of_lt_of_eq hn h.positioned.aligned
  have ha := List.getElem?_eq_getElem hlt
  rw [h.toSound.eq, transactionCount_num ha]
  exact ⟨_, rfl, h.counted _ _ ha⟩

/-- A poisoned node does not count. -/
theorem not_counts_of_poisoned (hb : db.blocks ≠ []) : ¬ Counts k ⟨db, true⟩ := by
  intro hcounts
  obtain ⟨count, hcount, _⟩ := hcounts 0 (List.length_pos_iff.mpr hb)
  cases hcount

/-! ## What keeps the history -/

/-- A run changes the nonce of an owned address only if the address is the caller. -/
theorem CallerLaw.nonce_eq (law : CallerLaw evm owned) {self : EthDBBackend} {caller : H160}
    {value : U256} {«to» : Option H160} {data : List UInt8}
    (hcode : self.accounts.world.Codeless owned)
    (hr : (self.run evm caller value «to» data).reason.isSucceed) (hk : k ∈ owned)
    (hne : caller ≠ k) :
    (self.accounts.world.overlay (self.run evm caller value «to» data).applies).nonce k =
      self.accounts.world.nonce k := by
  by_cases hcaller : caller ∈ owned
  · exact law.others _ _ _ _ _ hcode hcaller hr k hk (Ne.symm hne)
  · exact (law.strangers _ _ _ _ _ hcode hcaller hr k hk).1

/-- A run creates no code at owned addresses. -/
theorem CallerLaw.codeless_overlay (law : CallerLaw evm owned) {self : EthDBBackend}
    {caller : H160} {value : U256} {«to» : Option H160} {data : List UInt8}
    (hcode : self.accounts.world.Codeless owned)
    (hr : (self.run evm caller value «to» data).reason.isSucceed) :
    (self.accounts.world.overlay (self.run evm caller value «to» data).applies).Codeless
      owned := by
  by_cases hcaller : caller ∈ owned
  · exact law.codeless _ _ _ _ _ hcode hcaller hr
  · exact fun a ha => (law.strangers _ _ _ _ _ hcode hcaller hr a ha).2

/-- A new node has no history. -/
theorem CountHistory.new (c : Crypto) (now : U64) (owned : Set H160) (k : H160) :
    CountHistory c owned k ⟨HashMapEthDB.new c now, false⟩ where
  unpoisoned := rfl
  positioned := (WellFormed.new c now).positioned
  codeless accounts hmem a _ := by
    obtain rfl := List.mem_singleton.mp hmem
    simp [World.code, Accounts.world]
  counted i accounts ha := by
    obtain rfl := List.mem_singleton.mp (List.mem_of_getElem? ha)
    simp [World.nonce, Accounts.world, sentUpTo, HashMapEthDB.new, createGenesis]

/-- An execution keeps the history. -/
theorem CountHistory.executes (h : CountHistory c owned k ⟨db, false⟩)
    (law : CallerLaw evm owned) (hk : k ∈ owned) (hexec : Executes c evm now tx db db') :
    CountHistory c owned k ⟨db', false⟩ := by
  have hpositioned := h.positioned.executes hexec
  have haligned : db.blocks.length = db.accounts.length := h.positioned.aligned
  obtain ⟨last, latest, hb, ha, hr, rfl⟩ := hexec
  have hcode := h.codeless latest (List.mem_of_getLast? ha)
  have hworld : ((submitRun c evm now tx last latest).applies.foldl (Accounts.applyOne false)
      latest).world = latest.world.overlay (submitRun c evm now tx last latest).applies :=
    Accounts.world_foldl_applyOne _
  refine {
    unpoisoned := rfl
    positioned := hpositioned
    codeless := ?_
    counted := ?_ }
  · intro accounts hmem
    rcases List.mem_append.mp hmem with hmem | hmem
    · exact h.codeless accounts hmem
    · obtain rfl := List.mem_singleton.mp hmem
      rw [hworld]
      exact law.codeless_overlay hcode hr
  · intro i accounts hi
    rw [extend] at hi
    rcases getElem?_concat_cases hi with ⟨hlt, hi⟩ | ⟨rfl, rfl⟩
    · rw [sentUpTo_extend_of_lt (lt_of_lt_of_eq hlt haligned.symm), h.counted i accounts hi]
    · rw [List.getLast?_eq_getElem?] at ha
      rw [← haligned] at ha ⊢
      rw [sentUpTo_extend_length h.positioned.nonempty, ← h.counted _ _ ha, hworld]
      by_cases hs : tx.sender = k
      · subst hs
        rw [if_pos rfl]
        exact law.sender _ _ _ _ _ hcode hk hr
      · rw [if_neg hs, Nat.add_zero]
        exact congrArg BitVec.toNat (law.nonce_eq hcode hr hk hs)

/-- Accounts in which the owned addresses have no code and the caller counted has its old nonce
may take the place of others. -/
theorem CountHistory.set (h : CountHistory c owned k ⟨db, false⟩) {i : Nat}
    {accounts accounts' : Accounts} (ha : db.accounts[i]? = some accounts)
    (hcode : accounts'.world.Codeless owned)
    (hnonce : accounts'.world.nonce k = accounts.world.nonce k) :
    CountHistory c owned k ⟨{ db with accounts := db.accounts.set i accounts' }, false⟩ where
  unpoisoned := rfl
  positioned := h.positioned.set i accounts'
  codeless := by
    intro a hmem
    rcases List.mem_or_eq_of_mem_set hmem with hmem | rfl
    · exact h.codeless a hmem
    · exact hcode
  counted := by
    intro j a hj
    change _ = sentUpTo db k j
    rw [List.getElem?_set] at hj
    by_cases hij : i = j
    · subst hij
      rw [if_pos rfl, if_pos (List.getElem?_eq_some_iff.mp ha).1] at hj
      cases hj
      rw [hnonce, h.counted i accounts ha]
    · rw [if_neg hij] at hj
      exact h.counted j a hj

/-! ## What requests leave behind -/

/-- A handler that leaves the runtime alone at every step leaves it alone. -/
theorem Handler.snd_bind {α β : Type} {x : Handler α} {f : α → Handler β}
    (hx : (x runtime).2 = runtime) (hf : ∀ a, (f a runtime).2 = runtime) :
    ((x >>= f) runtime).2 = runtime := by
  rcases h : x runtime with ⟨response, runtime'⟩
  rw [h] at hx
  obtain rfl := hx
  cases response with
  | none => rw [Handler.bind_of_panic h]
  | some result =>
    cases result with
    | error e => rw [Handler.bind_of_error h]
    | ok a => rw [Handler.bind_of_ok h, hf]

/-- A balance leaves everything as it is. -/
theorem balance_snd (address : H160) (tag : Option BlockNumber) (runtime : Runtime) :
    (EthClient.balance address tag runtime).2 = runtime :=
  Handler.snd_bind (getDb_snd _ _) fun _ => Handler.snd_bind (getDb_snd _ _) fun _ => rfl

/-- A count leaves everything as it is. -/
theorem transactionCount_snd (k : H160) (tag : Option BlockNumber) (runtime : Runtime) :
    (EthClient.transactionCount k tag runtime).2 = runtime :=
  Handler.snd_bind (getDb_snd _ _) fun _ => getDb_snd _ _

/-- A call leaves everything as it is, unless it asks for a number that is not stored. -/
theorem call_snd_of_stored (h : Positioned c db) (hq : req.to = none ∨ Stored db tag) :
    (EthClient.call evm req tag ⟨db, false⟩).2 = ⟨db, false⟩ := by
  cases hto : req.to with
  | none => rw [call_of_missing hto]
  | some to' =>
    have hs : Stored db tag := hq.resolve_left (by simp [hto])
    rcases h.parseNumber_cases tag with ⟨n, hp, hlt, _⟩ | ⟨_, _, _, _, hnot⟩ | ⟨hp, _⟩
    · have ha := List.getElem?_eq_getElem (lt_of_lt_of_eq hlt h.aligned)
      obtain ⟨response, hcall⟩ :=
        call_of_some hp ha (List.getLast?_eq_some_getLast h.nonempty) hto
      rw [hcall]
    · exact absurd hs hnot
    · rw [EthClient.call, Handler.bind_of_ok (by rw [hto]; rfl),
        Handler.bind_of_error (getDb_parseNumber_error hp _)]

/-- A call poisons the lock when it asks for a number that is not stored. -/
theorem call_snd_of_not_stored (h : Positioned c db) (hto : req.to ≠ none)
    (hs : ¬ Stored db tag) : (EthClient.call evm req tag ⟨db, false⟩).2 = ⟨db, true⟩ := by
  obtain ⟨to', hto⟩ := Option.ne_none_iff_exists'.mp hto
  rcases h.parseNumber_cases tag with ⟨_, _, _, _, hyes⟩ | ⟨n, hp, hle, _⟩ | ⟨_, _, hyes⟩
  · exact absurd hyes hs
  · rw [call_of_none hp (List.getElem?_eq_none (h.aligned ▸ hle)) hto]
  · exact absurd hyes hs

/-- An estimate poisons the lock when it asks for a number that is not stored. -/
theorem estimateGas_snd_of_not_stored (h : Positioned c db) (hs : ¬ Stored db tag) :
    (EthClient.estimateGas evm req tag ⟨db, false⟩).2 = ⟨db, true⟩ := by
  rcases h.parseNumber_cases tag with ⟨_, _, _, _, hyes⟩ | ⟨n, hp, hle, _⟩ | ⟨_, _, hyes⟩
  · exact absurd hyes hs
  · rw [estimateGas_of_none hp (List.getElem?_eq_none (h.aligned ▸ hle))]
  · exact absurd hyes hs

/-- A quiet estimate keeps the history. -/
theorem CountHistory.estimateGas (h : CountHistory c owned k ⟨db, false⟩)
    (law : CallerLaw evm owned) (hk : k ∈ owned)
    (hq : (NodeRequest.state (.estimateGas req tag)).Quiet evm k db) :
    CountHistory c owned k (EthClient.estimateGas evm req tag ⟨db, false⟩).2 := by
  obtain ⟨hs, hquiet⟩ := hq
  have hpositioned : Positioned c db := h.positioned
  rcases hpositioned.parseNumber_cases tag with
    ⟨n, hp, hlt, _⟩ | ⟨_, _, _, _, hnot⟩ | ⟨hp, _⟩
  · have ha := List.getElem?_eq_getElem (lt_of_lt_of_eq hlt hpositioned.aligned)
    have hb := List.getLast?_eq_some_getLast hpositioned.nonempty
    have hcode := h.codeless _ (List.mem_of_getElem? ha)
    rw [estimateGas_run hp ha hb]
    apply h.set ha
    · split
      · rename_i hr
        rw [Accounts.world_foldl_applyOne]
        exact law.codeless_overlay hcode hr
      · exact hcode
    · split
      · rename_i hr
        rw [Accounts.world_foldl_applyOne]
        apply law.nonce_eq hcode hr hk
        intro hcaller
        rw [hcaller, hquiet hcaller n hp _ ha _ hb] at hr
        contradiction
      · rfl
  · exact absurd hs hnot
  · rw [EthClient.estimateGas, Handler.bind_of_error (getDb_parseNumber_error hp _)]
    exact h

/-- An estimate that is not quiet is counted, without a transaction. -/
theorem CountHistory.not_counts_estimateGas (h : CountHistory c owned k ⟨db, false⟩)
    (law : CallerLaw evm owned) (hk : k ∈ owned)
    (hq : ¬ (NodeRequest.state (.estimateGas req tag)).Quiet evm k db) :
    ¬ Counts k (EthClient.estimateGas evm req tag ⟨db, false⟩).2 := by
  have hpositioned : Positioned c db := h.positioned
  by_cases hs : Stored db tag
  · simp only [NodeRequest.Quiet, hs, true_and, not_forall, Bool.not_eq_false] at hq
    obtain ⟨hcaller, n, hp, accounts, ha, last, hb, hr⟩ := hq
    have hcode := h.codeless _ (List.mem_of_getElem? ha)
    have hlt : n.toNat < db.accounts.length := (List.getElem?_eq_some_iff.mp ha).1
    rw [estimateGas_run hp ha hb, hcaller]
    simp only [hr, if_true]
    intro hcounts
    obtain ⟨count, hcount, hsent⟩ := hcounts n (lt_of_lt_of_eq hlt hpositioned.aligned.symm)
    rw [transactionCount_num (List.getElem?_set_self hlt)] at hcount
    cases hcount
    have hup := law.sender _ _ _ _ _ hcode hk hr
    have hold := h.counted _ _ ha
    rw [Accounts.world_foldl_applyOne] at hsent
    exact absurd (hup.symm.trans (hsent.trans hold.symm)) (Nat.succ_ne_self _)
  · rw [estimateGas_snd_of_not_stored hpositioned hs]
    exact not_counts_of_poisoned hpositioned.nonempty

/-! ## Runs -/

/-- A quiet request keeps the history. -/
theorem CountHistory.serve (h : CountHistory c owned k ⟨db, false⟩) (law : CallerLaw evm owned)
    (hk : k ∈ owned) {request : NodeRequest} (hq : request.Quiet evm k db) :
    CountHistory c owned k (request.serve c evm ⟨db, false⟩).2 := by
  have hpositioned : Positioned c db := h.positioned
  cases request with
  | sendRawTransaction now raw =>
    simp only [NodeRequest.serve, Handler.bind_pure_apply]
    rcases sendRawTransaction_cases hpositioned.nonempty hpositioned.accounts_ne_nil raw
      false with ⟨e, hs⟩ | ⟨tx, db', _, hexec, hs⟩
    · rw [hs]
      exact h
    · rw [hs]
      exact h.executes law hk hexec
  | state request =>
    cases request with
    | call req tag =>
      simp only [NodeRequest.serve, StateRequest.serve, Handler.bind_pure_apply]
      rw [call_snd_of_stored hpositioned hq]
      exact h
    | estimateGas req tag =>
      simp only [NodeRequest.serve, StateRequest.serve, Handler.bind_pure_apply]
      exact h.estimateGas law hk hq
    | balance address tag =>
      simp only [NodeRequest.serve, StateRequest.serve, Handler.bind_pure_apply, balance_snd]
      exact h
    | transactionCount address tag =>
      simp only [NodeRequest.serve, StateRequest.serve, Handler.bind_pure_apply,
        transactionCount_snd]
      exact h

/-- Any other request shows in the counts. -/
theorem CountHistory.not_counts_serve (h : CountHistory c owned k ⟨db, false⟩)
    (law : CallerLaw evm owned) (hk : k ∈ owned) {request : NodeRequest}
    (hq : ¬ request.Quiet evm k db) : ¬ Counts k (request.serve c evm ⟨db, false⟩).2 := by
  have hpositioned : Positioned c db := h.positioned
  cases request with
  | sendRawTransaction now raw => exact absurd trivial hq
  | state request =>
    cases request with
    | call req tag =>
      obtain ⟨hto, hs⟩ := not_or.mp hq
      simp only [NodeRequest.serve, StateRequest.serve, Handler.bind_pure_apply]
      rw [call_snd_of_not_stored hpositioned hto hs]
      exact not_counts_of_poisoned hpositioned.nonempty
    | estimateGas req tag =>
      simp only [NodeRequest.serve, StateRequest.serve, Handler.bind_pure_apply]
      exact h.not_counts_estimateGas law hk hq
    | balance address tag => exact absurd trivial hq
    | transactionCount address tag => exact absurd trivial hq

/-- Quiet requests keep the history, and the others show in the counts. -/
theorem guards_counts (law : CallerLaw evm owned) (hk : k ∈ owned) :
    Guarded.Guards (fun runtime req => (NodeRequest.serve c evm req runtime).2)
      (CountHistory c owned k) (Counts k) (fun runtime req => req.Quiet evm k runtime.ethDb) where
  holds h := h.counts
  keeps := by
    rintro ⟨db, poisoned⟩ request h hq
    obtain rfl : poisoned = false := h.unpoisoned
    exact h.serve law hk hq
  breaks := by
    rintro ⟨db, poisoned⟩ request h hq
    obtain rfl : poisoned = false := h.unpoisoned
    exact h.not_counts_serve law hk hq

/-- All along a run, the node counts the transactions of an owned address exactly when every
request is quiet in the state in which it is served. -/
theorem counts_iff (law : CallerLaw evm owned) (hk : k ∈ owned) (now : U64)
    (requests : List NodeRequest) :
    let serve := fun earlier => serveAll c evm earlier ⟨HashMapEthDB.new c now, false⟩
    (∀ earlier, earlier <+: requests → Counts k (serve earlier)) ↔
      ∀ earlier req, earlier ++ [req] <+: requests →
        req.Quiet evm k (serve earlier).ethDb :=
  (guards_counts law hk).forall_foldl_iff (CountHistory.new c now owned k) requests

/-- The sample machine obeys the law for all callers, whatever is owned. -/
theorem CallerLaw.sample (owned : Set H160) : CallerLaw .sample owned where
  toNonceLaw := NonceLaw.sample owned
  strangers self caller value to' data hcode hcaller hr a ha := by
    obtain ⟨_, happlies⟩ := EthDBBackend.run_sample hr
    obtain ⟨hnonce, hkept⟩ := World.overlay_sampleApplies self caller a
    have hne : caller ≠ a := fun he => hcaller (he ▸ ha)
    rw [happlies, hnonce, if_neg hne, hkept]
    exact ⟨rfl, hcode a ha⟩

/-- A node that serves two submissions of a sender and an estimate for nobody in particular
counts the sender's transactions all along. -/
theorem counts_iff_submissions :
    let raw := [0xc9, 0x80, 0x80, 0x80, 0x80, 0x80, 0x80, 0x1b, 0x01, 0x01]
    let sender : H160 := ⟨List.replicate 19 0 ++ [1], rfl⟩
    let requests : List NodeRequest :=
      [.sendRawTransaction 1 raw, .state (.estimateGas {} none), .sendRawTransaction 2 raw]
    ∀ earlier, earlier <+: requests →
      Counts sender (serveAll .sample .sample earlier ⟨HashMapEthDB.new .sample 0, false⟩) := by
  intro raw sender requests
  refine (counts_iff (CallerLaw.sample Set.univ) (Set.mem_univ sender) 0 requests).mpr ?_
  intro earlier req hprefix
  have hmem : req ∈ requests := hprefix.subset (List.mem_append_right _ List.mem_cons_self)
  simp only [requests, List.mem_cons, List.not_mem_nil, or_false] at hmem
  rcases hmem with rfl | rfl | rfl
  · trivial
  · exact ⟨stored_of_forall_ne nofun, fun hcaller => absurd hcaller (by decide)⟩
  · trivial

/-- An estimate for a sender, and then a transaction of that sender: up to block 0 the count is 1
without any transaction, and up to block 1 it is 2 with one transaction. -/
theorem transactionCount_drifts :
    let raw := [0xc9, 0x80, 0x80, 0x80, 0x80, 0x80, 0x80, 0x1b, 0x01, 0x01]
    let sender : H160 := ⟨List.replicate 19 0 ++ [1], rfl⟩
    let runtime := serveAll .sample .sample
      [.state (.estimateGas { «from» := some sender, «to» := some .zero } none),
        .sendRawTransaction 5 raw] ⟨HashMapEthDB.new .sample 0, false⟩
    CallerLaw .sample Set.univ ∧
    (EthClient.transactionCount sender (some (.num 0)) runtime).1 = some (.ok 1) ∧
    sentUpTo runtime.ethDb sender 0 = 0 ∧
    (EthClient.transactionCount sender (some (.num 1)) runtime).1 = some (.ok 2) ∧
    sentUpTo runtime.ethDb sender 1 = 1 ∧ ¬ Counts sender runtime := by
  intro raw sender runtime
  have hblock0 : (EthClient.transactionCount sender (some (.num 0)) runtime).1 =
      some (.ok 1) ∧ sentUpTo runtime.ethDb sender 0 = 0 := by decide +kernel
  have hblock1 : (EthClient.transactionCount sender (some (.num 1)) runtime).1 =
      some (.ok 2) ∧ sentUpTo runtime.ethDb sender 1 = 1 := by decide +kernel
  refine ⟨CallerLaw.sample Set.univ, hblock0.1, hblock0.2, hblock1.1, hblock1.2,
    fun hcounts => ?_⟩
  obtain ⟨count, hresponse, heq⟩ := hcounts 0 (by decide +kernel)
  rw [hblock0.1] at hresponse
  cases hresponse
  exact absurd (heq.trans hblock0.2) Nat.one_ne_zero

end

end Tethereum
