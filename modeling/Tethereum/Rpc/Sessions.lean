import Tethereum.Db.Creation
import Tethereum.Rpc.Availability
import Tethereum.Rpc.Runs

/-!
# Any requests next to each other

Requests of every kind are served in any interleaving of their sections, estimates
and panics among them. A submission that got a hash is in the chain once, and one
that got none is not in it. Receipts are there from then on, the height never goes
back, and requests that only read are not noticed by the others.
-/

namespace Tethereum

open HashMapEthDB EthClient Interleaving

/-- A run of requests to the services. -/
abbrev ServicePool (ι : Type) := Pool ι Runtime (Outcome (Except RpcError ServiceResponse))

section

variable {ι : Type} [DecidableEq ι] {c : Crypto} {evm : Evm} {db : HashMapEthDB}
  {requests : ι → ServiceRequest}

/-! ## Submissions -/

/-- The transactions that the turns of a schedule put into the chain, each with the thread whose
turn it was. -/
def placed (p : ServicePool ι) : List ι → List (ι × SignedTransaction)
  | [] => []
  | i :: schedule =>
    ((included (p.step i).shared.ethDb).drop (included p.shared.ethDb).length).map (i, ·) ++
      placed (p.step i) schedule

/-- What earlier turns put into the chain comes first. -/
theorem placed_append (p : ServicePool ι) (s₁ s₂ : List ι) :
    placed p (s₁ ++ s₂) = placed p s₁ ++ placed (p.run s₁) s₂ := by
  induction s₁ generalizing p with
  | nil => rfl
  | cons i s₁ ih => rw [List.cons_append, placed, placed, ih, List.append_assoc, Pool.run_cons]

omit [DecidableEq ι] in
/-- A section includes nothing, and ends with no hash, or it includes the transaction of its
submission and ends with its hash. -/
theorem ServiceRequest.Section.included_cases {req : ServiceRequest}
    {runtime runtime' : Runtime} {answer : ServiceAnswer}
    (h : req.Section c evm runtime runtime' answer) :
    (included runtime'.ethDb = included runtime.ethDb ∧
      ∀ hash, answer ≠ some (some (.ok (.node (.hash hash))))) ∨
    ∃ tx, included runtime'.ethDb = included runtime.ethDb ++ [tx] ∧
      answer = some (some (.ok (.node (.hash tx.hash)))) ∧
      ∃ now raw, req = .node (.sendRawTransaction now raw) ∧ Accepted c raw tx := by
  cases h with
  | stays huneventful => exact Or.inl ⟨rfl, huneventful.2⟩
  | includes hopen haccepted hexec =>
    exact Or.inr ⟨_, included_of_executes hexec, rfl, _, _, rfl, haccepted⟩
  | changes hopen hi => exact Or.inl ⟨rfl, fun hash => by rintro ⟨⟩⟩
  | panics hopen hasks hn => exact Or.inl ⟨rfl, fun hash => by rintro ⟨⟩⟩

/-- The entries are what requests have put into the chain, each with its request. -/
structure Journal (c : Crypto) (requests : ι → ServiceRequest) (db : HashMapEthDB)
    (p : ServicePool ι) (entries : List (ι × SignedTransaction)) : Prop where
  /-- The chain has grown by their transactions, in their order. -/
  grown : included p.shared.ethDb = included db ++ entries.map Prod.snd
  /-- No request has two of them. -/
  once : (entries.map Prod.fst).Nodup
  /-- The request of an entry is the submission of its transaction. -/
  sent : ∀ i tx, (i, tx) ∈ entries →
    ∃ now raw, requests i = .node (.sendRawTransaction now raw) ∧ Accepted c raw tx
  /-- A request has ended with a hash exactly when it has an entry with this hash. -/
  responded : ∀ i hash, p.threads i = .done (some (.ok (.node (.hash hash)))) ↔
    ∃ tx, (i, tx) ∈ entries ∧ tx.hash = hash

/-- In every interleaving of any requests, the chain has grown by exactly the transactions of the
submissions that have ended with a hash, each of them once, in the order in which they were
executed. -/
theorem included_exactly_once (h : Reachable c evm db) (requests : ι → ServiceRequest)
    (schedule : List ι) :
    let start := startServices c evm requests ⟨db, false⟩
    Journal c requests db (start.run schedule) (placed start schedule) := by
  intro start
  have hannounces : start.Announces (Runtime.Kept c) Runtime.Later _ :=
    startServices_announces (h.kept false) evm requests
  refine hannounces.induction (sections_moves c evm requests)
    (P := fun s q => Journal c requests db q (placed start s)) ?_ ?_ ?_ schedule
  · refine ⟨(List.append_nil _).symm, List.nodup_nil, fun _ _ hmem => absurd hmem List.not_mem_nil,
      fun i hash => iff_of_false (fun hdone => ?_) (by rintro ⟨tx, hmem, _⟩; contradiction)⟩
    have hstart := ((requests i).uneventful_thread c evm).2 hash
    exact hstart (congrArg Thread.answer hdone)
  · intro s i hs hdone
    obtain ⟨result, hresult⟩ := hdone
    have hsame : placed start (s ++ [i]) = placed start s := by
      rw [placed_append, placed, Pool.step_of_done hresult, List.drop_length]
      exact List.append_nil _
    rw [hsame]
    exact hs
  · rintro s i _ ⟨hgrown, honce, hsent, hiff⟩ hopen hsection
    have hnot : ∀ tx, (i, tx) ∉ placed start s := by
      intro tx hmem
      rw [(hiff i tx.hash).mpr ⟨tx, hmem, rfl⟩] at hopen
      contradiction
    have hplaced : placed start (s ++ [i]) = placed start s ++
        ((included ((start.run s).step i).shared.ethDb).drop
          (included (start.run s).shared.ethDb).length).map (i, ·) := by
      rw [placed_append, placed, placed, List.append_nil]
    rcases hsection.included_cases with ⟨hsame, hnohash⟩ | ⟨tx, htop, hhash, now, raw, hreq, hacc⟩
    · rw [hsame, List.drop_length, List.map_nil, List.append_nil] at hplaced
      rw [hplaced]
      refine ⟨hsame.trans hgrown, honce, hsent, fun j hash => ?_⟩
      by_cases hj : j = i
      · subst hj
        refine iff_of_false (fun hdone => hnohash hash (congrArg Thread.answer hdone)) ?_
        rintro ⟨tx, hmem, _⟩
        exact hnot tx hmem
      · rw [Pool.threads_step_of_ne hj]
        exact hiff j hash
    · rw [htop, List.drop_left, List.map_singleton] at hplaced
      rw [hplaced]
      refine ⟨?_, ?_, fun j tx' hmem => ?_, fun j hash => ?_⟩
      · rw [htop, hgrown, List.map_append, List.map_singleton, List.append_assoc]
      · rw [List.map_append, List.map_singleton, ← List.concat_eq_append, List.nodup_concat]
        refine ⟨fun hmem => ?_, honce⟩
        obtain ⟨⟨_, tx'⟩, hmem', rfl⟩ := List.mem_map.mp hmem
        exact hnot tx' hmem'
      · rcases List.mem_append.mp hmem with hmem | hmem
        · exact hsent j tx' hmem
        · cases List.mem_singleton.mp hmem
          exact ⟨now, raw, hreq, hacc⟩
      · by_cases hj : j = i
        · subst hj
          rw [← Thread.answer_eq_some_iff, hhash]
          constructor
          · rintro ⟨⟩
            exact ⟨tx, List.mem_append_right _ (List.mem_singleton_self _), rfl⟩
          · rintro ⟨tx', hmem, rfl⟩
            rcases List.mem_append.mp hmem with hmem | hmem
            · exact absurd hmem (hnot tx')
            · cases List.mem_singleton.mp hmem
              rfl
        · rw [Pool.threads_step_of_ne hj, hiff j hash]
          refine exists_congr fun tx' => and_congr_left fun _ => ?_
          rw [List.mem_append, List.mem_singleton, Prod.mk.injEq]
          exact (or_iff_left fun hsame => hj hsame.1).symm

/-- Next to a call for block 1, the smallest creation is put into the chain. -/
theorem included_exactly_once_creation :
    let requests : Bool → ServiceRequest
      | true => .node (.sendRawTransaction 5
          [0xc9, 0x80, 0x80, 0x80, 0x80, 0x80, 0x80, 0x1b, 0x01, 0x01])
      | false => .node (.state (.call { «to» := some .zero } (some (.num 1))))
    let start := startServices .sample .sample requests ⟨HashMapEthDB.new .sample 0, false⟩
    (placed start [false, true, false]).map Prod.fst = [true] ∧
      Journal .sample requests (HashMapEthDB.new .sample 0) (start.run [false, true, false])
        (placed start [false, true, false]) :=
  ⟨by decide +kernel, included_exactly_once (reachable_new .sample .sample 0) _ _⟩

/-! ## Responses under one guard -/

/-- A request with one guard has responded with what its work makes of the state at its first
turn. -/
theorem RequestThread.exists_turn_of_lock {α β : Type}
    {p : Pool ι Runtime (Outcome (Except RpcError β))} {i : ι} {schedule : List ι}
    {critical : Handler α} {respond' : α → β} {response : Outcome (Except RpcError β)}
    (h : p.threads i = lock critical fun a => respond (respond' a))
    (hdone : (p.run schedule).threads i = .done response) :
    ∃ s₁ s₂, schedule = s₁ ++ i :: s₂ ∧
      response = (critical (p.run s₁).shared).1.map (·.map respond') := by
  obtain ⟨s₁, s₂, rfl, hs₁⟩ := Pool.exists_first_turn h hdone
  refine ⟨s₁, s₂, rfl, ?_⟩
  have hend := Pool.threads_run_of_locked h hs₁
  rw [List.append_cons, Pool.run_append] at hdone
  cases hc : (critical (p.run s₁).shared).1 with
  | none =>
    simp only [hc] at hend
    rw [Pool.threads_run_of_done hend] at hdone
    exact (Thread.done.inj hdone).symm
  | some result =>
    cases result with
    | error e =>
      simp only [hc] at hend
      rw [Pool.threads_run_of_done hend] at hdone
      exact (Thread.done.inj hdone).symm
    | ok a =>
      simp only [hc] at hend
      rw [Pool.threads_run_of_done hend] at hdone
      exact (Thread.done.inj hdone).symm

/-- A read under one guard has responded with an error of the poisoned lock, or with what it
found in the store at its turn, which was one after all the turns of `s₁`. -/
theorem RequestThread.exists_read_of_lock {α β : Type}
    {p : Pool ι Runtime (Outcome (Except RpcError β))} {j : ι} {s₁ s₂ : List ι}
    {critical : HashMapEthDB → Outcome (Except RpcError α)} {respond' : α → β}
    {response : Outcome (Except RpcError β)}
    (h : p.threads j = lock (getDb critical) fun a => respond (respond' a)) (hj : j ∉ s₁)
    (hdone : (p.run (s₁ ++ s₂)).threads j = .done response) :
    ∃ s₃, s₃ <+: s₂ ∧
      ((p.run (s₁ ++ s₃)).shared.poisoned = true ∧ response = some (.error lockError) ∨
        response = (critical (p.run (s₁ ++ s₃)).shared.ethDb).map (·.map respond')) := by
  have hfirst : (p.run s₁).threads j = lock (getDb critical) fun a => respond (respond' a) := by
    rw [Pool.threads_run_of_not_mem hj, h]
  rw [Pool.run_append] at hdone
  obtain ⟨s₃, s₄, rfl, hresponse⟩ := exists_turn_of_lock hfirst hdone
  refine ⟨s₃, List.prefix_append _ _, ?_⟩
  rw [← Pool.run_append] at hresponse
  rw [hresponse, getDb]
  split
  · rename_i hp
    exact Or.inl ⟨hp, rfl⟩
  · exact Or.inr rfl

/-- A read under one guard has responded with what it found in the store at its turn. -/
theorem RequestThread.exists_read {α β : Type} {p : Pool ι Runtime (Outcome (Except RpcError β))}
    {i : ι} {s : List ι} {critical : HashMapEthDB → Outcome (Except RpcError α)}
    {respond' : α → β} {response : β}
    (h : p.threads i = lock (getDb critical) fun a => respond (respond' a))
    (hdone : (p.run s).threads i = .done (some (.ok response))) :
    ∃ s' a, s' <+: s ∧ critical (p.run s').shared.ethDb = some (.ok a) ∧ response = respond' a := by
  have hnil : i ∉ ([] : List ι) := List.not_mem_nil
  obtain ⟨s', hs', ⟨_, he⟩ | he⟩ := exists_read_of_lock h hnil hdone
  · cases he
  · obtain ⟨result, hresult, hmap⟩ := Option.map_eq_some_iff.mp he.symm
    cases result with
    | error e => cases hmap
    | ok a =>
      cases hmap
      exact ⟨s', a, hs', hresult, rfl⟩

/-! ## Receipts of what was submitted -/

/-- The receipt tells of a block that holds a transaction with the hash, and of this transaction:
who has signed it, whom it calls, and for a creation the address made of the signer and the signed
nonce. -/
def ReceiptTells (c : Crypto) (db : HashMapEthDB) (hash : H256) (r : RpcReceipt) : Prop :=
  ∃ block ∈ db.blocks, ∃ tx ∈ block.transactions, tx.hash = hash ∧
    r.transactionHash = some hash ∧ r.blockHash = some (block.header.hash c) ∧
    r.from = some tx.sender ∧
    (∀ a, r.to = some a ↔ tx.transaction.unsigned.action = .call a) ∧
    ∀ a, r.contractAddress = some a ↔ tx.transaction.unsigned.action = .create ∧
      a = createAddress c tx.sender tx.transaction.unsigned.nonce

omit [DecidableEq ι] in
/-- There is a receipt for every transaction in the chain. -/
theorem Runtime.Kept.receipt_of_included {runtime : Runtime} (h : runtime.Kept c)
    {tx : SignedTransaction} (hmem : tx ∈ included runtime.ethDb) :
    ∃ r, runtime.ethDb.receipt c tx.hash = some (some r) ∧
      ReceiptTells c runtime.ethDb tx.hash r := by
  obtain ⟨block, hblock, htx⟩ := List.mem_flatMap.mp hmem
  obtain ⟨info, hi⟩ := h.recorded.complete block hblock tx htx
  obtain ⟨i, block', tx', hb, htxs, hhash, ht, hbh, _⟩ := h.recorded.sound _ info hi
  have hmem' := List.mem_of_getElem? hb
  obtain ⟨n, hn⟩ := Option.ne_none_iff_exists'.mp (h.positioned.named block' hmem')
  rw [← hbh] at hn
  refine ⟨_, receipt_eq hi ht hn, block', hmem', tx', ?_, hhash, rfl, ?_, rfl,
    fun _ => UnverifiedTransaction.receiver_eq_some_iff,
    fun _ => SignedTransaction.contractAddress_eq_some_iff⟩
  · rw [htxs]
    exact List.mem_singleton_self tx'
  · rw [hbh]

omit [DecidableEq ι] in
/-- What is in the chain stays in it. -/
theorem Runtime.Later.included_subset {runtime runtime' : Runtime} (h : runtime.Later runtime')
    {tx : SignedTransaction} (hmem : tx ∈ included runtime.ethDb) :
    tx ∈ included runtime'.ethDb := by
  obtain ⟨block, hblock, htx⟩ := List.mem_flatMap.mp hmem
  exact List.mem_flatMap.mpr ⟨block, h.blocks.subset hblock, htx⟩

/-- What a submission that has ended with a hash was sent is in the chain. -/
theorem included_of_responded (h : Runtime.Kept c ⟨db, false⟩) (requests : ι → ServiceRequest)
    {schedule : List ι} {i : ι} {hash : H256} :
    let p := startServices c evm requests ⟨db, false⟩
    (p.run schedule).threads i = .done (some (.ok (.node (.hash hash)))) →
      ∃ tx ∈ included (p.run schedule).shared.ethDb, tx.hash = hash ∧
        ∃ now raw, requests i = .node (.sendRawTransaction now raw) ∧ Accepted c raw tx := by
  intro p hdone
  have hannounces : p.Announces (Runtime.Kept c) Runtime.Later _ :=
    startServices_announces h evm requests
  have hmoves := sections_moves c evm requests
  have hopen : (p.threads i).answer = none := by
    cases ha : (p.threads i).answer with
    | none => rfl
    | some result =>
      rw [Pool.threads_run_of_done (Thread.answer_eq_some_iff.mp ha)] at hdone
      cases hdone
      exact absurd ha (((requests i).uneventful_thread c evm).2 hash)
  obtain ⟨s₁, s₂, rfl, _, hsection, _⟩ := hannounces.exists_last_turn hmoves hopen hdone
  rcases hsection.included_cases with ⟨_, hnohash⟩ | ⟨tx, htop, hhash, hsent⟩
  · exact absurd rfl (hnohash hash)
  · cases hhash
    have hlonger : s₁ ++ [i] <+: s₁ ++ i :: s₂ := ⟨s₂, by rw [List.append_assoc]; rfl⟩
    refine ⟨tx, (hannounces.run_longer hmoves hlonger).included_subset ?_, rfl, hsent⟩
    rw [htop]
    exact List.mem_append_right _ (List.mem_singleton_self tx)

omit [DecidableEq ι] in
/-- A receipt still tells the truth later on. -/
theorem ReceiptTells.later {runtime runtime' : Runtime} {hash : H256} {r : RpcReceipt}
    (h : ReceiptTells c runtime.ethDb hash r) (hlater : runtime.Later runtime') :
    ReceiptTells c runtime'.ethDb hash r := by
  obtain ⟨block, hblock, hrest⟩ := h
  exact ⟨block, hlater.blocks.subset hblock, hrest⟩

/-- Whoever asks for the receipt of a transaction that is in the chain gets it, or the error of the
poisoned lock. -/
theorem receipt_of_included_before (h : Runtime.Kept c ⟨db, false⟩) (requests : ι → ServiceRequest)
    {s₁ s₂ : List ι} {j : ι} {tx : SignedTransaction}
    {response : Outcome (Except RpcError ServiceResponse)} :
    let p := startServices c evm requests ⟨db, false⟩
    tx ∈ included (p.run s₁).shared.ethDb → j ∉ s₁ → requests j = .transactionReceipt tx.hash →
      (p.run (s₁ ++ s₂)).threads j = .done response →
        ((p.run (s₁ ++ s₂)).shared.poisoned = true ∧ response = some (.error lockError)) ∨
          ∃ r, response = some (.ok (.receipt (some r))) ∧
            ReceiptTells c (p.run (s₁ ++ s₂)).shared.ethDb tx.hash r := by
  intro p hin hj hreq hdone
  have hannounces : p.Announces (Runtime.Kept c) Runtime.Later _ :=
    startServices_announces h evm requests
  have hmoves := sections_moves c evm requests
  have hthread : p.threads j = RequestThread.lock (getDb fun db => (db.receipt c tx.hash).map .ok)
      fun receipt => .respond (.receipt receipt) := by
    change (requests j).thread c evm = _
    rw [hreq]
    rfl
  obtain ⟨s₃, hs₃, hresponse⟩ := RequestThread.exists_read_of_lock hthread hj hdone
  have hlater := hannounces.run_longer hmoves ((List.prefix_append_right_inj s₁).mpr hs₃)
  rcases hresponse with ⟨hp, hresponse⟩ | hresponse
  · rw [hlater.frozen hp]
    exact Or.inl ⟨hp, hresponse⟩
  · have hstill := (hannounces.run_longer hmoves (List.prefix_append s₁ s₃)).included_subset hin
    have hkept := (hannounces.run hmoves (s₁ ++ s₃)).1.shared
    obtain ⟨r, hr, htells⟩ := hkept.receipt_of_included hstill
    rw [hr] at hresponse
    exact Or.inr ⟨r, hresponse, htells.later hlater⟩

/-- Once a submission has ended with a hash, every request for the receipt of this hash that
starts later gets one, whatever is served in between; it gets an error instead only if some
request has panicked and poisoned the lock. -/
theorem receipt_after_response (h : Reachable c evm db) (requests : ι → ServiceRequest)
    {s₁ : List ι} (s₂ : List ι) {i j : ι} {hash : H256}
    {response : Outcome (Except RpcError ServiceResponse)} :
    let p := startServices c evm requests ⟨db, false⟩
    (p.run s₁).threads i = .done (some (.ok (.node (.hash hash)))) → j ∉ s₁ →
      requests j = .transactionReceipt hash →
      (p.run (s₁ ++ s₂)).threads j = .done response →
        ((p.run (s₁ ++ s₂)).shared.poisoned = true ∧ response = some (.error lockError)) ∨
          ∃ r, response = some (.ok (.receipt (some r))) ∧
            ReceiptTells c (p.run (s₁ ++ s₂)).shared.ethDb hash r := by
  intro p hhash hj hreq hdone
  -- the transaction is in the chain when its hash is there
  obtain ⟨tx, hin, rfl, _⟩ := included_of_responded (h.kept false) requests hhash
  exact receipt_of_included_before (h.kept false) requests hin hj hreq hdone

/-- The receipt of the smallest creation, asked for after its hash. -/
theorem receipt_after_response_creation :
    let raw := [0xc9, 0x80, 0x80, 0x80, 0x80, 0x80, 0x80, 0x1b, 0x01, 0x01]
    let requests : Bool → ServiceRequest
      | true => .node (.sendRawTransaction 5 raw)
      | false => .transactionReceipt (Crypto.sample.keccak raw)
    let p := startServices .sample .sample requests ⟨HashMapEthDB.new .sample 0, false⟩
    ∃ response, (p.run ([true] ++ [false])).threads false = .done response ∧
      (((p.run ([true] ++ [false])).shared.poisoned = true ∧ response = some (.error lockError)) ∨
        ∃ r, response = some (.ok (.receipt (some r))) ∧
          ReceiptTells .sample (p.run ([true] ++ [false])).shared.ethDb
            (Crypto.sample.keccak raw) r) := by
  intro raw requests p
  have hhash : ((p.run [true]).threads true).answer =
      some (some (.ok (.node (.hash (Crypto.sample.keccak raw))))) := by
    decide +kernel
  have hend : ((p.run ([true] ++ [false])).threads false).answer.isSome := by
    decide +kernel
  obtain ⟨response, hresponse⟩ := Option.isSome_iff_exists.mp hend
  have hdone := Thread.answer_eq_some_iff.mp hresponse
  exact ⟨response, hdone, receipt_after_response (reachable_new .sample .sample 0) requests [false]
    (Thread.answer_eq_some_iff.mp hhash) (by decide) rfl hdone⟩

/-! ## Heights -/

/-- The height that a response shows: the number of the newest block, or that of the block of a
receipt. -/
def ServiceRequest.height : ServiceRequest → ServiceResponse → Option U256
  | .blockNumber, .quantity n => some n
  | .blockByNumber _ _, .block (some rich) => rich.inner.number
  | .transactionReceipt _, .receipt (some r) => r.blockNumber
  | _, _ => none

/-- The request asks for the newest block. -/
def ServiceRequest.AsksNewest : ServiceRequest → Prop
  | .blockNumber | .blockByNumber _ _ => True
  | _ => False

omit [DecidableEq ι] in
/-- A receipt shows the position of a block. -/
theorem Runtime.Kept.toNat_blockNumber_lt {runtime : Runtime} (h : runtime.Kept c) {hash : H256}
    {r : RpcReceipt} {n : U256} (hr : runtime.ethDb.receipt c hash = some (some r))
    (hn : r.blockNumber = some n) : n.toNat < runtime.ethDb.blocks.length := by
  cases hi : runtime.ethDb.infos[hash]? with
  | none =>
    rw [receipt, hi] at hr
    cases hr
  | some info =>
    obtain ⟨i, block, tx, hb, _, _, ht, hbh, _⟩ := h.recorded.sound hash info hi
    obtain ⟨number, hnumber⟩ := Option.ne_none_iff_exists'.mp
      (h.positioned.named block (List.mem_of_getElem? hb))
    rw [← hbh] at hnumber
    rw [receipt_eq hi ht hnumber] at hr
    cases hr
    cases hn
    rw [BitVec.toNat_setWidth_of_le (by omega)]
    exact h.positioned.indexed _ _ hnumber

/-- A height that is shown was below the number of blocks at a turn of the request, and a request
for the newest block showed the greatest such height. -/
theorem exists_height_turn {p : ServicePool ι} {i : ι} {s : List ι} {response : ServiceResponse}
    {n : U256} (hthread : p.threads i = (requests i).thread c evm)
    (hkept : ∀ s', s' <+: s → (p.run s').shared.Kept c)
    (hbound : ∀ s', s' <+: s → (p.run s').shared.ethDb.blocks.length ≤ isizeMax)
    (hdone : (p.run s).threads i = .done (some (.ok response)))
    (hheight : (requests i).height response = some n) :
    ∃ s', s' <+: s ∧ n.toNat < (p.run s').shared.ethDb.blocks.length ∧
      ((requests i).AsksNewest → n.toNat + 1 = (p.run s').shared.ethDb.blocks.length) := by
  -- only the reads under one guard show a height
  cases hreq : requests i with
  | blockNumber =>
    rw [hreq] at hthread
    obtain ⟨s', a, hs', hcritical, rfl⟩ := RequestThread.exists_read hthread hdone
    rw [hreq] at hheight
    cases hheight
    have hpos := List.length_pos_iff.mpr (hkept s' hs').positioned.nonempty
    have hle := hbound s' hs'
    simp only [isizeMax] at hle
    rw [bestNumber_of_ne_nil (hkept s' hs').positioned.nonempty] at hcritical
    cases hcritical
    rw [BitVec.toNat_setWidth_of_le (by omega), BitVec.toNat_ofNat]
    exact ⟨s', hs', by omega, fun _ => by omega⟩
  | blockByNumber tag full =>
    rw [hreq] at hthread
    obtain ⟨s', a, hs', hcritical, rfl⟩ := RequestThread.exists_read hthread hdone
    obtain ⟨best, hbest, hlast⟩ := (hkept s' hs').exists_best
    rw [hbest] at hcritical
    cases hcritical
    rw [hreq] at hheight
    cases hheight
    have hpos := List.length_pos_iff.mpr (hkept s' hs').positioned.nonempty
    have hle := hbound s' hs'
    simp only [isizeMax] at hle
    rw [BitVec.toNat_setWidth_of_le (by omega), (hkept s' hs').positioned.number_last hlast,
      BitVec.toNat_ofNat]
    exact ⟨s', hs', by omega, fun _ => by omega⟩
  | transactionReceipt hash =>
    rw [hreq] at hthread
    obtain ⟨s', a, hs', hcritical, rfl⟩ := RequestThread.exists_read hthread hdone
    obtain ⟨_, hfound, hok⟩ := Option.map_eq_some_iff.mp hcritical
    cases hok
    cases a with
    | none =>
      rw [hreq] at hheight
      cases hheight
    | some r =>
      rw [hreq] at hheight
      exact ⟨s', hs', (hkept s' hs').toNat_blockNumber_lt hfound hheight, False.elim⟩
  | _ =>
    rw [hreq] at hheight
    cases hheight

/-- The height never goes back: a request for the newest block shows at least every height that
was shown before it started, whatever is served next to it. -/
theorem height_mono (h : Reachable c evm db) (requests : ι → ServiceRequest) {s₁ : List ι}
    (s₂ : List ι) {i j : ι} {before after : ServiceResponse} {n m : U256} :
    let p := startServices c evm requests ⟨db, false⟩
    (p.run (s₁ ++ s₂)).shared.ethDb.blocks.length ≤ isizeMax →
      (p.run s₁).threads i = .done (some (.ok before)) → (requests i).height before = some n →
      j ∉ s₁ → (requests j).AsksNewest →
      (p.run (s₁ ++ s₂)).threads j = .done (some (.ok after)) →
      (requests j).height after = some m → n ≤ m := by
  intro p hlen hi hn hj hasks hdone hm
  have hannounces : p.Announces (Runtime.Kept c) Runtime.Later _ :=
    startServices_announces (h.kept false) evm requests
  have hmoves := sections_moves c evm requests
  have hkept : ∀ s, (p.run s).shared.Kept c := fun s => (hannounces.run hmoves s).1.shared
  have hle : ∀ {s s'}, s <+: s' → (p.run s).shared.ethDb.blocks.length ≤
      (p.run s').shared.ethDb.blocks.length :=
    fun hs => (hannounces.run_longer hmoves hs).blocks.length_le
  obtain ⟨s₃, hs₃, hlt, _⟩ := exists_height_turn rfl (fun s _ => hkept s)
    (fun s hs => (hle (hs.trans (List.prefix_append s₁ s₂))).trans hlen) hi hn
  rw [Pool.run_append] at hdone
  obtain ⟨s₄, hs₄, _, hnewest⟩ := exists_height_turn (p := p.run s₁)
    (Pool.threads_run_of_not_mem hj) (fun s _ => by rw [← Pool.run_append]; exact hkept _)
    (fun s hs => by
      rw [← Pool.run_append]
      exact (hle ((List.prefix_append_right_inj s₁).mpr hs)).trans hlen) hdone hm
  have hgrown := hle (hs₃.trans (List.prefix_append s₁ s₄))
  rw [Pool.run_append] at hgrown
  have heq := hnewest hasks
  exact BitVec.le_def.mpr (by omega)

/-- After a submission a block number is shown that is not below the one before it. -/
theorem height_mono_creation :
    let requests : Fin 3 → ServiceRequest
      | 0 => .blockNumber
      | 1 => .node (.sendRawTransaction 5
          [0xc9, 0x80, 0x80, 0x80, 0x80, 0x80, 0x80, 0x1b, 0x01, 0x01])
      | 2 => .blockNumber
    let p := startServices .sample .sample requests ⟨HashMapEthDB.new .sample 0, false⟩
    (p.run [0]).threads 0 = .done (some (.ok (.quantity 0))) ∧
      (p.run ([0] ++ [1, 2])).threads 2 = .done (some (.ok (.quantity 1))) ∧
      (0 : U256) ≤ 1 := by
  intro requests p
  have hbefore : ((p.run [0]).threads 0).answer = some (some (.ok (.quantity 0))) := by
    decide +kernel
  have hafter : ((p.run ([0] ++ [1, 2])).threads 2).answer =
      some (some (.ok (.quantity 1))) := by
    decide +kernel
  have h0 := Thread.answer_eq_some_iff.mp hbefore
  have h2 := Thread.answer_eq_some_iff.mp hafter
  exact ⟨h0, h2, height_mono (reachable_new .sample .sample 0) requests (i := 0) (j := 2) [1, 2]
    (by decide +kernel) h0 rfl (by decide) trivial h2 rfl⟩

/-! ## Requests that only read -/

/-- The request may write: it takes the write guard. -/
def ServiceRequest.takesWriteGuard : ServiceRequest → Bool
  | .node (.sendRawTransaction _ _) => true
  | .node (.state (.call _ _)) => true
  | .node (.state (.estimateGas _ _)) => true
  | _ => false

/-- A read is silent when what follows it is. -/
theorem RequestThread.silent_lock_getDb {α β : Type}
    {critical : HashMapEthDB → Outcome (Except RpcError α)} {next : α → RequestThread β}
    (h : ∀ a, (next a).Silent) : (lock (getDb critical) next).Silent := by
  intro runtime
  refine ⟨getDb_snd critical runtime, ?_⟩
  dsimp only
  split
  · exact h _
  · trivial
  · trivial

omit [DecidableEq ι] in
/-- A request that takes no write guard changes nothing. -/
theorem ServiceRequest.silent_thread {req : ServiceRequest} (h : req.takesWriteGuard = false)
    (c : Crypto) (evm : Evm) : (req.thread c evm).Silent := by
  cases req with
  | node req =>
    apply Thread.silent_map.mpr
    cases req with
    | sendRawTransaction now raw => cases h
    | state req =>
      cases req with
      | call creq tag => cases h
      | estimateGas creq tag => cases h
      | balance address tag =>
        exact RequestThread.silent_lock_getDb fun n =>
          RequestThread.silent_lock_getDb fun states => trivial
      | transactionCount k tag =>
        exact RequestThread.silent_lock_getDb fun n =>
          RequestThread.silent_lock_getDb fun nonce => trivial
  | blockNumber => exact RequestThread.silent_lock_getDb fun n => trivial
  | blockByNumber tag full => exact RequestThread.silent_lock_getDb fun block => trivial
  | transactionReceipt hash => exact RequestThread.silent_lock_getDb fun receipt => trivial
  | _ => trivial

/-- Requests that take no write guard are not noticed: without their turns the store is the same,
and every other request is where it would be, with the same response. -/
theorem run_filter_takesWriteGuard (c : Crypto) (evm : Evm) (requests : ι → ServiceRequest)
    (runtime : Runtime) (schedule : List ι) :
    let p := startServices c evm requests runtime
    let writes := schedule.filter fun i => (requests i).takesWriteGuard
    (p.run schedule).shared = (p.run writes).shared ∧
      ∀ i, (requests i).takesWriteGuard = true →
        (p.run schedule).threads i = (p.run writes).threads i := by
  intro p writes
  have hstart : Pool.SameBut (fun i => (requests i).takesWriteGuard = false) p p :=
    ⟨rfl, fun _ _ => rfl, fun _ hi => ServiceRequest.silent_thread hi c evm⟩
  have hrun := hstart.run_filter schedule
  have hwrites : (schedule.filter fun i => ¬ (requests i).takesWriteGuard = false) = writes :=
    List.filter_congr fun i _ => by
      simp only [Bool.not_eq_false, Bool.decide_eq_true]
  rw [hwrites] at hrun
  exact ⟨hrun.shared, fun i hi => hrun.threads i (by rw [hi]; exact Bool.noConfusion)⟩

end

end Tethereum
