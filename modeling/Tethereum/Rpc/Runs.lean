import Tethereum.Rpc.Submission

/-!
# Runs of submissions

A node serves raw transactions one after another, starting from a new store. The
signature is recovered, but neither its shape, nor the chain it is bound to, nor
the signed nonce is compared with anything: what is included is what the machine
executes with success.
-/

namespace Tethereum

open HashMapEthDB EthClient

/-- A raw transaction with the clock reading at which it is served. -/
abbrev RawRequest := U64 × List UInt8

/-- Serve raw transactions one after another. -/
def submitAll (c : Crypto) (evm : Evm) (requests : List RawRequest) (runtime : Runtime) :
    Runtime :=
  requests.foldl (fun runtime req => (sendRawTransaction c evm req.1 req.2 runtime).2) runtime

/-- The transactions in the blocks, oldest first. -/
def included (db : HashMapEthDB) : List SignedTransaction :=
  db.blocks.flatMap (·.transactions)

section

variable {c : Crypto} {evm : Evm}

/-- What each execution of an accepted transaction keeps holds after every run. -/
theorem submitAll_invariant {P : HashMapEthDB → Prop} {requests : List RawRequest}
    {runtime : Runtime} (hb : runtime.ethDb.blocks ≠ []) (ha : runtime.ethDb.accounts ≠ [])
    (h : P runtime.ethDb)
    (hstep : ∀ req ∈ requests, ∀ tx db db', P db → Accepted c req.2 tx →
      Executes c evm req.1 tx db db' → P db') :
    P (submitAll c evm requests runtime).ethDb := by
  induction requests generalizing runtime with
  | nil => exact h
  | cons req requests ih =>
    have hrest := fun req' hmem => hstep req' (List.mem_cons_of_mem _ hmem)
    rw [submitAll, List.foldl_cons]
    rcases sendRawTransaction_cases hb ha req.2 runtime.poisoned with
      ⟨e, hsend⟩ | ⟨tx, db', hacc, hexec, hsend⟩
    · have hnext : (sendRawTransaction c evm req.1 req.2 runtime).2 = runtime :=
        congrArg Prod.snd hsend
      rw [hnext]
      exact ih hb ha h hrest
    · have hnext : (sendRawTransaction c evm req.1 req.2 runtime).2 = ⟨db', false⟩ :=
        congrArg Prod.snd hsend
      have hP := hstep req List.mem_cons_self tx _ db' h hacc hexec
      obtain ⟨last, latest, _, _, _, rfl⟩ := hexec
      rw [hnext]
      exact ih (List.append_ne_nil_of_right_ne_nil _ (List.cons_ne_nil _ _))
        (List.append_ne_nil_of_right_ne_nil _ (List.cons_ne_nil _ _)) hP hrest

/-- An execution includes the transaction. -/
theorem included_of_executes {now : U64} {tx : SignedTransaction} {db db' : HashMapEthDB}
    (h : Executes c evm now tx db db') : included db' = included db ++ [tx] := by
  obtain ⟨last, latest, _, _, _, rfl⟩ := h
  simp only [included, extend, List.flatMap_append, List.flatMap_cons, List.flatMap_nil,
    Block.transactions_next, List.append_nil]

/-- Every included transaction was accepted from a request. -/
theorem accepted_of_included (now : U64) (requests : List RawRequest) :
    ∀ tx ∈ included (submitAll c evm requests ⟨HashMapEthDB.new c now, false⟩).ethDb,
      ∃ req ∈ requests, Accepted c req.2 tx := by
  apply submitAll_invariant (P := fun db => ∀ tx ∈ included db,
    ∃ req ∈ requests, Accepted c req.2 tx) (List.cons_ne_nil _ _) (List.cons_ne_nil _ _)
  · intro tx hmem
    contradiction
  · intro req hreq tx db db' h hacc hexec tx' hmem
    rw [included_of_executes hexec] at hmem
    rcases List.mem_append.mp hmem with hmem | hmem
    · exact h tx' hmem
    · obtain rfl := List.mem_singleton.mp hmem
      exact ⟨req, hreq, hacc⟩

/-! ## Signatures and chains -/

/-- The signature has a low `s`, and `v` binds to no chain or to chain 127. -/
def ValidForChain (c : Crypto) (t : UnverifiedTransaction) : Prop :=
  c.isLowS t.signature.s = true ∧ (t.v < 35 ∨ t.v = 289 ∨ t.v = 290)

/-- A signed transaction is bound to no chain or to chain 127 exactly by these `v`. -/
theorem chainId_iff {t : UnverifiedTransaction} (hu : t.isUnsigned = false) :
    (t.chainId = none ∨ t.chainId = some chainId) ↔ t.v < 35 ∨ t.v = 289 ∨ t.v = 290 := by
  rw [UnverifiedTransaction.chainId_eq_none_iff hu, UnverifiedTransaction.chainId_eq_some_iff hu,
    ← BitVec.toNat_inj (y := 289), ← BitVec.toNat_inj (y := 290)]
  rfl

/-- An accepted transaction passes the basic check exactly when it is valid for the chain. -/
theorem Accepted.verifyBasic_iff {raw : List UInt8} {tx : SignedTransaction}
    (h : Accepted c raw tx) :
    tx.transaction.verifyBasic c true (some chainId) = .ok () ↔
      ValidForChain c tx.transaction := by
  obtain ⟨hu, _⟩ := (SignedTransaction.new_eq_ok_iff c).mp h.2
  rw [UnverifiedTransaction.verifyBasic_eq_ok_iff hu, chainId_iff hu, ValidForChain]

variable (c evm)

/-- After every run, an included transaction passes the basic check exactly when it is valid
for the chain; so all of them pass it when every accepted transaction is valid. -/
theorem submitAll_verified (now : U64) (requests : List RawRequest) :
    (∀ tx ∈ included (submitAll c evm requests ⟨HashMapEthDB.new c now, false⟩).ethDb,
      tx.transaction.verifyBasic c true (some chainId) = .ok () ↔
        ValidForChain c tx.transaction) ∧
    ((∀ req ∈ requests, ∀ tx, Accepted c req.2 tx → ValidForChain c tx.transaction) →
      ∀ tx ∈ included (submitAll c evm requests ⟨HashMapEthDB.new c now, false⟩).ethDb,
        tx.transaction.verifyBasic c true (some chainId) = .ok ()) := by
  have haccepted : ∀ tx ∈ included (submitAll c evm requests _).ethDb, _ :=
    accepted_of_included now requests
  refine ⟨?_, ?_⟩
  · intro tx hmem
    obtain ⟨_, _, hacc⟩ := haccepted tx hmem
    exact hacc.verifyBasic_iff
  · intro hvalid tx hmem
    obtain ⟨req, hreq, hacc⟩ := haccepted tx hmem
    exact hacc.verifyBasic_iff.mpr (hvalid req hreq tx hacc)

/-- A valid creation is included by the sample machine, and it passes. -/
theorem submitAll_verified_smallest :
    let raw := [0xc9, 0x80, 0x80, 0x80, 0x80, 0x80, 0x80, 0x1b, 0x01, 0x01]
    let txs := included
      (submitAll .sample .sample [(1, raw)] ⟨HashMapEthDB.new .sample 0, false⟩).ethDb
    txs.length = 1 ∧
      ∀ tx ∈ txs, tx.transaction.verifyBasic .sample true (some chainId) = .ok () := by
  refine ⟨by decide +kernel, (submitAll_verified .sample .sample 0 _).2 ?_⟩
  intro req hreq tx hacc
  obtain rfl := List.mem_singleton.mp hreq
  have hvalid : ∀ t ∈ (UnverifiedTransaction.decode .sample { bytes :=
      [0xc9, 0x80, 0x80, 0x80, 0x80, 0x80, 0x80, 0x1b, 0x01, 0x01] }).toOption,
      Crypto.sample.isLowS t.signature.s = true ∧ (t.v < 35 ∨ t.v = 289 ∨ t.v = 290) := by
    decide +kernel
  exact hvalid _ (by rw [hacc.1]; rfl)

/-- A transaction signed for chain 1, and one with a high `s`, are included as well. -/
theorem submitAll_unverified :
    let chain1 := [0xc9, 0x80, 0x80, 0x80, 0x80, 0x80, 0x80, 0x25, 0x01, 0x01]
    let highS := [0xe9, 0x80, 0x80, 0x80, 0x80, 0x80, 0x80, 0x1b, 0x01, 0xa0, 0x80] ++
      List.replicate 31 0
    let txs := included (submitAll .sample .sample [(1, chain1), (2, highS)]
      ⟨HashMapEthDB.new .sample 0, false⟩).ethDb
    txs.map (fun tx => tx.transaction.verifyBasic .sample true (some chainId)) =
      [.error "verify_basic: invalid chain id",
        .error "UnverifiedTransaction.check_low_s: invalid signature"] ∧
      ¬ ∀ tx ∈ txs, tx.transaction.verifyBasic .sample true (some chainId) = .ok () :=
  ⟨by decide +kernel, by decide +kernel⟩

end

end Tethereum
