import Tethereum.Rpc.Queries

/-!
# Estimates and submissions

An estimate and a submission of the same transaction run the machine on the same
accounts, under another gas price and on another block. On a machine that does
not look at these, the runs end alike; the submission looks at the exit reason,
and the estimate responds with the gas whatever it is.
-/

namespace Tethereum

open HashMapEthDB EthClient

/-- The request that asks for the gas of a transaction. -/
def CallRequest.ofTransaction (tx : SignedTransaction) : CallRequest where
  «from» := some tx.sender
  «to» := tx.transaction.receiver
  value := some tx.transaction.unsigned.value
  data := some tx.transaction.unsigned.data.toList

/-- The machine's run of a transaction on a backend. -/
def SignedTransaction.runOn (evm : Evm) (tx : SignedTransaction) (backend : EthDBBackend) :
    Execution (Option (List UInt8)) :=
  backend.run evm tx.sender tx.transaction.unsigned.value tx.transaction.receiver
    tx.transaction.unsigned.data.toList

/-- How the run of a transaction on these accounts ends, and with how much gas, depends neither
on the gas price nor on the block. -/
def EnvironmentFree (evm : Evm) (tx : SignedTransaction) (accounts : Accounts) : Prop :=
  ∀ backend backend' : EthDBBackend, backend.accounts = accounts → backend'.accounts = accounts →
    backend.sender = tx.sender → backend'.sender = tx.sender →
      (tx.runOn evm backend).reason = (tx.runOn evm backend').reason ∧
        (tx.runOn evm backend).usedGas = (tx.runOn evm backend').usedGas

/-- The run of a transaction on these accounts succeeds. -/
def SucceedsOn (evm : Evm) (tx : SignedTransaction) (accounts : Accounts) : Prop :=
  ∀ backend : EthDBBackend, backend.accounts = accounts → backend.sender = tx.sender →
    (tx.runOn evm backend).reason.isSucceed = true

/-- The estimate at the latest block succeeds exactly when the submission does, and then with
the gas that the execution uses. -/
def EstimateAgrees (c : Crypto) (evm : Evm) (now : U64) (db : HashMapEthDB)
    (tx : SignedTransaction) : Prop :=
  let response := (EthClient.estimateGas evm (.ofTransaction tx) (some .latest) ⟨db, false⟩).1
  ((∃ gas, response = some (.ok gas)) ↔ ∃ db', db.submitTx c evm now tx = some (.ok (), db')) ∧
    ∀ gas last latest, response = some (.ok gas) →
      (∃ db', db.submitTx c evm now tx = some (.ok (), db')) →
      db.blocks.getLast? = some last → db.accounts.getLast? = some latest →
        gas = (submitRun c evm now tx last latest).usedGas.setWidth 256

section

variable {c : Crypto} {evm : Evm} {db : HashMapEthDB} {tx : SignedTransaction}
  {latest : Accounts} {last : Block}

/-- The estimate of a transaction responds with the gas of its run, whatever the exit reason. -/
theorem estimateGas_ofTransaction (evm : Evm) (tx : SignedTransaction) (h : db.WellFormed c)
    (ha : db.accounts.getLast? = some latest) (hb : db.blocks.getLast? = some last) :
    (EthClient.estimateGas evm (.ofTransaction tx) (some .latest) ⟨db, false⟩).1 =
      some (.ok ((tx.runOn evm (requestBackend tx.sender latest last)).usedGas.setWidth 256)) := by
  have htag : (some BlockNumber.latest).getD .latest = .latest := rfl
  obtain ⟨n, hn, hget⟩ := resolve_newest h.positioned h.bounded (Or.inl htag) ha
  rw [estimateGas_run hn hget hb]
  rfl

/-- A submission succeeds exactly when its run does. -/
theorem submitTx_eq_ok_iff (ha : db.accounts.getLast? = some latest)
    (hb : db.blocks.getLast? = some last) (now : U64) :
    (∃ db', db.submitTx c evm now tx = some (.ok (), db')) ↔
      (submitRun c evm now tx last latest).reason.isSucceed = true := by
  rw [submitTx_eq hb ha]
  split
  · rename_i hr
    exact iff_of_true ⟨_, rfl⟩ hr
  · rename_i hr
    refine iff_of_false ?_ hr
    rintro ⟨db', he⟩
    cases he

/-- Without a look at the environment, a run succeeds on every backend as it does on the one
that a submission sets up. -/
theorem EnvironmentFree.succeedsOn_iff (hfree : EnvironmentFree evm tx latest) (c : Crypto)
    (now : U64) (last : Block) :
    SucceedsOn evm tx latest ↔
      (submitRun c evm now tx last latest).reason.isSucceed = true := by
  constructor
  · intro hs
    exact hs (submitBackend c tx (last.next c now [tx]) last latest) rfl rfl
  · intro hr backend hacc hsender
    rw [(hfree backend (submitBackend c tx (last.next c now [tx]) last latest) hacc rfl hsender
      rfl).1]
    exact hr

/-- On a reachable store, and for a run that does not look at its environment, the estimate of
a transaction agrees with its submission exactly when the run on the latest accounts
succeeds. -/
theorem HashMapEthDB.Reachable.estimateAgrees_iff (h : Reachable c evm db)
    (ha : db.accounts.getLast? = some latest) (hfree : EnvironmentFree evm tx latest)
    (now : U64) : EstimateAgrees c evm now db tx ↔ SucceedsOn evm tx latest := by
  obtain ⟨last, hb⟩ := h.wellFormed.exists_last
  have hresponse := estimateGas_ofTransaction evm tx h.wellFormed ha hb
  rw [hfree.succeedsOn_iff c now last, ← submitTx_eq_ok_iff ha hb now]
  constructor
  · rintro ⟨hiff, _⟩
    exact hiff.mp ⟨_, hresponse⟩
  · intro hsubmit
    refine ⟨iff_of_true ⟨_, hresponse⟩ hsubmit, ?_⟩
    intro gas last' latest' hgas _ hb' ha'
    rw [hb] at hb'
    rw [ha] at ha'
    rw [hresponse] at hgas
    cases hb'
    cases ha'
    cases hgas
    rw [(hfree (requestBackend tx.sender latest last)
      (submitBackend c tx (last.next c now [tx]) last latest) rfl rfl rfl rfl).2]
    rfl

end

/-- A machine on which every message call reverts, after it has used some gas. -/
def Evm.reverting : Evm :=
  { Evm.sample with transactCall := fun _ _ _ _ _ _ _ => ⟨.revert, [], 21000, [], []⟩ }

/-- The sample machine only looks at the accounts. -/
theorem environmentFree_sample (tx : SignedTransaction) (accounts : Accounts) :
    EnvironmentFree .sample tx accounts := by
  intro backend backend' hacc hacc' _ _
  have hbasic : backend.view.basic = backend'.view.basic := by
    funext address
    simp only [EthDBBackend.view, EthDBBackend.basic, hacc, hacc']
  unfold SignedTransaction.runOn EthDBBackend.run
  cases tx.transaction.receiver with
  | some to' =>
    simp only [Evm.sample, hbasic]
    split
    · exact ⟨rfl, rfl⟩
    · exact ⟨rfl, rfl⟩
  | none =>
    simp only [Evm.sample, hbasic]
    split
    · exact ⟨rfl, rfl⟩
    · exact ⟨rfl, rfl⟩

/-- On the genesis store of the sample machine, a creation is estimated as it is executed. -/
theorem HashMapEthDB.estimateAgrees_iff_genesis :
    let tx : SignedTransaction := ⟨⟨{}, 27, 1, 1, .zero⟩, .zero, none⟩
    EstimateAgrees .sample .sample 5 (new .sample 0) tx := by
  intro tx
  have hfree := environmentFree_sample tx ∅
  have hrun : SucceedsOn .sample tx ∅ :=
    (hfree.succeedsOn_iff .sample 5 (.genesis .sample 0)).mpr rfl
  exact ((reachable_new .sample .sample 0).estimateAgrees_iff rfl hfree 5).mpr hrun

/-- A call that reverts is refused when it is submitted, and yet estimated. -/
theorem EthClient.estimateGas_reverting :
    ∃ db tx gas, Reachable .sample .reverting db ∧
      (∀ latest ∈ db.accounts.getLast?, EnvironmentFree .reverting tx latest) ∧
      (EthClient.estimateGas .reverting (.ofTransaction tx) (some .latest) ⟨db, false⟩).1 =
        some (.ok gas) ∧
      db.submitTx .sample .reverting 5 tx = some (.error "invalid transaction received", db) ∧
      ¬ EstimateAgrees .sample .reverting 5 db tx := by
  have hestimate : (EthClient.estimateGas .reverting
      (.ofTransaction ⟨⟨{ action := .call .zero }, 27, 1, 1, .zero⟩, .zero, none⟩)
      (some .latest) ⟨new .sample 0, false⟩).1 = some (.ok 21000) := rfl
  have hsubmit : (new .sample 0).submitTx .sample .reverting 5
      ⟨⟨{ action := .call .zero }, 27, 1, 1, .zero⟩, .zero, none⟩ =
        some (.error "invalid transaction received", new .sample 0) :=
    (submitTx_eq rfl rfl).trans (if_neg Bool.false_ne_true)
  refine ⟨_, _, _, reachable_new _ _ 0, ?_, hestimate, hsubmit, ?_⟩
  · rintro latest _ backend backend' _ _ _ _
    exact ⟨rfl, rfl⟩
  · rintro ⟨hiff, _⟩
    obtain ⟨db', hdb'⟩ := hiff.mp ⟨_, hestimate⟩
    rw [hsubmit] at hdb'
    cases hdb'

end Tethereum
