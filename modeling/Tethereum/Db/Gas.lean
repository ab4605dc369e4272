import Tethereum.Db.Replay

/-!
# The gas limit of a transaction

A transaction is run with a gas limit of `u64::MAX`; the limit it was signed with
is never read. So the signed limit bounds the execution only where it exceeds
every `u64`.
-/

namespace Tethereum

/-- A successful run uses at most the gas it was given. -/
structure GasLaw (evm : Evm) : Prop where
  /-- For a message call. -/
  call : ∀ (backend : Backend) (metadataGas : U64) (caller address : H160) (value : U256)
    (data : List UInt8) (gasLimit : U64),
    (evm.transactCall backend metadataGas caller address value data gasLimit).reason.isSucceed →
    (evm.transactCall backend metadataGas caller address value data gasLimit).usedGas ≤ gasLimit
  /-- For a contract creation. -/
  create : ∀ (backend : Backend) (metadataGas : U64) (caller : H160) (value : U256)
    (initCode : List UInt8) (gasLimit : U64),
    (evm.transactCreate backend metadataGas caller value initCode gasLimit).reason.isSucceed →
    (evm.transactCreate backend metadataGas caller value initCode gasLimit).usedGas ≤ gasLimit

/-- A machine that goes on as before below a block number, and from there on succeeds and
uses up all gas. -/
def Evm.exhausting (evm : Evm) (n : Nat) : Evm where
  transactCall backend metadataGas caller address value data gasLimit :=
    if backend.blockNumber.toNat < n
    then evm.transactCall backend metadataGas caller address value data gasLimit
    else ⟨.succeed .stopped, [], gasLimit, [], []⟩
  transactCreate backend metadataGas caller value initCode gasLimit :=
    if backend.blockNumber.toNat < n
    then evm.transactCreate backend metadataGas caller value initCode gasLimit
    else ⟨.succeed .stopped, (), gasLimit, [], []⟩
  call := evm.call

/-- Using up all gas keeps to the limit. -/
theorem GasLaw.exhausting {evm : Evm} (law : GasLaw evm) (n : Nat) :
    GasLaw (evm.exhausting n) where
  call backend metadataGas caller address value data gasLimit := by
    simp only [Evm.exhausting]
    split
    · exact law.call _ _ _ _ _ _ _
    · exact fun _ => BitVec.le_refl gasLimit
  create backend metadataGas caller value initCode gasLimit := by
    simp only [Evm.exhausting]
    split
    · exact law.create _ _ _ _ _ _
    · exact fun _ => BitVec.le_refl gasLimit

/-- The exhausting machine is the old one below the number. -/
theorem Evm.agreeBelow_exhausting (evm : Evm) (n : Nat) :
    Evm.AgreeBelow n evm (evm.exhausting n) := by
  intro self sender value to' data hlt
  rw [← self.toNat_blockNumber_view] at hlt
  cases to' with
  | none => simp only [EthDBBackend.run, Evm.exhausting, if_pos hlt]
  | some h => simp only [EthDBBackend.run, Evm.exhausting, if_pos hlt]

/-- From the number on a transaction succeeds and uses up all gas. -/
theorem EthDBBackend.run_exhausting {self : EthDBBackend} {n : Nat}
    (h : n ≤ self.block.header.number.toNat) (evm : Evm) (sender : H160) (value : U256)
    («to» : Option H160) (data : List UInt8) :
    (self.run (evm.exhausting n) sender value «to» data).reason = .succeed .stopped ∧
      (self.run (evm.exhausting n) sender value «to» data).usedGas = maxGas := by
  have hlt : ¬ self.view.blockNumber.toNat < n := by
    rw [self.toNat_blockNumber_view]
    exact Nat.not_lt.mpr h
  cases «to» with
  | none => simp only [run, Evm.exhausting, if_neg hlt, and_self]
  | some h => simp only [run, Evm.exhausting, if_neg hlt, and_self]

/-- A successful run uses at most `u64::MAX` gas. -/
theorem GasLaw.usedGas_le {evm : Evm} (law : GasLaw evm) {self : EthDBBackend} {sender : H160}
    {value : U256} {«to» : Option H160} {data : List UInt8}
    (hr : (self.run evm sender value «to» data).reason.isSucceed) :
    (self.run evm sender value «to» data).usedGas ≤ EthDBBackend.maxGas := by
  cases «to» with
  | none => exact law.create _ _ _ _ _ _ hr
  | some h => exact law.call _ _ _ _ _ _ _ hr

/-! ## A metered machine -/

/-- The sample machine, except that a run needs its gas. -/
def Evm.metered : Evm where
  transactCall backend metadataGas caller address value data gasLimit :=
    if 21000 ≤ gasLimit
    then Evm.sample.transactCall backend metadataGas caller address value data gasLimit
    else ⟨.error, [], gasLimit, [], []⟩
  transactCreate backend metadataGas caller value initCode gasLimit :=
    if 53000 ≤ gasLimit
    then Evm.sample.transactCreate backend metadataGas caller value initCode gasLimit
    else ⟨.error, (), gasLimit, [], []⟩
  call := Evm.sample.call

/-- The metered machine keeps to the limit. -/
theorem GasLaw.metered : GasLaw .metered where
  call backend metadataGas caller address value data gasLimit hr := by
    simp only [Evm.metered] at hr ⊢
    by_cases hgas : 21000 ≤ gasLimit
    · simp only [if_pos hgas, Evm.sample] at hr ⊢
      split
      · exact BitVec.le_def.mpr (Nat.zero_le _)
      · exact hgas
    · rw [if_neg hgas] at hr
      contradiction
  create backend metadataGas caller value initCode gasLimit hr := by
    simp only [Evm.metered] at hr ⊢
    by_cases hgas : 53000 ≤ gasLimit
    · simp only [if_pos hgas, Evm.sample] at hr ⊢
      split
      · exact BitVec.le_def.mpr (Nat.zero_le _)
      · exact hgas
    · rw [if_neg hgas] at hr
      contradiction

/-! ## Submissions -/

namespace HashMapEthDB

/-- An accepted transaction used at most the gas it was signed with, and one whose execution
needs more is refused and changes nothing. -/
def GasBounded (c : Crypto) (evm : Evm) (now : U64) (db : HashMapEthDB)
    (tx : SignedTransaction) : Prop :=
  ∀ last ∈ db.blocks.getLast?, ∀ latest ∈ db.accounts.getLast?,
    let used := (submitRun c evm now tx last latest).usedGas.toNat
    (∀ db', db.submitTx c evm now tx = some (.ok (), db') →
      used ≤ tx.transaction.unsigned.gas.toNat) ∧
    (tx.transaction.unsigned.gas.toNat < used →
      db.submitTx c evm now tx = some (.error "invalid transaction received", db))

section

variable {c : Crypto} {evm : Evm} {now : U64} {db : HashMapEthDB} {tx : SignedTransaction}

/-- The signed limit bounds a submission when a run that succeeds keeps to it. -/
theorem gasBounded_iff_usedGas_le {last : Block} {latest : Accounts}
    (hb : db.blocks.getLast? = some last) (ha : db.accounts.getLast? = some latest) :
    GasBounded c evm now db tx ↔ ((submitRun c evm now tx last latest).reason.isSucceed →
      (submitRun c evm now tx last latest).usedGas.toNat ≤
        tx.transaction.unsigned.gas.toNat) := by
  simp only [GasBounded, hb, ha, Option.mem_some_iff, forall_eq', submitTx_eq hb ha]
  by_cases hr : (submitRun c evm now tx last latest).reason.isSucceed
  · simp only [hr, if_true, Option.some.injEq, Prod.mk.injEq, true_and, forall_eq', reduceCtorEq,
      false_and, imp_false, not_lt, and_self, forall_const]
  · simp only [hr, if_false, Option.some.injEq, Prod.mk.injEq, reduceCtorEq, false_and,
      false_implies, implies_true, and_self, Bool.false_eq_true]

/-- On a reachable store the signed gas limit bounds the execution on every machine that
keeps to the limit it is given exactly when it is at least `u64::MAX`. -/
theorem Reachable.gasBounded_iff (h : Reachable c evm db) (law : GasLaw evm) (now : U64)
    (tx : SignedTransaction) :
    (∀ evm', GasLaw evm' → Reachable c evm' db → GasBounded c evm' now db tx) ↔
      EthDBBackend.maxGas.toNat ≤ tx.transaction.unsigned.gas.toNat := by
  obtain ⟨last, hb⟩ := h.wellFormed.exists_last
  obtain ⟨latest, ha⟩ := h.wellFormed.exists_latest
  constructor
  · intro hall
    -- the machine may do anything for the new block, since no old one has its number
    have hreach := h.replay (evm.agreeBelow_exhausting db.blocks.length)
    have hbounded := hall _ (law.exhausting db.blocks.length) hreach
    have hnum := h.wellFormed.toNat_number_next hb now [tx]
    have hhigh : db.blocks.length ≤
        (submitBackend c tx (last.next c now [tx]) last latest).block.header.number.toNat :=
      le_of_eq hnum.symm
    obtain ⟨hreason, hgas⟩ := EthDBBackend.run_exhausting hhigh evm tx.sender
      tx.transaction.unsigned.value tx.transaction.receiver
      tx.transaction.unsigned.data.toList
    have hle := (gasBounded_iff_usedGas_le hb ha).mp hbounded (by rw [submitRun, hreason]; rfl)
    rw [submitRun, hgas] at hle
    exact hle
  · intro hmax evm' law' _
    rw [gasBounded_iff_usedGas_le hb ha]
    intro hr
    exact (BitVec.le_def.mp (law'.usedGas_le hr)).trans hmax

/-- A transaction that is signed with all the gas there is. -/
theorem gasBounded_iff_metered :
    let tx : SignedTransaction :=
      ⟨⟨{ gas := BitVec.allOnes 256 }, 27, 1, 1, .zero⟩, .zero, none⟩
    GasBounded .sample .metered 5 (new .sample 0) tx :=
  ((reachable_new .sample .metered 0).gasBounded_iff GasLaw.metered 5
    ⟨⟨{ gas := BitVec.allOnes 256 }, 27, 1, 1, .zero⟩, .zero, none⟩).mpr (by decide) _
    GasLaw.metered (reachable_new .sample .metered 0)

/-- A creation that is signed with no gas at all is accepted and uses some. -/
theorem submitTx_without_gas :
    ∃ db db' tx last latest, GasLaw .metered ∧ Reachable .sample .metered db ∧
      tx.transaction.unsigned.gas = 0 ∧
      db.submitTx .sample .metered 5 tx = some (.ok (), db') ∧
      db.blocks.getLast? = some last ∧ db.accounts.getLast? = some latest ∧
      (submitRun .sample .metered 5 tx last latest).usedGas = 53000 ∧
      ¬ GasBounded .sample .metered 5 db tx := by
  refine ⟨new .sample 0, _, ⟨⟨{}, 27, 1, 1, .zero⟩, .zero, none⟩, _, _, GasLaw.metered,
    reachable_new _ _ 0, rfl, (submitTx_eq rfl rfl).trans (if_pos rfl), rfl, rfl, rfl, ?_⟩
  rw [gasBounded_iff_usedGas_le rfl rfl]
  intro hbounded
  exact absurd (hbounded rfl) (by decide)

end

end HashMapEthDB

end Tethereum
