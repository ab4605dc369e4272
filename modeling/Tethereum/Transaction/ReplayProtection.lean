import Tethereum.Transaction.Types

/-!
# Chain ids in `v`

The chain id and the recovery bit share the 64 bits of `v`. The packing computes
in wrapping arithmetic, and so it is exact only where the packed value fits. The
readers take the range of `v` apart on their own, and the basic check is said in
terms of `v` alone.
-/

namespace Tethereum

/-- The value that `v` should carry, in exact arithmetic. -/
def packedV (v : UInt8) (chainId : Option U64) : Nat :=
  v.toNat + chainId.elim 27 fun n => 35 + 2 * n.toNat

section

variable {v w : UInt8} {chainId chainId' : Option U64}

/-- A recovery bit is at most one. -/
theorem toNat_le_one (hv : v = 0 ∨ v = 1) : v.toNat ≤ 1 := by
  rcases hv with rfl | rfl
  · exact Nat.zero_le 1
  · exact Nat.le_refl 1

/-- The packed value fits if the chain id leaves room for it. -/
theorem packedV_lt (hv : v = 0 ∨ v = 1) (hc : ∀ n ∈ chainId, 36 + 2 * n.toNat < 2 ^ 64) :
    packedV v chainId < 2 ^ 64 := by
  have hv1 := toNat_le_one hv
  cases chainId with
  | none =>
    simp only [packedV, Option.elim]
    omega
  | some n =>
    have hn := hc n rfl
    simp only [packedV, Option.elim]
    omega

/-- Packing computes the value modulo `2 ^ 64`. -/
theorem toNat_addChainReplayProtection :
    (addChainReplayProtection (BitVec.ofNat 64 v.toNat) chainId).toNat =
      packedV v chainId % 2 ^ 64 := by
  have hlt := v.toNat_lt
  cases chainId with
  | none =>
    simp only [addChainReplayProtection, packedV, Option.elim, BitVec.ofNat_eq_ofNat,
      BitVec.toNat_add, BitVec.toNat_ofNat]
    omega
  | some n =>
    simp only [addChainReplayProtection, packedV, Option.elim, BitVec.ofNat_eq_ofNat,
      BitVec.toNat_add, BitVec.toNat_mul, BitVec.toNat_ofNat]
    omega

/-- Different recovery bits or chain ids have different values. -/
theorem packedV_inj (hv : v = 0 ∨ v = 1) (hw : w = 0 ∨ w = 1)
    (h : packedV v chainId = packedV w chainId') : v = w ∧ chainId = chainId' := by
  have hv1 := toNat_le_one hv
  have hw1 := toNat_le_one hw
  rw [← UInt8.toNat_inj]
  simp only [packedV] at h
  cases chainId with
  | none =>
    cases chainId' with
    | none =>
      simp only [Option.elim] at h
      exact ⟨by omega, rfl⟩
    | some n' =>
      simp only [Option.elim] at h
      omega
  | some n =>
    cases chainId' with
    | none =>
      simp only [Option.elim] at h
      omega
    | some n' =>
      simp only [Option.elim] at h
      exact ⟨by omega, congrArg some (BitVec.eq_of_toNat_eq (by omega))⟩

/-- The recovery byte by the ranges of `v`. -/
theorem toNat_checkReplayProtection (v : U64) : (checkReplayProtection v).toNat =
    if v.toNat = 27 then 0 else if v.toNat = 28 then 1
    else if 35 ≤ v.toNat then (v.toNat - 1) % 2 else 4 := by
  have h27 : v = 27 ↔ v.toNat = 27 := BitVec.toNat_inj.symm
  have h28 : v = 28 ↔ v.toNat = 28 := BitVec.toNat_inj.symm
  have h35 : v ≥ 35 ↔ 35 ≤ v.toNat := BitVec.le_def
  simp only [checkReplayProtection, h27, h28, h35]
  split
  · rfl
  split
  · rfl
  split
  · simp only [BitVec.ofNat_eq_ofNat, BitVec.toNat_umod, BitVec.toNat_sub, BitVec.toNat_ofNat,
      UInt8.toNat_ofNat', Nat.reducePow, Nat.reduceMod]
    omega
  · rfl

/-- A recovery bit is read from the value for all chains, or from the parity of a value from
35 on. -/
theorem checkReplayProtection_eq_iff {b : U64} (hv : v = 0 ∨ v = 1) :
    checkReplayProtection b = v ↔ b.toNat = 27 + v.toNat ∨
      (35 ≤ b.toNat ∧ (b.toNat - 1) % 2 = v.toNat) := by
  have hv1 := toNat_le_one hv
  rw [← UInt8.toNat_inj, toNat_checkReplayProtection]
  split
  · omega
  split
  · omega
  split
  · omega
  · omega

/-- The recovery bit is read back from a packed value that fits. -/
theorem checkReplayProtection_addChainReplayProtection (hv : v = 0 ∨ v = 1)
    (hfit : packedV v chainId < 2 ^ 64) :
    checkReplayProtection (addChainReplayProtection (BitVec.ofNat 64 v.toNat) chainId) = v := by
  have hv1 := toNat_le_one hv
  rw [checkReplayProtection_eq_iff hv, toNat_addChainReplayProtection, Nat.mod_eq_of_lt hfit,
    packedV]
  cases chainId with
  | none =>
    simp only [Option.elim]
    omega
  | some n =>
    simp only [Option.elim]
    omega

end

namespace UnverifiedTransaction

variable {t : UnverifiedTransaction}

/-- A signed transaction is bound to no chain exactly by a `v` below 35. -/
theorem chainId_eq_none_iff (hu : t.isUnsigned = false) : t.chainId = none ↔ t.v.toNat < 35 := by
  have h35 : t.v ≥ 35 ↔ 35 ≤ t.v.toNat := BitVec.le_def
  simp only [chainId, hu, h35, Bool.false_eq_true, if_false, ite_eq_right_iff, reduceCtorEq,
    imp_false, not_le]

/-- A signed transaction is bound to a chain exactly by the two values of `v` for it. -/
theorem chainId_eq_some_iff (hu : t.isUnsigned = false) {n : U64} :
    t.chainId = some n ↔ t.v.toNat = 35 + 2 * n.toNat ∨ t.v.toNat = 36 + 2 * n.toNat := by
  have hlt := t.v.isLt
  have h35 : t.v ≥ 35 ↔ 35 ≤ t.v.toNat := BitVec.le_def
  have hn : (t.v - 35) / 2 = n ↔ (2 ^ 64 - 35 + t.v.toNat) % 2 ^ 64 / 2 = n.toNat := by
    simp only [← BitVec.toNat_inj, BitVec.ofNat_eq_ofNat, BitVec.toNat_udiv, BitVec.toNat_sub,
      BitVec.toNat_ofNat, Nat.reducePow, Nat.reduceMod]
  simp only [chainId, hu, h35, Bool.false_eq_true, if_false, Option.ite_none_right_eq_some,
    Option.some.injEq, hn]
  omega

/-- A `v` with a recovery bit is what its recovery bit and its chain id pack to. -/
theorem packedV_standardV (hu : t.isUnsigned = false)
    (hv : t.standardV = 0 ∨ t.standardV = 1) :
    packedV t.standardV t.chainId = t.v.toNat := by
  have hv1 := toNat_le_one hv
  have hstd := (checkReplayProtection_eq_iff (b := t.v) hv).mp rfl
  cases hid : t.chainId with
  | none =>
    have hlt := (chainId_eq_none_iff hu).mp hid
    simp only [packedV, Option.elim]
    omega
  | some n =>
    have heq := (chainId_eq_some_iff hu).mp hid
    simp only [packedV, Option.elim]
    omega

/-- The chain id is read back from the packed `v` of a signed transaction exactly when the
packed value fits. -/
theorem chainId_of_addChainReplayProtection {v : UInt8} {chainId : Option U64}
    (hu : t.isUnsigned = false) (hv : v = 0 ∨ v = 1)
    (ht : t.v = addChainReplayProtection (BitVec.ofNat 64 v.toNat) chainId) :
    t.chainId = chainId ↔ packedV v chainId < 2 ^ 64 := by
  have hv1 := toNat_le_one hv
  have hpack : t.v.toNat = packedV v chainId % 2 ^ 64 := by
    rw [ht, toNat_addChainReplayProtection]
  cases chainId with
  | none =>
    rw [chainId_eq_none_iff hu, hpack]
    simp only [packedV, Option.elim]
    omega
  | some n =>
    rw [chainId_eq_some_iff hu, hpack]
    simp only [packedV, Option.elim]
    omega

/-- A signed transaction passes the basic check for a chain exactly when its `s` is low and
it is bound to no chain or to that one. -/
theorem verifyBasic_eq_ok_iff {c : Crypto} (hu : t.isUnsigned = false) (m : U64) :
    t.verifyBasic c true (some m) = .ok () ↔
      c.isLowS t.signature.s = true ∧ (t.chainId = none ∨ t.chainId = some m) := by
  unfold verifyBasic checkLowS
  rw [hu]
  cases hs : c.isLowS t.signature.s with
  | false => simp [bind, Except.bind]
  | true =>
    cases hn : t.chainId with
    | none => simp [bind, Except.bind, pure, Except.pure]
    | some n =>
      by_cases he : n = m
      · simp [he, bind, Except.bind, pure, Except.pure]
      · simp [he, throw, throwThe, MonadExceptOf.throw, bind, Except.bind]

/-- An unsigned transaction never passes the basic check. -/
theorem verifyBasic_of_isUnsigned {c : Crypto} (hu : t.isUnsigned = true) (low : Bool)
    (chainId : Option U64) : t.verifyBasic c low chainId = .error "verify_basic: unsigned" := by
  simp only [verifyBasic, hu, throw, throwThe, MonadExceptOf.throw, bind, Except.bind, if_true]

/-- A transaction is signed unless both parts of the signature are zero. -/
theorem isUnsigned_eq_false_iff : t.isUnsigned = false ↔ ¬(t.r = 0 ∧ t.s = 0) := by
  rw [← Bool.not_eq_true, isUnsigned, Bool.and_eq_true, beq_iff_eq, beq_iff_eq]

/-- For a value that the packing produces, the basic check reads as a condition on it. -/
theorem verifyBasic_iff_of_used {c : Crypto} (hu : t.isUnsigned = false) (m : U64)
    (hv : t.v.toNat = 27 ∨ t.v.toNat = 28 ∨ 35 ≤ t.v.toNat) :
    t.verifyBasic c true (some m) = .ok () ↔ c.isLowS t.signature.s = true ∧
      (t.v.toNat = 27 ∨ t.v.toNat = 28 ∨ t.v.toNat = 35 + 2 * m.toNat ∨
        t.v.toNat = 36 + 2 * m.toNat) := by
  rw [verifyBasic_eq_ok_iff hu, chainId_eq_none_iff hu, chainId_eq_some_iff hu]
  refine and_congr_right fun _ => ?_
  omega

/-- The basic check accepts exactly the low signatures whose `v` is for all chains or for the
given one, and only 27 and 28 are for all chains: for a given transaction this holds exactly
when it is unsigned or its `v` is a value that the packing produces. -/
theorem verifyBasic_exact_iff (c : Crypto) (t : UnverifiedTransaction) (m : U64) :
    ((t.verifyBasic c true (some m) = .ok () ↔
        ¬(t.r = 0 ∧ t.s = 0) ∧ c.isLowS t.signature.s = true ∧
          (t.v.toNat = 27 ∨ t.v.toNat = 28 ∨ t.v.toNat = 35 + 2 * m.toNat ∨
            t.v.toNat = 36 + 2 * m.toNat)) ∧
      (t.chainId = none → t.v.toNat = 27 ∨ t.v.toNat = 28)) ↔
    (t.r = 0 ∧ t.s = 0) ∨ t.v.toNat = 27 ∨ t.v.toNat = 28 ∨ 35 ≤ t.v.toNat := by
  by_cases hz : t.r = 0 ∧ t.s = 0
  · have hu : t.isUnsigned = true := by
      rw [isUnsigned, Bool.and_eq_true, beq_iff_eq, beq_iff_eq]
      exact hz
    have hid : t.chainId = some t.v := by rw [chainId, hu, if_pos rfl]
    simp only [verifyBasic_of_isUnsigned hu, hid, hz, reduceCtorEq, and_self, not_true_eq_false,
      false_and, false_imp_iff, true_or]
  · have hu := isUnsigned_eq_false_iff.mpr hz
    rw [chainId_eq_none_iff hu]
    constructor
    · rintro ⟨_, hnone⟩
      omega
    · intro h
      have hv := h.resolve_left hz
      rw [verifyBasic_iff_of_used hu m hv]
      exact ⟨⟨fun hok => ⟨hz, hok⟩, fun hok => hok.2⟩, fun hlt => by omega⟩

/-- A signature with `v` zero, which no packing produces and whose recovery byte is invalid,
passes the basic check as one for all chains. -/
theorem verifyBasic_unused_v :
    let t : UnverifiedTransaction := ⟨{}, 0, 1, 1, .zero⟩
    t.verifyBasic .sample true (some 1) = .ok () ∧ t.chainId = none ∧ t.standardV = 4 ∧
      ¬(t.v.toNat = 27 ∨ t.v.toNat = 28 ∨ t.v.toNat = 35 + 2 * (1 : U64).toNat ∨
        t.v.toNat = 36 + 2 * (1 : U64).toNat) := by
  decide +kernel

end UnverifiedTransaction

end Tethereum
