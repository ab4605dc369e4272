import Mathlib.Data.List.Infix

/-!
# Guarded runs

A run folds a step over a list of actions. An invariant gives a property as long
as the steps are of a good kind, and the first step of the other kind shows in
the property: then the property holds all along a run exactly when every step was
of the good kind in the state it was taken.
-/

namespace Guarded

variable {σ α : Type*}

/-- The good steps keep an invariant that gives the property, and the other steps break the
property. -/
structure Guards (step : σ → α → σ) (I P : σ → Prop) (Q : σ → α → Prop) : Prop where
  /-- The invariant gives the property. -/
  holds : ∀ {s}, I s → P s
  /-- A good step keeps the invariant. -/
  keeps : ∀ {s a}, I s → Q s a → I (step s a)
  /-- Any other step breaks the property. -/
  breaks : ∀ {s a}, I s → ¬ Q s a → ¬ P (step s a)

namespace Guards

variable {step : σ → α → σ} {I P : σ → Prop} {Q : σ → α → Prop} {s : σ}

/-- A run of good steps keeps the invariant. -/
theorem foldl (h : Guards step I P Q) (hs : I s) {actions : List α}
    (hgood : ∀ earlier a, earlier ++ [a] <+: actions → Q (earlier.foldl step s) a) :
    I (actions.foldl step s) := by
  induction actions generalizing s with
  | nil => exact hs
  | cons a actions ih =>
    have hfirst : [] ++ [a] <+: a :: actions := ⟨actions, rfl⟩
    apply ih (h.keeps hs (hgood [] a hfirst))
    intro earlier b hprefix
    exact hgood (a :: earlier) b (List.cons_prefix_cons.mpr ⟨rfl, hprefix⟩)

/-- Where the property holds along a run, the invariant holds, and the next step is good if the
property holds after it as well. -/
theorem of_forall_foldl (h : Guards step I P Q) (hs : I s) {actions : List α}
    (hall : ∀ earlier, earlier <+: actions → P (earlier.foldl step s)) {a : α}
    (hnext : P (step (actions.foldl step s) a)) :
    I (actions.foldl step s) ∧ Q (actions.foldl step s) a := by
  induction actions using List.reverseRecOn generalizing a with
  | nil => exact ⟨hs, by_contra fun hbad => h.breaks hs hbad hnext⟩
  | append_singleton earlier b ih =>
    have hb : P (step (earlier.foldl step s) b) := by
      rw [← List.foldl_concat step]
      exact hall _ (List.prefix_refl _)
    obtain ⟨hI, hQ⟩ := ih (fun before hbefore => hall before
      (hbefore.trans (List.prefix_append _ _))) hb
    have hI' := h.keeps hI hQ
    rw [← List.foldl_concat step] at hI'
    exact ⟨hI', by_contra fun hbad => h.breaks hI' hbad hnext⟩

/-- The property holds all along a run exactly when every step of it is good. -/
theorem forall_foldl_iff (h : Guards step I P Q) (hs : I s) (actions : List α) :
    (∀ earlier, earlier <+: actions → P (earlier.foldl step s)) ↔
      ∀ earlier a, earlier ++ [a] <+: actions → Q (earlier.foldl step s) a := by
  constructor
  · intro hall earlier a hprefix
    have hnext : P (step (earlier.foldl step s) a) := by
      rw [← List.foldl_concat step]
      exact hall _ hprefix
    have hearlier := (List.prefix_append earlier [a]).trans hprefix
    exact (h.of_forall_foldl hs (fun before hbefore => hall before (hbefore.trans hearlier))
      hnext).2
  · intro hgood earlier hprefix
    exact h.holds (h.foldl hs fun before a hbefore => hgood before a (hbefore.trans hprefix))

end Guards

end Guarded
