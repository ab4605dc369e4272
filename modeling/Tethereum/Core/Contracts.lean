import Tethereum.Core.Turns

/-!
# Contracts of threads

A thread may promise that each of its sections keeps an invariant, and that it ends
with a good result as long as the invariant holds at each of its turns. When every
thread of a pool does, the invariant holds after every run, and every result is good.
-/

namespace Interleaving

universe u v w

/-- Every section keeps `I`, and from states with `I` on the thread ends with a result with `Q`. -/
def Thread.Ensures {σ : Type u} {ρ : Type v} (I : σ → Prop) (Q : ρ → Prop) : Thread σ ρ → Prop
  | .done result => Q result
  | .locked update next => ∀ s, I s → I (update s) ∧ (next s).Ensures I Q

namespace Thread

variable {σ : Type u} {ρ ρ' : Type v} {I : σ → Prop} {Q Q' : ρ → Prop} {t : Thread σ ρ} {s : σ}

/-- A turn keeps the invariant and the promise. -/
theorem Ensures.turn (h : t.Ensures I Q) (hs : I s) :
    I (t.turn s).2 ∧ (t.turn s).1.Ensures I Q := by
  cases t with
  | done result => exact ⟨hs, h⟩
  | locked update next => exact h s hs

/-- Less may be promised of the result. -/
theorem Ensures.mono (h : t.Ensures I Q) (hQ : ∀ result, Q result → Q' result) :
    t.Ensures I Q' := by
  induction t with
  | done result => exact hQ result h
  | locked update next ih =>
    intro s hs
    obtain ⟨hkeeps, hnext⟩ := h s hs
    exact ⟨hkeeps, ih s hnext⟩

/-- What is promised of another result. -/
theorem ensures_map {f : ρ → ρ'} {Q : ρ' → Prop} :
    (t.map f).Ensures I Q ↔ t.Ensures I fun result => Q (f result) := by
  induction t with
  | done result => rfl
  | locked update next ih => simp only [map, Ensures, ih]

end Thread

namespace Pool

variable {ι : Type w} {σ : Type u} {ρ : Type v} [DecidableEq ι] {I : σ → Prop} {Q : ι → ρ → Prop}
  {p : Pool ι σ ρ}

/-- The state satisfies the invariant, and every thread keeps it and its own promise. -/
structure Ensures (I : σ → Prop) (Q : ι → ρ → Prop) (p : Pool ι σ ρ) : Prop where
  /-- The state satisfies the invariant. -/
  shared : I p.shared
  /-- Every thread keeps it and its own promise. -/
  threads : ∀ i, (p.threads i).Ensures I (Q i)

/-- A turn keeps all promises. -/
theorem Ensures.step (h : Ensures I Q p) (i : ι) : Ensures I Q (p.step i) := by
  obtain ⟨hshared, hthread⟩ := (h.threads i).turn h.shared
  refine ⟨hshared, fun j => ?_⟩
  by_cases hj : j = i
  · subst hj
    rw [threads_step_self]
    exact hthread
  · rw [threads_step_of_ne hj]
    exact h.threads j

/-- A run keeps all promises. -/
theorem Ensures.run (h : Ensures I Q p) (schedule : List ι) : Ensures I Q (p.run schedule) := by
  induction schedule generalizing p with
  | nil => exact h
  | cons i schedule ih => exact ih (h.step i)

omit [DecidableEq ι] in
/-- A thread that has ended has kept its promise. -/
theorem Ensures.result (h : Ensures I Q p) {i : ι} {result : ρ}
    (hdone : p.threads i = .done result) : Q i result := by
  have hthread := h.threads i
  rw [hdone] at hthread
  exact hthread

end Pool

end Interleaving
