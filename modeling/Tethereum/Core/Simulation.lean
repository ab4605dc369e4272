import Tethereum.Core.Turns

/-!
# Simulation of threads

Threads over one kind of state are simulated by threads over another kind when
their sections keep the states related and they end with the same results. Then a
whole pool is simulated, turn by turn, under the same schedule.
-/

namespace Interleaving

universe u u' v w

/-- From related states on, the threads take turns that keep the states related, and end
alike. -/
def Thread.Simulates {σ : Type u} {τ : Type u'} {ρ : Type v} (Rel : σ → τ → Prop) :
    Thread σ ρ → Thread τ ρ → Prop
  | .done result, .done result' => result = result'
  | .locked update next, .locked update' next' => ∀ s s', Rel s s' →
    Rel (update s) (update' s') ∧ (next s).Simulates Rel (next' s')
  | _, _ => False

namespace Thread

variable {σ : Type u} {τ : Type u'} {ρ ρ' : Type v} {Rel : σ → τ → Prop} {t : Thread σ ρ}
  {t' : Thread τ ρ} {s : σ} {s' : τ}

/-- Related threads take related turns. -/
theorem Simulates.turn (h : t.Simulates Rel t') (hs : Rel s s') :
    Rel (t.turn s).2 (t'.turn s').2 ∧ (t.turn s).1.Simulates Rel (t'.turn s').1 := by
  cases t with
  | done result =>
    cases t' with
    | done result' => exact ⟨hs, h⟩
    | locked update' next' => exact h.elim
  | locked update next =>
    cases t' with
    | done result' => exact h.elim
    | locked update' next' => exact h s s' hs

/-- Related threads end alike. -/
theorem Simulates.answer (h : t.Simulates Rel t') : t.answer = t'.answer := by
  cases t with
  | done result =>
    cases t' with
    | done result' => exact congrArg some h
    | locked update' next' => exact h.elim
  | locked update next =>
    cases t' with
    | done result' => exact h.elim
    | locked update' next' => rfl

/-- Related threads stay related with other results. -/
theorem Simulates.map (h : t.Simulates Rel t') (f : ρ → ρ') :
    (t.map f).Simulates Rel (t'.map f) := by
  induction t generalizing t' with
  | done result =>
    cases t' with
    | done result' => exact congrArg f h
    | locked update' next' => exact h.elim
  | locked update next ih =>
    cases t' with
    | done result' => exact h.elim
    | locked update' next' =>
      intro s s' hs
      obtain ⟨hupdate, hnext⟩ := h s s' hs
      exact ⟨hupdate, ih s hnext⟩

end Thread

namespace Pool

variable {ι : Type w} {σ : Type u} {τ : Type u'} {ρ : Type v} [DecidableEq ι]
  {Rel : σ → τ → Prop} {p : Pool ι σ ρ} {q : Pool ι τ ρ}

/-- Pools whose states are related, and whose threads are. -/
structure Simulates (Rel : σ → τ → Prop) (p : Pool ι σ ρ) (q : Pool ι τ ρ) : Prop where
  /-- The states are related. -/
  shared : Rel p.shared q.shared
  /-- So are the threads. -/
  threads : ∀ i, (p.threads i).Simulates Rel (q.threads i)

/-- A turn keeps pools related. -/
theorem Simulates.step (h : Simulates Rel p q) (i : ι) : Simulates Rel (p.step i) (q.step i) := by
  obtain ⟨hshared, hthread⟩ := (h.threads i).turn h.shared
  refine ⟨hshared, fun j => ?_⟩
  by_cases hj : j = i
  · rw [hj, threads_step_self, threads_step_self]
    exact hthread
  · rw [threads_step_of_ne hj, threads_step_of_ne hj]
    exact h.threads j

/-- A run keeps pools related. -/
theorem Simulates.run (h : Simulates Rel p q) (schedule : List ι) :
    Simulates Rel (p.run schedule) (q.run schedule) := by
  induction schedule generalizing p q with
  | nil => exact h
  | cons i schedule ih => exact ih (h.step i)

omit [DecidableEq ι] in
/-- Threads of related pools end alike. -/
theorem Simulates.done_iff (h : Simulates Rel p q) (i : ι) (result : ρ) :
    p.threads i = .done result ↔ q.threads i = .done result := by
  rw [← Thread.answer_eq_some_iff, ← Thread.answer_eq_some_iff, (h.threads i).answer]

end Pool

end Interleaving
