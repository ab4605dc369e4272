import Mathlib.Data.List.Basic
import Mathlib.Logic.Function.Basic

/-!
# Interleaved threads

Threads share a state and work on it in locked sections, each of which is one
step. A schedule says whose turn it is; a finished thread lets its turn pass.
What every thread guarantees of its own sections, relying on the guarantees of
the others, holds in every run.
-/

namespace Interleaving

universe u v w

/-- A thread over a shared state. -/
inductive Thread (σ : Type u) (ρ : Type v)
  /-- It has finished with a result. -/
  | done (result : ρ)
  /-- A locked section: what it makes of the state, and how the thread goes on after the state
  it found. -/
  | locked (update : σ → σ) (next : σ → Thread σ ρ)

namespace Thread

variable {σ : Type u} {ρ : Type v}

/-- Run a thread to its end, with nobody else around. -/
def alone : Thread σ ρ → σ → ρ × σ
  | done result, s => (result, s)
  | locked update next, s => (next s).alone (update s)

/-- Take one turn. -/
def turn : Thread σ ρ → σ → Thread σ ρ × σ
  | done result, s => (done result, s)
  | locked update next, s => (next s, update s)

/-- From a state on which the others move by `R`, every section of the thread keeps `I` and
changes the state by `G`. -/
def Guarantees (I : σ → Prop) (R G : σ → σ → Prop) : Thread σ ρ → σ → Prop
  | done _, _ => True
  | locked update next, s => ∀ s', R s s' → I s' →
    I (update s') ∧ G s' (update s') ∧ (next s').Guarantees I R G (update s')

section

variable {I : σ → Prop} {R G : σ → σ → Prop} {t : Thread σ ρ} {s s' : σ}

/-- What the others do is relied on. -/
theorem Guarantees.rely (htrans : ∀ {s₁ s₂ s₃}, R s₁ s₂ → R s₂ s₃ → R s₁ s₃)
    (h : t.Guarantees I R G s) (hR : R s s') : t.Guarantees I R G s' := by
  cases t with
  | done result => trivial
  | locked update next => exact fun s'' hR' => h s'' (htrans hR hR')

/-- A turn keeps what the thread guarantees. -/
theorem Guarantees.turn (hR : R s s) (hG : ∀ s, G s s) (h : t.Guarantees I R G s) (hI : I s) :
    I (t.turn s).2 ∧ G s (t.turn s).2 ∧ (t.turn s).1.Guarantees I R G (t.turn s).2 := by
  cases t with
  | done result => exact ⟨hI, hG s, trivial⟩
  | locked update next => exact h s hR hI

end

end Thread

/-- Threads and the state they share. -/
structure Pool (ι : Type w) (σ : Type u) (ρ : Type v) where
  /-- The shared state. -/
  shared : σ
  /-- What is left of each thread. -/
  threads : ι → Thread σ ρ

namespace Pool

variable {ι : Type w} {σ : Type u} {ρ : Type v} [DecidableEq ι]

/-- A turn of one thread. -/
def step (p : Pool ι σ ρ) (i : ι) : Pool ι σ ρ where
  shared := ((p.threads i).turn p.shared).2
  threads := Function.update p.threads i ((p.threads i).turn p.shared).1

/-- Turns in the order of a schedule. -/
def run (p : Pool ι σ ρ) (schedule : List ι) : Pool ι σ ρ := schedule.foldl step p

section

variable {p q : Pool ι σ ρ} {i j : ι} {s s₁ s₂ : List ι} {update : σ → σ}
  {next : σ → Thread σ ρ} {result : ρ}

@[simp] theorem run_nil : p.run [] = p := rfl

@[simp] theorem run_cons : p.run (i :: s) = (p.step i).run s := rfl

@[simp] theorem run_append : p.run (s₁ ++ s₂) = (p.run s₁).run s₂ := List.foldl_append

/-- The thread whose turn it is goes on. -/
theorem threads_step_self : (p.step i).threads i = ((p.threads i).turn p.shared).1 :=
  Function.update_self i _ _

/-- The other threads stay where they are. -/
theorem threads_step_of_ne (h : j ≠ i) : (p.step i).threads j = p.threads j :=
  Function.update_of_ne h _ _

/-- A thread without a turn stays where it is. -/
theorem threads_run_of_not_mem (h : i ∉ s) : (p.run s).threads i = p.threads i := by
  induction s generalizing p with
  | nil => rfl
  | cons j s ih =>
    rw [List.mem_cons, not_or] at h
    obtain ⟨hne, hs⟩ := h
    rw [run_cons, ih hs, threads_step_of_ne hne]

/-- A finished thread keeps its result. -/
theorem threads_run_of_done (h : p.threads i = .done result) :
    (p.run s).threads i = .done result := by
  induction s generalizing p with
  | nil => exact h
  | cons j s ih =>
    apply ih
    by_cases hj : i = j
    · subst hj
      rw [threads_step_self, h]
      rfl
    · rw [threads_step_of_ne hj, h]

/-- The first turn of a thread depends on the state it finds. -/
theorem threads_run_of_locked (h : p.threads i = .locked update next) (hs : i ∉ s₁) :
    (p.run (s₁ ++ [i])).threads i = next (p.run s₁).shared := by
  rw [run_append, run_cons, run_nil, threads_step_self, threads_run_of_not_mem hs, h]
  rfl

/-- A thread that has finished had a first turn. -/
theorem exists_first_turn (h : p.threads i = .locked update next)
    (hdone : (p.run s).threads i = .done result) : ∃ s₁ s₂, s = s₁ ++ i :: s₂ ∧ i ∉ s₁ := by
  by_cases hmem : i ∈ s
  · obtain ⟨s₁, s₂, hs, hs₁⟩ := List.eq_append_cons_of_mem hmem
    exact ⟨s₁, s₂, hs, hs₁⟩
  · rw [threads_run_of_not_mem hmem, h] at hdone
    contradiction

end

/-! ## What all threads guarantee -/

section

variable {I : σ → Prop} {R : σ → σ → Prop} {p q : Pool ι σ ρ}

/-- The state satisfies `I`, and every thread guarantees `I` and `R` as long as the others
do. -/
structure Guarantees (I : σ → Prop) (R : σ → σ → Prop) (p : Pool ι σ ρ) : Prop where
  /-- The state satisfies `I`. -/
  shared : I p.shared
  /-- Every thread guarantees `I` and `R`. -/
  threads : ∀ i, (p.threads i).Guarantees I R R p.shared

/-- A turn keeps the guarantees, and changes the state by `R`. -/
theorem Guarantees.step (hrefl : ∀ s, R s s) (htrans : ∀ {s₁ s₂ s₃}, R s₁ s₂ → R s₂ s₃ → R s₁ s₃)
    (h : p.Guarantees I R) (i : ι) :
    (p.step i).Guarantees I R ∧ R p.shared (p.step i).shared := by
  obtain ⟨hI, hR, hnext⟩ := (h.threads i).turn (hrefl _) hrefl h.shared
  refine ⟨⟨hI, fun j => ?_⟩, hR⟩
  by_cases hj : j = i
  · rw [hj, threads_step_self]
    exact hnext
  · rw [threads_step_of_ne hj]
    exact (h.threads j).rely htrans hR

/-- A run keeps the guarantees, and changes the state by `R`. -/
theorem Guarantees.run (hrefl : ∀ s, R s s) (htrans : ∀ {s₁ s₂ s₃}, R s₁ s₂ → R s₂ s₃ → R s₁ s₃)
    (h : p.Guarantees I R) (schedule : List ι) :
    (p.run schedule).Guarantees I R ∧ R p.shared (p.run schedule).shared := by
  induction schedule generalizing p with
  | nil => exact ⟨h, hrefl _⟩
  | cons i schedule ih =>
    obtain ⟨hstep, hR⟩ := h.step hrefl htrans i
    obtain ⟨hrun, hR'⟩ := ih hstep
    exact ⟨hrun, htrans hR hR'⟩

/-- Two pools that differ in one thread, which changes the state in neither of them. -/
structure Alike (I : σ → Prop) (R : σ → σ → Prop) (i : ι) (p q : Pool ι σ ρ) : Prop where
  /-- The state is the same. -/
  shared : p.shared = q.shared
  /-- So are the other threads. -/
  others : ∀ j, j ≠ i → p.threads j = q.threads j
  /-- The first pool keeps its guarantees. -/
  guarantees : p.Guarantees I R
  /-- The thread changes nothing in the first pool. -/
  silent : (p.threads i).Guarantees I R Eq p.shared
  /-- It changes nothing in the second pool. -/
  silent' : (q.threads i).Guarantees I R Eq q.shared

/-- Such pools stay alike. -/
theorem Alike.step (hrefl : ∀ s, R s s) (htrans : ∀ {s₁ s₂ s₃}, R s₁ s₂ → R s₂ s₃ → R s₁ s₃)
    {i : ι} (h : Alike I R i p q) (j : ι) : Alike I R i (p.step j) (q.step j) := by
  obtain ⟨hstep, hR⟩ := h.guarantees.step hrefl htrans j
  by_cases hj : j = i
  · subst hj
    have hI := h.guarantees.shared
    obtain ⟨_, hsame, hnext⟩ := h.silent.turn (hrefl _) (fun _ => rfl) hI
    obtain ⟨_, hsame', hnext'⟩ := h.silent'.turn (hrefl _) (fun _ => rfl) (h.shared ▸ hI)
    refine ⟨hsame.symm.trans (h.shared.trans hsame'), fun k hk => ?_, hstep, ?_, ?_⟩
    · rw [threads_step_of_ne hk, threads_step_of_ne hk, h.others k hk]
    · rw [threads_step_self]
      exact hnext
    · rw [threads_step_self]
      exact hnext'
  · have hturn : (p.threads j).turn p.shared = (q.threads j).turn q.shared := by
      rw [h.others j hj, h.shared]
    have hshared : (p.step j).shared = (q.step j).shared := congrArg Prod.snd hturn
    refine ⟨hshared, fun k hk => ?_, hstep, ?_, ?_⟩
    · by_cases hkj : k = j
      · rw [hkj, threads_step_self, threads_step_self, hturn]
      · rw [threads_step_of_ne hkj, threads_step_of_ne hkj, h.others k hk]
    · rw [threads_step_of_ne (Ne.symm hj)]
      exact h.silent.rely htrans hR
    · rw [threads_step_of_ne (Ne.symm hj), ← hshared]
      exact (h.shared ▸ h.silent').rely htrans hR

/-- Their runs make the same of the state. -/
theorem Alike.shared_run (hrefl : ∀ s, R s s)
    (htrans : ∀ {s₁ s₂ s₃}, R s₁ s₂ → R s₂ s₃ → R s₁ s₃) {i : ι} (h : Alike I R i p q)
    (schedule : List ι) : (p.run schedule).shared = (q.run schedule).shared := by
  induction schedule generalizing p q with
  | nil => exact h.shared
  | cons j schedule ih => exact ih (h.step hrefl htrans j)

end

end Pool

end Interleaving
