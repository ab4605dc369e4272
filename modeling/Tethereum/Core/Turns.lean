import Tethereum.Core.Interleaving
import Mathlib.Data.List.Induction

/-!
# Turns of a pool

What a section does is said together with the result that its thread ends with
after it. In a run every turn then does what its thread announces, or it is let
pass by a thread that has ended. Turns of threads that change nothing can be left
out of a schedule.
-/

namespace Interleaving

universe u v v' w

namespace Thread

variable {σ : Type u} {ρ : Type v} {ρ' : Type v'}

/-- The result of a thread that has finished. -/
def answer : Thread σ ρ → Option ρ
  | done result => some result
  | locked _ _ => none

/-- The same sections, with another result. -/
def map (f : ρ → ρ') : Thread σ ρ → Thread σ ρ'
  | done result => done (f result)
  | locked update next => locked update fun s => (next s).map f

/-- From a state on which the others move by `R`, every section of the thread keeps `I` and does
what `A` says of the state it finds, the state it leaves, and the result it ends the thread with,
if it does. -/
def Announces (I : σ → Prop) (R : σ → σ → Prop) (A : σ → σ → Option ρ → Prop) :
    Thread σ ρ → σ → Prop
  | done _, _ => True
  | locked update next, s => ∀ s', R s s' → I s' →
    I (update s') ∧ A s' (update s') (next s').answer ∧ (next s').Announces I R A (update s')

/-- No section of the thread changes the state. -/
def Silent : Thread σ ρ → Prop
  | done _ => True
  | locked update next => ∀ s, update s = s ∧ (next s).Silent

section

variable {I : σ → Prop} {R : σ → σ → Prop} {A A' : σ → σ → Option ρ → Prop} {t : Thread σ ρ}
  {s s' : σ} {result : ρ} {f : ρ → ρ'}

/-- A thread has a result when it is done. -/
theorem answer_eq_some_iff : t.answer = some result ↔ t = done result := by
  cases t with
  | done result' => rw [answer, Option.some_inj, done.injEq]
  | locked update next => exact iff_of_false (by rintro ⟨⟩) (by rintro ⟨⟩)

/-- The result is mapped. -/
theorem answer_map : (t.map f).answer = t.answer.map f := by
  cases t with
  | done result => rfl
  | locked update next => rfl

/-- A thread alone ends with the mapped result. -/
theorem alone_map : (t.map f).alone s = (f (t.alone s).1, (t.alone s).2) := by
  induction t generalizing s with
  | done result => rfl
  | locked update next ih => exact ih s

/-- What a thread announces of the mapped result. -/
theorem announces_map {B : σ → σ → Option ρ' → Prop} :
    (t.map f).Announces I R B s ↔
      t.Announces I R (fun s s' answer => B s s' (answer.map f)) s := by
  induction t generalizing s with
  | done result => rfl
  | locked update next ih =>
    simp only [map, Announces, answer_map, ih]

/-- Silence does not depend on the result. -/
theorem silent_map : (t.map f).Silent ↔ t.Silent := by
  induction t with
  | done result => rfl
  | locked update next ih => simp only [map, Silent, ih]

/-- What the others do does not matter to what a thread announces. -/
theorem Announces.rely (htrans : ∀ {s₁ s₂ s₃}, R s₁ s₂ → R s₂ s₃ → R s₁ s₃)
    (h : t.Announces I R A s) (hR : R s s') : t.Announces I R A s' := by
  cases t with
  | done result => trivial
  | locked update next => exact fun s'' hR' => h s'' (htrans hR hR')

/-- A silent thread stays silent, and its turn changes nothing. -/
theorem Silent.turn (h : t.Silent) (s : σ) : (t.turn s).2 = s ∧ (t.turn s).1.Silent := by
  cases t with
  | done result => exact ⟨rfl, trivial⟩
  | locked update next => exact h s

end

end Thread

namespace Pool

variable {ι : Type w} {σ : Type u} {ρ : Type v} [DecidableEq ι] {p q : Pool ι σ ρ}

/-! ## Announced turns -/

section

variable {I : σ → Prop} {R : σ → σ → Prop} {A : ι → σ → σ → Option ρ → Prop} {i : ι}
  {schedule : List ι} {result : ρ}

/-- The state satisfies `I`, and every thread announces what it does. -/
structure Announces (I : σ → Prop) (R : σ → σ → Prop) (A : ι → σ → σ → Option ρ → Prop)
    (p : Pool ι σ ρ) : Prop where
  /-- The state satisfies `I`. -/
  shared : I p.shared
  /-- Every thread announces its sections. -/
  threads : ∀ i, (p.threads i).Announces I R (A i) p.shared

/-- The relations of a pool: the moves of the others are a preorder that contains every announced
section. -/
structure Moves (I : σ → Prop) (R : σ → σ → Prop) (A : ι → σ → σ → Option ρ → Prop) : Prop where
  /-- To stay is a move. -/
  refl : ∀ s, R s s
  /-- Moves in a row are a move. -/
  trans : ∀ {s₁ s₂ s₃}, R s₁ s₂ → R s₂ s₃ → R s₁ s₃
  /-- A section is a move. -/
  section_move : ∀ {i s s' answer}, I s → A i s s' answer → R s s'

/-- What a turn was: a thread that had ended let it pass, or the thread did what it announces. -/
def Turn (A : ι → σ → σ → Option ρ → Prop) (p : Pool ι σ ρ) (i : ι) : Prop :=
  ((∃ result, p.threads i = .done result) ∧ p.step i = p) ∨
    (p.threads i).answer = none ∧
      A i p.shared (p.step i).shared ((p.step i).threads i).answer

/-- A turn of a thread that has ended changes nothing. -/
theorem step_of_done (h : p.threads i = .done result) : p.step i = p := by
  rw [step, h]
  change (⟨p.shared, Function.update p.threads i (.done result)⟩ : Pool ι σ ρ) = p
  rw [← h, Function.update_eq_self]

/-- A turn keeps what is announced, moves the state, and is announced. -/
theorem Announces.step (hm : Moves I R A) (h : p.Announces I R A) (i : ι) :
    (p.step i).Announces I R A ∧ R p.shared (p.step i).shared ∧ Turn A p i := by
  cases hi : p.threads i with
  | done result =>
    rw [step_of_done hi]
    exact ⟨h, hm.refl _, Or.inl ⟨⟨result, hi⟩, step_of_done hi⟩⟩
  | locked update next =>
    have hfirst := h.threads i
    rw [hi] at hfirst
    obtain ⟨hI, hA, hnext⟩ := hfirst p.shared (hm.refl _) h.shared
    have hthread : (p.step i).threads i = next p.shared := by
      rw [threads_step_self, hi]
      rfl
    have hshared : (p.step i).shared = update p.shared := by
      rw [Pool.step, hi]
      rfl
    have hmove := hm.section_move h.shared hA
    rw [← hshared] at hI hA hnext hmove
    refine ⟨⟨hI, fun j => ?_⟩, hmove, Or.inr ⟨congrArg Thread.answer hi, ?_⟩⟩
    · by_cases hj : j = i
      · rw [hj, hthread]
        exact hnext
      · rw [threads_step_of_ne hj]
        exact (h.threads j).rely hm.trans hmove
    · rw [hthread]
      exact hA

/-- A run keeps what is announced, and moves the state. -/
theorem Announces.run (hm : Moves I R A) (h : p.Announces I R A) (schedule : List ι) :
    (p.run schedule).Announces I R A ∧ R p.shared (p.run schedule).shared := by
  induction schedule generalizing p with
  | nil => exact ⟨h, hm.refl _⟩
  | cons i schedule ih =>
    obtain ⟨hstep, hR, _⟩ := h.step hm i
    obtain ⟨hrun, hR'⟩ := ih hstep
    exact ⟨hrun, hm.trans hR hR'⟩

/-- The state of a longer run has moved on. -/
theorem Announces.run_longer (hm : Moves I R A) (h : p.Announces I R A) {s s' : List ι}
    (hs : s <+: s') : R (p.run s).shared (p.run s').shared := by
  obtain ⟨later, rfl⟩ := hs
  rw [run_append]
  exact ((h.run hm s).1.run hm later).2

/-- Every turn of a run is announced. -/
theorem Announces.turn (hm : Moves I R A) (h : p.Announces I R A) (s : List ι) (i : ι) :
    Turn A (p.run s) i :=
  ((h.run hm s).1.step hm i).2.2

/-- What holds of a pool and is kept by every announced turn holds after every run. -/
theorem Announces.induction (hm : Moves I R A) (h : p.Announces I R A)
    {P : List ι → Pool ι σ ρ → Prop} (hnil : P [] p)
    (hpass : ∀ s i, P s (p.run s) → (∃ result, (p.run s).threads i = .done result) →
      P (s ++ [i]) (p.run s))
    (hturn : ∀ s i, I (p.run s).shared → P s (p.run s) → ((p.run s).threads i).answer = none →
      A i (p.run s).shared ((p.run s).step i).shared (((p.run s).step i).threads i).answer →
        P (s ++ [i]) ((p.run s).step i)) (schedule : List ι) : P schedule (p.run schedule) := by
  induction schedule using List.reverseRecOn with
  | nil => exact hnil
  | append_singleton s i ih =>
    have hstep : p.run (s ++ [i]) = (p.run s).step i := run_append
    rw [hstep]
    rcases h.turn hm s i with ⟨hdone, hsame⟩ | ⟨hopen, hA⟩
    · rw [hsame]
      exact hpass s i ih hdone
    · exact hturn s i (h.run hm s).1.shared ih hopen hA

/-- A thread that was open and is done has had a last turn, which ended it with its result. -/
theorem Announces.exists_last_turn (hm : Moves I R A) (h : p.Announces I R A)
    (hopen : (p.threads i).answer = none) (hdone : (p.run schedule).threads i = .done result) :
    ∃ s₁ s₂, schedule = s₁ ++ i :: s₂ ∧ ((p.run s₁).threads i).answer = none ∧
      A i (p.run s₁).shared (p.run (s₁ ++ [i])).shared (some result) ∧
        (p.run (s₁ ++ [i])).threads i = .done result := by
  induction schedule using List.reverseRecOn with
  | nil =>
    rw [run_nil] at hdone
    rw [hdone] at hopen
    contradiction
  | append_singleton s j ih =>
    have hstep : p.run (s ++ [j]) = (p.run s).step j := run_append
    by_cases hbefore : (p.run s).threads i = .done result
    · obtain ⟨s₁, s₂, rfl, hrest⟩ := ih hbefore
      exact ⟨s₁, s₂ ++ [j], by rw [List.append_assoc, List.cons_append], hrest⟩
    · have hj : j = i := by
        by_contra hne
        rw [hstep, threads_step_of_ne (Ne.symm hne)] at hdone
        exact hbefore hdone
      subst hj
      rcases h.turn hm s j with ⟨_, hsame⟩ | ⟨hopen', hA⟩
      · rw [hstep, hsame] at hdone
        exact absurd hdone hbefore
      · rw [← hstep, hdone] at hA
        exact ⟨s, [], rfl, hopen', hA, hdone⟩

end

/-! ## Silent threads -/

section

variable {silent : ι → Prop}

/-- Two pools that differ in silent threads only. -/
structure SameBut (silent : ι → Prop) (p q : Pool ι σ ρ) : Prop where
  /-- The state is the same. -/
  shared : p.shared = q.shared
  /-- So are the other threads. -/
  threads : ∀ i, ¬ silent i → p.threads i = q.threads i
  /-- The threads that may differ are silent. -/
  silence : ∀ i, silent i → (p.threads i).Silent

/-- The turn of a silent thread can be left out. -/
theorem SameBut.step_silent (h : SameBut silent p q) {i : ι} (hi : silent i) :
    SameBut silent (p.step i) q := by
  obtain ⟨hsame, hstill⟩ := (h.silence i hi).turn p.shared
  refine ⟨hsame.trans h.shared, fun j hj => ?_, fun j hj => ?_⟩
  · have hne : j ≠ i := by
      rintro rfl
      exact hj hi
    rw [threads_step_of_ne hne, h.threads j hj]
  · by_cases hji : j = i
    · rw [hji, threads_step_self]
      exact hstill
    · rw [threads_step_of_ne hji]
      exact h.silence j hj

/-- Any other turn is taken in both pools. -/
theorem SameBut.step (h : SameBut silent p q) {i : ι} (hi : ¬ silent i) :
    SameBut silent (p.step i) (q.step i) := by
  have hturn : (p.threads i).turn p.shared = (q.threads i).turn q.shared := by
    rw [h.threads i hi, h.shared]
  refine ⟨congrArg Prod.snd hturn, fun j hj => ?_, fun j hj => ?_⟩
  · by_cases hji : j = i
    · rw [hji, threads_step_self, threads_step_self, hturn]
    · rw [threads_step_of_ne hji, threads_step_of_ne hji, h.threads j hj]
  · have hne : j ≠ i := by
      rintro rfl
      exact hi hj
    rw [threads_step_of_ne hne]
    exact h.silence j hj

/-- The turns of silent threads can be left out of a schedule. -/
theorem SameBut.run_filter [DecidablePred silent] (h : SameBut silent p q)
    (schedule : List ι) :
    SameBut silent (p.run schedule) (q.run (schedule.filter fun i => ¬ silent i)) := by
  induction schedule generalizing p q with
  | nil => exact h
  | cons i schedule ih =>
    by_cases hi : silent i
    · rw [List.filter_cons_of_neg (by simpa using hi)]
      exact ih (h.step_silent hi)
    · rw [List.filter_cons_of_pos (by simpa using hi)]
      exact ih (h.step hi)

end

end Pool

end Interleaving
