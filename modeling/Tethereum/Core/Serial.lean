import Tethereum.Core.Turns
import Mathlib.Data.List.Nodup

/-!
# Serial order

A thread that takes effect in one of its sections changes nothing before, and after
it nothing more; its result is then settled. In every run such threads do what they
do one after another, each of them alone, in the order in which they took effect.
-/

namespace Interleaving

universe u v w

namespace Thread

variable {σ : Type u} {ρ : Type v}

/-- Whatever the others do by `R`, the thread changes nothing any more and ends with the
result. -/
def Settled (I : σ → Prop) (R : σ → σ → Prop) (result : ρ) : Thread σ ρ → σ → Prop
  | done result', _ => result' = result
  | locked update next, s => ∀ s', R s s' → I s' →
    update s' = s' ∧ (next s').Settled I R result s'

/-- The turn does all that the thread would do alone. -/
def TakesEffect (I : σ → Prop) (R : σ → σ → Prop) (t : Thread σ ρ) (s : σ) : Prop :=
  I (t.turn s).2 ∧ R s (t.turn s).2 ∧ (t.turn s).2 = (t.alone s).2 ∧
    (t.turn s).1.Settled I R (t.alone s).1 (t.turn s).2

/-- Each turn either does all that the thread would do alone, or it changes nothing, and what is
left of the thread would still do the same. -/
def Atomic (I : σ → Prop) (R : σ → σ → Prop) : Thread σ ρ → σ → Prop
  | done _, _ => True
  | locked update next, s => ∀ s', R s s' → I s' →
    (locked update next).TakesEffect I R s' ∨
      update s' = s' ∧ (next s').answer = none ∧ (next s').Atomic I R s' ∧
        ∀ s'', R s' s'' → I s'' → (next s').alone s'' = (locked update next).alone s''

section

variable {ρ' : Type v} {I : σ → Prop} {R : σ → σ → Prop} {t : Thread σ ρ} {s s' : σ}
  {update : σ → σ} {next : σ → Thread σ ρ} {result : ρ} {f : ρ → ρ'}

/-- A settled thread relies on what the others do. -/
theorem Settled.rely (htrans : ∀ {s₁ s₂ s₃}, R s₁ s₂ → R s₂ s₃ → R s₁ s₃)
    (h : t.Settled I R result s) (hR : R s s') : t.Settled I R result s' := by
  cases t with
  | done result' => exact h
  | locked update next => exact fun s'' hR' => h s'' (htrans hR hR')

/-- A settled thread changes nothing with its turn. -/
theorem Settled.turn (h : t.Settled I R result s) (hR : R s s) (hI : I s) :
    (t.turn s).2 = s ∧ (t.turn s).1.Settled I R result s := by
  cases t with
  | done result' => exact ⟨rfl, h⟩
  | locked update next => exact h s hR hI

/-- An atomic thread relies on what the others do. -/
theorem Atomic.rely (htrans : ∀ {s₁ s₂ s₃}, R s₁ s₂ → R s₂ s₃ → R s₁ s₃)
    (h : t.Atomic I R s) (hR : R s s') : t.Atomic I R s' := by
  cases t with
  | done result' => trivial
  | locked update next => exact fun s'' hR' => h s'' (htrans hR hR')

/-- A turn of an atomic thread that has not ended. -/
theorem Atomic.turn (h : t.Atomic I R s) (hopen : t.answer = none) (hR : R s s) (hI : I s) :
    t.TakesEffect I R s ∨ (t.turn s).2 = s ∧ (t.turn s).1.answer = none ∧
      (t.turn s).1.Atomic I R s ∧ ∀ s', R s s' → I s' → (t.turn s).1.alone s' = t.alone s' := by
  cases t with
  | done result' => cases hopen
  | locked update next => exact h s hR hI

/-- Alone, a thread takes its turns one after another. -/
theorem alone_turn (t : Thread σ ρ) (s : σ) : (t.turn s).1.alone (t.turn s).2 = t.alone s := by
  cases t with
  | done result => rfl
  | locked update next => rfl

/-- A thread that ends with its section takes effect in it. -/
theorem takesEffect_of_ends (hI : I (update s)) (hR : R s (update s))
    (hends : next s = done result) : (locked update next).TakesEffect I R s := by
  have halone : (locked update next).alone s = (result, update s) := by
    rw [alone, hends, alone]
  refine ⟨hI, hR, by rw [halone]; rfl, ?_⟩
  rw [halone]
  change (next s).Settled I R result (update s)
  rw [hends]
  rfl

/-- A thread of one section is atomic. -/
theorem atomic_of_ends (h : ∀ s', I s' → I (update s') ∧ R s' (update s') ∧
    ∃ result, next s' = done result) : (locked update next).Atomic I R s := by
  intro s' _ hI
  obtain ⟨hI', hR', result, hends⟩ := h s' hI
  exact Or.inl (takesEffect_of_ends hI' hR' hends)

/-- What is settled stays so with another result. -/
theorem Settled.map (h : t.Settled I R result s) : (t.map f).Settled I R (f result) s := by
  induction t generalizing s with
  | done result' => exact congrArg f h
  | locked update next ih =>
    intro s' hR hI
    obtain ⟨hsame, hnext⟩ := h s' hR hI
    exact ⟨hsame, ih s' hnext⟩

/-- So does what takes effect. -/
theorem TakesEffect.map (h : t.TakesEffect I R s) : (t.map f).TakesEffect I R s := by
  obtain ⟨hI, hR, hshared, hsettled⟩ := h
  have hturn : (t.map f).turn s = ((t.turn s).1.map f, (t.turn s).2) := by
    cases t with
    | done result' => rfl
    | locked update next => rfl
  rw [TakesEffect, hturn, alone_map]
  exact ⟨hI, hR, hshared, hsettled.map⟩

/-- A thread is atomic with another result, too. -/
theorem Atomic.map (h : t.Atomic I R s) : (t.map f).Atomic I R s := by
  induction t generalizing s with
  | done result' => trivial
  | locked update next ih =>
    intro s' hR hI
    rcases h s' hR hI with heffect | ⟨hsame, hopen, hnext, halone⟩
    · exact Or.inl heffect.map
    · refine Or.inr ⟨hsame, ?_, ih s' hnext, fun s'' hR' hI' => ?_⟩
      · rw [answer_map, hopen, Option.map_none]
      · rw [alone_map, halone s'' hR' hI']
        exact alone_map.symm

end

end Thread

namespace Pool

variable {ι : Type w} {σ : Type u} {ρ : Type v}

/-- What threads make of the state one after another, each of them alone. -/
def serial (p : Pool ι σ ρ) (order : List ι) : σ :=
  order.foldl (fun s i => ((p.threads i).alone s).2) p.shared

/-- The thread, alone and when the order has come to it, has this result. -/
def SerialResult (p : Pool ι σ ρ) (order : List ι) (i : ι) (result : ρ) : Prop :=
  ∃ o₁ o₂, order = o₁ ++ i :: o₂ ∧ ((p.threads i).alone (p.serial o₁)).1 = result

variable [DecidableEq ι]

/-- The run of a schedule does what the threads of an order do one after another. -/
structure Serializes (p : Pool ι σ ρ) (schedule order : List ι) : Prop where
  /-- Every thread comes once at most. -/
  nodup : order.Nodup
  /-- Only threads come that have had a turn. -/
  started : order ⊆ schedule
  /-- The state is the same. -/
  shared : (p.run schedule).shared = p.serial order
  /-- So are the results of the threads that have ended, unless they had to begin with. -/
  result : ∀ i result, (p.run schedule).threads i = .done result →
    p.threads i = .done result ∨ p.SerialResult order i result

/-- How far threads have come that take effect in an order. -/
structure Effects (I : σ → Prop) (R : σ → σ → Prop) (p q : Pool ι σ ρ) (order : List ι) :
    Prop where
  /-- The state satisfies `I`. -/
  invariant : I q.shared
  /-- Every thread takes effect once at most. -/
  nodup : order.Nodup
  /-- The state is what the threads of the order make of it. -/
  shared : q.shared = p.serial order
  /-- A thread that has taken effect is settled. -/
  settled : ∀ i ∈ order, ∃ result, p.SerialResult order i result ∧
    (q.threads i).Settled I R result q.shared
  /-- Any other thread still is to take effect. -/
  waiting : ∀ i, i ∉ order → (q.threads i).Atomic I R q.shared ∧
    (q.threads i = p.threads i ∨ (q.threads i).answer = none) ∧
    ∀ s, R q.shared s → I s → (q.threads i).alone s = (p.threads i).alone s

section

variable {I : σ → Prop} {R : σ → σ → Prop} {p q : Pool ι σ ρ} {order : List ι} {i : ι}

omit [DecidableEq ι] in
/-- A result stays the same when the order goes on. -/
theorem SerialResult.append {result : ρ} (h : p.SerialResult order i result) (later : List ι) :
    p.SerialResult (order ++ later) i result := by
  obtain ⟨o₁, o₂, rfl, hresult⟩ := h
  exact ⟨o₁, o₂ ++ later, by rw [List.append_assoc, List.cons_append], hresult⟩

/-- A turn that changes nothing of the state keeps the order. -/
theorem Effects.step_quiet (h : Effects I R p q order) (hsame : (q.step i).shared = q.shared)
    (hsettled : i ∈ order → ∀ result, (q.threads i).Settled I R result q.shared →
      ((q.step i).threads i).Settled I R result q.shared)
    (hwaiting : i ∉ order → ((q.step i).threads i).Atomic I R q.shared ∧
      ((q.step i).threads i = p.threads i ∨ ((q.step i).threads i).answer = none) ∧
      ∀ s, R q.shared s → I s → ((q.step i).threads i).alone s = (p.threads i).alone s) :
    Effects I R p (q.step i) order := by
  refine ⟨hsame.symm ▸ h.invariant, h.nodup, hsame.trans h.shared, fun j hj => ?_, fun j hj => ?_⟩
  · obtain ⟨result, hresult, hstill⟩ := h.settled j hj
    refine ⟨result, hresult, ?_⟩
    rw [hsame]
    by_cases hji : j = i
    · rw [hji] at hj hstill ⊢
      exact hsettled hj result hstill
    · rw [threads_step_of_ne hji]
      exact hstill
  · rw [hsame]
    by_cases hji : j = i
    · rw [hji] at hj ⊢
      exact hwaiting hj
    · rw [threads_step_of_ne hji]
      exact h.waiting j hj

/-- A turn with which a thread takes effect puts it at the end of the order. -/
theorem Effects.step_effect (h : Effects I R p q order) (hrefl : ∀ s, R s s)
    (htrans : ∀ {s₁ s₂ s₃}, R s₁ s₂ → R s₂ s₃ → R s₁ s₃) (hi : i ∉ order)
    (heffect : (q.threads i).TakesEffect I R q.shared) :
    Effects I R p (q.step i) (order ++ [i]) := by
  obtain ⟨hI, hR, hshared, hsettled⟩ := heffect
  have halone := (h.waiting i hi).2.2 q.shared (hrefl _) h.invariant
  have hserial : p.serial (order ++ [i]) = ((p.threads i).alone q.shared).2 := by
    rw [serial, List.foldl_append, ← serial, ← h.shared]
    rfl
  refine ⟨hI, ?_, ?_, fun j hj => ?_, fun j hj => ?_⟩
  · rw [← List.concat_eq_append]
    exact List.Nodup.concat hi h.nodup
  · rw [hserial, ← halone]
    exact hshared
  · by_cases hji : j = i
    · rw [hji, threads_step_self]
      refine ⟨_, ⟨order, [], rfl, ?_⟩, hsettled⟩
      rw [← h.shared, ← halone]
    · obtain ⟨result, hresult, hstill⟩ := h.settled j
        ((List.mem_append.mp hj).resolve_right fun hin => hji (List.mem_singleton.mp hin))
      rw [threads_step_of_ne hji]
      exact ⟨result, hresult.append [i], hstill.rely htrans hR⟩
  · rw [List.mem_append, not_or, List.mem_singleton] at hj
    obtain ⟨hatomic, hbegun, hsame⟩ := h.waiting j hj.1
    rw [threads_step_of_ne hj.2]
    exact ⟨hatomic.rely htrans hR, hbegun, fun s hs => hsame s (htrans hR hs)⟩

/-- A turn keeps the order, or puts its thread at the end of it. -/
theorem Effects.step (h : Effects I R p q order) (hrefl : ∀ s, R s s)
    (htrans : ∀ {s₁ s₂ s₃}, R s₁ s₂ → R s₂ s₃ → R s₁ s₃) (i : ι) :
    Effects I R p (q.step i) order ∨ Effects I R p (q.step i) (order ++ [i]) := by
  have hshared : (q.step i).shared = ((q.threads i).turn q.shared).2 := rfl
  by_cases hi : i ∈ order
  · -- the thread has taken effect before
    obtain ⟨result, _, hsettled⟩ := h.settled i hi
    refine Or.inl (h.step_quiet ?_ (fun _ result' hsettled' => ?_) (absurd hi))
    · exact (hsettled.turn (hrefl _) h.invariant).1
    · rw [threads_step_self]
      exact (hsettled'.turn (hrefl _) h.invariant).2
  · obtain ⟨hatomic, hbegun, hsame⟩ := h.waiting i hi
    cases hanswer : (q.threads i).answer with
    | some result =>
      -- it had ended to begin with
      have hdone := Thread.answer_eq_some_iff.mp hanswer
      rw [step_of_done hdone]
      exact Or.inl h
    | none =>
      rcases hatomic.turn hanswer (hrefl _) h.invariant with
        heffect | ⟨hstill, hopen, hnext, hlater⟩
      · exact Or.inr (h.step_effect hrefl htrans hi heffect)
      · refine Or.inl (h.step_quiet (hshared.trans hstill) (absurd · hi) fun _ => ?_)
        rw [threads_step_self]
        refine ⟨hnext, Or.inr hopen, fun s hR hI => ?_⟩
        rw [hlater s hR hI, hsame s hR hI]

/-- What has taken effect serializes the run. -/
theorem Effects.serializes {schedule : List ι} (h : Effects I R p (p.run schedule) order)
    (hstarted : order ⊆ schedule) : p.Serializes schedule order := by
  refine ⟨h.nodup, hstarted, h.shared, fun i result hdone => ?_⟩
  by_cases hi : i ∈ order
  · obtain ⟨result', hresult, hsettled⟩ := h.settled i hi
    rw [hdone] at hsettled
    obtain rfl : result = result' := hsettled
    exact Or.inr hresult
  · rcases (h.waiting i hi).2.1 with hsame | hopen
    · exact Or.inl (hsame ▸ hdone)
    · rw [hdone] at hopen
      cases hopen

/-- Every run of atomic threads is serial, in an order that grows with the run: a thread that had
ended before another one started comes before it. -/
theorem exists_serializes (hrefl : ∀ s, R s s)
    (htrans : ∀ {s₁ s₂ s₃}, R s₁ s₂ → R s₂ s₃ → R s₁ s₃) (hI : I p.shared)
    (hatomic : ∀ i, (p.threads i).Atomic I R p.shared) (schedule : List ι) :
    ∃ order, p.Serializes schedule order ∧
      ∀ s, s <+: schedule → ∃ o, o <+: order ∧ p.Serializes s o := by
  suffices hsuff : ∃ order, Effects I R p (p.run schedule) order ∧ order ⊆ schedule ∧
      ∀ s, s <+: schedule → ∃ o, o <+: order ∧ p.Serializes s o by
    obtain ⟨order, heffects, hstarted, hprefix⟩ := hsuff
    exact ⟨order, heffects.serializes hstarted, hprefix⟩
  induction schedule using List.reverseRecOn with
  | nil =>
    have hnil : Effects I R p p [] := ⟨hI, List.nodup_nil, rfl, fun _ hi => absurd hi
      List.not_mem_nil, fun i _ => ⟨hatomic i, Or.inl rfl, fun _ _ _ => rfl⟩⟩
    refine ⟨[], hnil, List.Subset.refl _, fun s hs => ?_⟩
    rw [List.prefix_nil.mp hs]
    exact ⟨[], List.nil_prefix, hnil.serializes (List.Subset.refl _)⟩
  | append_singleton s i ih =>
    obtain ⟨order, heffects, hstarted, hprefix⟩ := ih
    have hsub : order ⊆ s ++ [i] := List.Subset.trans hstarted (List.subset_append_left _ _)
    rcases heffects.step hrefl htrans i with hstep | hstep
    · have hrun : Effects I R p (p.run (s ++ [i])) order := by
        rw [run_append]
        exact hstep
      refine ⟨order, hrun, hsub, fun s' hs' => ?_⟩
      rcases List.prefix_concat_iff.mp hs' with rfl | hs'
      · exact ⟨order, List.prefix_refl _, hrun.serializes hsub⟩
      · exact hprefix s' hs'
    · have hrun : Effects I R p (p.run (s ++ [i])) (order ++ [i]) := by
        rw [run_append]
        exact hstep
      have hsub' : order ++ [i] ⊆ s ++ [i] :=
        List.append_subset.mpr ⟨hsub, List.subset_append_right _ _⟩
      refine ⟨order ++ [i], hrun, hsub', fun s' hs' => ?_⟩
      rcases List.prefix_concat_iff.mp hs' with rfl | hs'
      · exact ⟨order ++ [i], List.prefix_refl _, hrun.serializes hsub'⟩
      · obtain ⟨o, ho, hserial⟩ := hprefix s' hs'
        exact ⟨o, ho.trans (List.prefix_append _ _), hserial⟩

end

end Pool

end Interleaving
