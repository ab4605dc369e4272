import Mathlib.Data.List.Basic

/-!
# Keyed logs

A log of edits, each of one key, is replayed over a store. What the store reads
at a key afterwards is decided by the edits of that key alone, and what is
observed of the reading by the newest of these edits that sets the observation.
-/

namespace KeyedLog

variable {κ ε : Type*} [DecidableEq κ]

/-- The edits of one key, newest first. -/
def newest (key : ε → κ) (k : κ) (log : List ε) : List ε :=
  (log.filter (key · = k)).reverse

variable {key : ε → κ} {k : κ} {log log' : List ε} {e : ε}

@[simp] theorem newest_nil : newest key k [] = [] := rfl

/-- Later edits come first. -/
theorem newest_append : newest key k (log ++ log') = newest key k log' ++ newest key k log := by
  rw [newest, List.filter_append, List.reverse_append, newest, newest]

/-- The oldest edit comes last. -/
theorem newest_cons :
    newest key k (e :: log) = newest key k log ++ if key e = k then [e] else [] := by
  rw [← List.singleton_append, newest_append]
  by_cases h : key e = k <;> simp [newest, h]

/-- The newest edit comes first. -/
theorem newest_concat :
    newest key k (log ++ [e]) = if key e = k then e :: newest key k log else newest key k log := by
  rw [newest_append]
  by_cases h : key e = k <;> simp [newest, h]

/-- The edits of a key are those edits of the log that name it. -/
theorem mem_newest : e ∈ newest key k log ↔ e ∈ log ∧ key e = k := by
  simp only [newest, List.mem_reverse, List.mem_filter, decide_eq_true_eq]

/-- A key that no edit names has no edits. -/
theorem newest_eq_nil_iff : newest key k log = [] ↔ ∀ e ∈ log, key e ≠ k := by
  simp only [newest, List.reverse_eq_nil_iff, List.filter_eq_nil_iff, decide_eq_true_eq, ne_eq]

section Replay

variable {σ ν : Type*} (read : σ → κ → ν) {step : σ → ε → σ} (edit : ε → ν → ν)

/-- After a replay, a key reads as its own edits make of what it read before. -/
theorem read_foldl
    (hstep : ∀ s e k, read (step s e) k = if key e = k then edit e (read s k) else read s k)
    (s : σ) (log : List ε) (k : κ) :
    read (log.foldl step s) k = (newest key k log).foldr edit (read s k) := by
  induction log generalizing s with
  | nil => rfl
  | cons e log ih =>
    rw [List.foldl_cons, ih, newest_cons, List.foldr_append, hstep]
    split <;> rfl

end Replay

/-- The newest edit that sets an observation decides it; without one the observation stays. -/
theorem observe_foldr {ν β : Type*} (observe : ν → β) {edit : ε → ν → ν} {set : ε → Option β}
    (hedit : ∀ e v, observe (edit e v) = (set e).getD (observe v)) (edits : List ε) (v : ν) :
    observe (edits.foldr edit v) = (edits.findSome? set).getD (observe v) := by
  induction edits with
  | nil => rfl
  | cons e edits ih =>
    rw [List.foldr_cons, hedit, ih, List.findSome?_cons]
    cases set e <;> rfl

end KeyedLog
