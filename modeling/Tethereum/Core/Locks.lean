import Tethereum.Core.Turns
import Mathlib.Data.Finset.Card

/-!
# Threads that take guards

A thread takes a guard from a readers-writer lock, works on the shared state in
small steps, and gives the guard back. Readers work next to each other, a writer
works alone, and who cannot have a guard waits. When every thread gives its guard
back before it takes another one, a run serves what whole sections serve in the
order of the guards, and nobody waits for good.
-/

namespace Interleaving

universe u v v' w

/-- The two kinds of guards. -/
inductive GuardMode
  /-- It is shared with other readers. -/
  | read
  /-- It is held alone. -/
  | write
  deriving DecidableEq

/-- A readers-writer lock. -/
structure RwLock where
  /-- How many readers there are. -/
  readers : Nat := 0
  /-- Whether there is a writer. -/
  writer : Bool := false

namespace RwLock

/-- Take a guard, if it is to be had. -/
def acquire (lock : RwLock) : GuardMode → Option RwLock
  | .read => if lock.writer then none else some { lock with readers := lock.readers + 1 }
  | .write =>
    if lock.writer || lock.readers != 0 then none else some { lock with writer := true }

/-- Give a guard back. -/
def release (lock : RwLock) : GuardMode → RwLock
  | .read => { lock with readers := lock.readers - 1 }
  | .write => { lock with writer := false }

variable {lock lock' : RwLock}

/-- A reader waits for a writer only. -/
theorem acquire_read_eq_some_iff : lock.acquire .read = some lock' ↔
    lock.writer = false ∧ lock' = { lock with readers := lock.readers + 1 } := by
  rw [acquire]
  cases lock.writer with
  | true => exact iff_of_false (by rintro ⟨⟩) (by rintro ⟨⟨⟩, _⟩)
  | false => simp [eq_comm]

/-- A writer waits for everybody. -/
theorem acquire_write_eq_some_iff : lock.acquire .write = some lock' ↔
    lock.writer = false ∧ lock.readers = 0 ∧ lock' = { lock with writer := true } := by
  rw [acquire]
  cases lock.writer with
  | true => exact iff_of_false (by rintro ⟨⟩) (by rintro ⟨⟨⟩, _⟩)
  | false =>
    by_cases hr : lock.readers = 0
    · simp [hr, eq_comm]
    · simp [hr]

/-- A guard is given only when there is no writer. -/
theorem writer_of_acquire {mode : GuardMode} (h : lock.acquire mode = some lock') :
    lock.writer = false := by
  cases mode with
  | read => exact (acquire_read_eq_some_iff.mp h).1
  | write => exact (acquire_write_eq_some_iff.mp h).1

end RwLock

/-- A thread over a shared state behind a lock. -/
inductive GuardThread (σ : Type u) (ρ : Type v)
  /-- It has finished with a result. -/
  | done (result : ρ)
  /-- It takes a guard. -/
  | acquire (mode : GuardMode) (next : GuardThread σ ρ)
  /-- It looks at the state. -/
  | look (next : σ → GuardThread σ ρ)
  /-- It changes the state. -/
  | change (update : σ → σ) (next : GuardThread σ ρ)
  /-- It gives its guard back. -/
  | release (next : GuardThread σ ρ)

namespace GuardThread

variable {σ : Type u} {ρ : Type v} {ρ' : Type v'}

/-- The same steps, with another result. -/
def map (f : ρ → ρ') : GuardThread σ ρ → GuardThread σ ρ'
  | done result => done (f result)
  | acquire mode next => acquire mode (next.map f)
  | look next => look fun s => (next s).map f
  | change update next => change update (next.map f)
  | release next => release (next.map f)

/-- What the thread does alone until it gives its guard back: the state it leaves, and how it goes
on. There is no such thing if it takes another guard or ends before, or if a reader changes the
state. -/
def work (mode : GuardMode) : GuardThread σ ρ → σ → Option (σ × GuardThread σ ρ)
  | look next, s => (next s).work mode s
  | change update next, s => if mode = .write then next.work mode (update s) else none
  | release next, s => some (s, next)
  | _, _ => none

variable {t rest : GuardThread σ ρ} {s s' : σ} {mode : GuardMode}

/-- A reader leaves the state as it is. -/
theorem eq_of_work_read (h : t.work .read s = some (s', rest)) : s' = s := by
  induction t generalizing s with
  | look next ih => exact ih s h
  | release next =>
    cases h
    rfl
  | _ => cases h

/-- The work does not depend on the result. -/
theorem work_map (f : ρ → ρ') (h : t.work mode s = some (s', rest)) :
    (t.map f).work mode s = some (s', rest.map f) := by
  induction t generalizing s with
  | look next ih => exact ih s h
  | change update next ih =>
    cases mode with
    | read => cases h
    | write => exact ih h
  | release next =>
    cases h
    rfl
  | _ => cases h

end GuardThread

/-- The sections of a thread that takes guards: it takes one for each section, does what the
section does to any state, gives it back, and goes on as the thread does. -/
def Thread.SectionsOf {σ : Type u} {ρ : Type v} : Thread σ ρ → GuardThread σ ρ → Prop
  | .done result, t => t = .done result
  | .locked update next, t => ∃ mode body, t = .acquire mode body ∧
    ∀ s, ∃ rest, body.work mode s = some (update s, rest) ∧ (next s).SectionsOf rest

/-- A thread with another result has the same sections. -/
theorem Thread.SectionsOf.map {σ : Type u} {ρ : Type v} {ρ' : Type v'} {t : Thread σ ρ}
    {t' : GuardThread σ ρ} (h : t.SectionsOf t') (f : ρ → ρ') :
    (t.map f).SectionsOf (t'.map f) := by
  induction t generalizing t' with
  | done result => exact congrArg (GuardThread.map f) h
  | locked update next ih =>
    obtain ⟨mode, body, rfl, hbody⟩ := h
    refine ⟨mode, body.map f, rfl, fun s => ?_⟩
    obtain ⟨rest, hwork, hrest⟩ := hbody s
    exact ⟨rest.map f, GuardThread.work_map f hwork, ih s hrest⟩

/-- Threads, the state they share, and the lock it is behind. -/
structure GuardPool (ι : Type w) (σ : Type u) (ρ : Type v) where
  /-- The shared state. -/
  shared : σ
  /-- What is left of each thread. -/
  threads : ι → GuardThread σ ρ
  /-- The guard that each thread holds. -/
  held : ι → Option GuardMode := fun _ => none
  /-- The lock. -/
  lock : RwLock := {}

namespace GuardPool

variable {ι : Type w} {σ : Type u} {ρ : Type v} [DecidableEq ι]

/-- A turn of one thread. Who holds a guard already, or cannot have the one it wants, waits. -/
def step (q : GuardPool ι σ ρ) (i : ι) : GuardPool ι σ ρ :=
  match q.threads i with
  | .done _ => q
  | .acquire mode next =>
    match q.held i, q.lock.acquire mode with
    | none, some lock => { q with
      threads := Function.update q.threads i next
      held := Function.update q.held i (some mode)
      lock := lock }
    | _, _ => q
  | .look next => { q with threads := Function.update q.threads i (next q.shared) }
  | .change update next => { q with
    shared := update q.shared
    threads := Function.update q.threads i next }
  | .release next => { q with
    threads := Function.update q.threads i next
    held := Function.update q.held i none
    lock := (q.held i).elim q.lock q.lock.release }

/-- Turns in the order of a schedule. -/
def run (q : GuardPool ι σ ρ) (schedule : List ι) : GuardPool ι σ ρ := schedule.foldl step q

/-- The thread would be given a guard. -/
def grants (q : GuardPool ι σ ρ) (i : ι) : Bool :=
  match q.threads i with
  | .acquire mode _ => (q.held i).isNone && (q.lock.acquire mode).isSome
  | _ => false

/-- The turns of a schedule in which a guard is given. -/
def granted (q : GuardPool ι σ ρ) : List ι → List ι
  | [] => []
  | i :: schedule =>
    if q.grants i then i :: (q.step i).granted schedule else (q.step i).granted schedule

section

variable {q : GuardPool ι σ ρ} {p : Pool ι σ ρ} {i j : ι} {mode : GuardMode}
  {next : GuardThread σ ρ} {lock : RwLock}

@[simp] theorem run_nil : q.run [] = q := rfl

@[simp] theorem run_cons {turns : List ι} : q.run (i :: turns) = (q.step i).run turns := rfl

@[simp] theorem run_append {turns later : List ι} :
    q.run (turns ++ later) = (q.run turns).run later := List.foldl_append

/-- A wanted guard is given when it is to be had. -/
theorem step_of_acquired (ht : q.threads i = .acquire mode next) (hi : q.held i = none)
    (hlock : q.lock.acquire mode = some lock) : q.grants i = true ∧ q.step i = { q with
      threads := Function.update q.threads i next
      held := Function.update q.held i (some mode)
      lock := lock } := by
  constructor
  · simp only [grants, ht, hi, hlock, Option.isNone_none, Option.isSome_some, Bool.and_self]
  · simp only [step, ht, hi, hlock]

/-- Otherwise the thread waits. -/
theorem step_of_waiting (ht : q.threads i = .acquire mode next) (hi : q.held i = none)
    (hlock : q.lock.acquire mode = none) : q.grants i = false ∧ q.step i = q := by
  constructor
  · simp only [grants, ht, hlock, Option.isSome_none, Bool.and_false]
  · simp only [step, ht, hi, hlock]

/-- The state is only looked at. -/
theorem step_of_look {next : σ → GuardThread σ ρ} (ht : q.threads i = .look next) :
    q.grants i = false ∧
      q.step i = { q with threads := Function.update q.threads i (next q.shared) } := by
  constructor
  · simp only [grants, ht]
  · simp only [step, ht]

/-- The state is changed. -/
theorem step_of_change {update : σ → σ} (ht : q.threads i = .change update next) :
    q.grants i = false ∧ q.step i = { q with
      shared := update q.shared
      threads := Function.update q.threads i next } := by
  constructor
  · simp only [grants, ht]
  · simp only [step, ht]

/-- A guard is given back. -/
theorem step_of_release (ht : q.threads i = .release next) (hi : q.held i = some mode) :
    q.grants i = false ∧ q.step i = { q with
      threads := Function.update q.threads i next
      held := Function.update q.held i none
      lock := q.lock.release mode } := by
  constructor
  · simp only [grants, ht]
  · simp only [step, ht, hi, Option.elim]

/-! ## The guards that are held -/

/-- The lock knows who holds a guard, and a writer is alone. -/
structure Held (held : ι → Option GuardMode) (lock : RwLock) : Prop where
  /-- It counts the readers. -/
  readers : ∃ holders : Finset ι, (∀ i, i ∈ holders ↔ held i = some .read) ∧
    holders.card = lock.readers
  /-- It knows whether there is a writer. -/
  writer : lock.writer = true ↔ ∃ i, held i = some .write
  /-- Nobody else holds a guard next to a writer. -/
  alone : ∀ i, held i = some .write → ∀ j, j ≠ i → held j = none

namespace Held

variable {held : ι → Option GuardMode}

omit [DecidableEq ι] in
/-- Readers hold a lock that counts them and knows of no writer. -/
theorem of_readers (hw : lock.writer = false) (hnot : ∀ i, held i ≠ some .write)
    (hreaders : ∃ holders : Finset ι, (∀ i, i ∈ holders ↔ held i = some .read) ∧
      holders.card = lock.readers) : Held held lock where
  readers := hreaders
  writer := by
    rw [hw]
    exact iff_of_false (by rintro ⟨⟩) fun ⟨i, hi⟩ => hnot i hi
  alone i hi := absurd hi (hnot i)

omit [DecidableEq ι] in
/-- Nobody holds a new lock. -/
theorem of_none (hnone : ∀ i, held i = none) : Held held {} :=
  of_readers rfl (fun i => by simp [hnone]) ⟨∅, fun i => by simp [hnone], rfl⟩

/-- A thread that takes or drops a read guard makes no writer. -/
theorem update_ne_write (hnot : ∀ j, held j ≠ some .write) {guard : Option GuardMode}
    (hguard : guard ≠ some .write) (j : ι) : Function.update held i guard j ≠ some .write := by
  by_cases hj : j = i
  · rw [hj, Function.update_self]
    exact hguard
  · rw [Function.update_of_ne hj]
    exact hnot j

omit [DecidableEq ι] in
/-- Without a writer, whoever holds a guard is a reader. -/
theorem read_of_writer (h : Held held lock) (hw : lock.writer = false) (hi : held i = some mode) :
    mode = .read := by
  cases mode with
  | read => rfl
  | write =>
    have hsome := h.writer.mpr ⟨i, hi⟩
    rw [hw] at hsome
    contradiction

omit [DecidableEq ι] in
/-- Without readers and a writer nobody holds a guard. -/
theorem eq_none (h : Held held lock) (hw : lock.writer = false) (hr : lock.readers = 0) (i : ι) :
    held i = none := by
  obtain ⟨holders, hmem, hcard⟩ := h.readers
  rw [hr, Finset.card_eq_zero] at hcard
  cases hi : held i with
  | none => rfl
  | some mode =>
    obtain rfl := h.read_of_writer hw hi
    have hin := (hmem i).mpr hi
    rw [hcard] at hin
    exact absurd hin (Finset.notMem_empty i)

omit [DecidableEq ι] in
/-- A lock that nobody holds gives any guard. -/
theorem exists_acquire (h : Held held lock) (hnone : ∀ i, held i = none) (mode : GuardMode) :
    ∃ lock', lock.acquire mode = some lock' := by
  have hw : lock.writer = false := by
    rw [← Bool.not_eq_true, h.writer]
    rintro ⟨i, hi⟩
    rw [hnone i] at hi
    contradiction
  cases mode with
  | read => exact ⟨_, RwLock.acquire_read_eq_some_iff.mpr ⟨hw, rfl⟩⟩
  | write =>
    obtain ⟨holders, hmem, hcard⟩ := h.readers
    have hr : lock.readers = 0 := by
      rw [← hcard, Finset.card_eq_zero, Finset.eq_empty_iff_forall_notMem]
      intro i hin
      have hi := (hmem i).mp hin
      rw [hnone i] at hi
      contradiction
    exact ⟨_, RwLock.acquire_write_eq_some_iff.mpr ⟨hw, hr, rfl⟩⟩

/-- Finitely many hold a guard. -/
theorem exists_holders (h : Held held lock) :
    ∃ holders : Finset ι, ∀ i, held i ≠ none → i ∈ holders := by
  by_cases hw : ∃ i, held i = some .write
  · obtain ⟨i, hi⟩ := hw
    refine ⟨{i}, fun j hj => ?_⟩
    by_contra hne
    exact hj (h.alone i hi j (fun he => hne (Finset.mem_singleton.mpr he)))
  · obtain ⟨holders, hmem, _⟩ := h.readers
    refine ⟨holders, fun i hi => ?_⟩
    obtain ⟨mode, hmode⟩ := Option.ne_none_iff_exists'.mp hi
    cases mode with
    | read => exact (hmem i).mpr hmode
    | write => exact absurd ⟨i, hmode⟩ hw

/-- A guard that is given is held. -/
theorem acquire (h : Held held lock) (hi : held i = none) {lock' : RwLock}
    (hlock : lock.acquire mode = some lock') :
    Held (Function.update held i (some mode)) lock' := by
  have hw := RwLock.writer_of_acquire hlock
  have hnot : ∀ j, held j ≠ some .write := by
    intro j hj
    have hread := h.read_of_writer hw hj
    contradiction
  cases mode with
  | read =>
    obtain ⟨_, rfl⟩ := RwLock.acquire_read_eq_some_iff.mp hlock
    obtain ⟨holders, hmem, hcard⟩ := h.readers
    have hnotin : i ∉ holders := by
      rw [hmem, hi]
      rintro ⟨⟩
    refine of_readers hw (update_ne_write hnot (by rintro ⟨⟩)) ⟨insert i holders, fun j => ?_, ?_⟩
    · by_cases hj : j = i
      · simp [hj]
      · rw [Function.update_of_ne hj, Finset.mem_insert, or_iff_right hj, hmem]
    · rw [Finset.card_insert_of_notMem hnotin, hcard]
  | write =>
    obtain ⟨_, hr, rfl⟩ := RwLock.acquire_write_eq_some_iff.mp hlock
    have hnone := h.eq_none hw hr
    have hothers : ∀ j, j ≠ i → Function.update held i (some .write) j = none := by
      intro j hj
      rw [Function.update_of_ne hj, hnone]
    refine ⟨⟨∅, fun j => ?_, hr.symm⟩, ?_, fun j hj k hk => ?_⟩
    · by_cases hj : j = i
      · simp [hj]
      · simp [hothers j hj]
    · exact iff_of_true rfl ⟨i, Function.update_self i _ _⟩
    · have hji : j = i := by
        by_contra hne
        rw [hothers j hne] at hj
        contradiction
      exact hothers k (hji ▸ hk)

/-- A guard that is given back is held no more. -/
theorem release (h : Held held lock) (hi : held i = some mode) :
    Held (Function.update held i none) (lock.release mode) := by
  obtain ⟨holders, hmem, hcard⟩ := h.readers
  cases mode with
  | read =>
    have hnot : ∀ j, held j ≠ some .write := by
      intro j hj
      by_cases hij : i = j
      · rw [← hij, hi] at hj
        contradiction
      · rw [h.alone j hj i hij] at hi
        contradiction
    have hw : lock.writer = false := by
      rw [← Bool.not_eq_true, h.writer]
      rintro ⟨j, hj⟩
      exact hnot j hj
    refine of_readers hw (update_ne_write hnot (by rintro ⟨⟩)) ⟨holders.erase i, fun j => ?_, ?_⟩
    · by_cases hj : j = i
      · simp [hj]
      · rw [Function.update_of_ne hj, Finset.mem_erase, and_iff_right hj, hmem]
    · rw [Finset.card_erase_of_mem ((hmem i).mpr hi), hcard]
      rfl
  | write =>
    have hnone : ∀ j, Function.update held i none j = none := by
      intro j
      by_cases hj : j = i
      · rw [hj, Function.update_self]
      · rw [Function.update_of_ne hj, h.alone i hi j hj]
    have hempty : holders = ∅ := by
      rw [Finset.eq_empty_iff_forall_notMem]
      intro j hin
      have hj := (hmem j).mp hin
      by_cases hji : j = i
      · rw [hji, hi] at hj
        contradiction
      · rw [h.alone i hi j hji] at hj
        contradiction
    have hfree : lock.release .write = {} := by
      rw [RwLock.release, ← hcard, hempty]
      rfl
    rw [hfree]
    exact of_none hnone

end Held

/-! ## Turns as sections -/

/-- The pool is where whole sections would be: a section takes place when its guard is given. -/
structure InSections (q : GuardPool ι σ ρ) (p : Pool ι σ ρ) : Prop where
  /-- The lock knows who holds a guard. -/
  held : Held q.held q.lock
  /-- Without a guard, a thread has the same sections left. -/
  outside : ∀ i, q.held i = none → (p.threads i).SectionsOf (q.threads i)
  /-- Who holds a guard will leave the state of the sections behind. -/
  inside : ∀ i mode, q.held i = some mode → ∃ rest,
    (q.threads i).work mode q.shared = some (p.shared, rest) ∧ (p.threads i).SectionsOf rest
  /-- Without a writer the state is that of the sections. -/
  shared : (∀ i, q.held i ≠ some .write) → q.shared = p.shared

namespace InSections

omit [DecidableEq ι] in
/-- A thread that takes a guard holds none, and it has a section ahead. -/
theorem of_acquire (h : InSections q p) (ht : q.threads i = .acquire mode next) :
    q.held i = none ∧ ∃ update next', p.threads i = .locked update next' ∧
      ∀ s, ∃ rest, next.work mode s = some (update s, rest) ∧ (next' s).SectionsOf rest := by
  cases hi : q.held i with
  | some mode' =>
    obtain ⟨rest, hwork, _⟩ := h.inside i mode' hi
    rw [ht] at hwork
    cases hwork
  | none =>
    refine ⟨rfl, ?_⟩
    have hsections := h.outside i hi
    rw [ht] at hsections
    cases hp : p.threads i with
    | done result =>
      rw [hp] at hsections
      cases hsections
    | locked update next' =>
      rw [hp] at hsections
      obtain ⟨mode', body, he, hbody⟩ := hsections
      cases he
      exact ⟨update, next', rfl, hbody⟩

omit [DecidableEq ι] in
/-- Any other thread that has not ended holds a guard. -/
theorem exists_mode (h : InSections q p) (hacquire : ∀ mode next, q.threads i ≠ .acquire mode next)
    (hdone : ∀ result, q.threads i ≠ .done result) : ∃ mode, q.held i = some mode := by
  cases hi : q.held i with
  | some mode => exact ⟨mode, rfl⟩
  | none =>
    have hsections := h.outside i hi
    cases hp : p.threads i with
    | done result =>
      rw [hp] at hsections
      exact absurd hsections (hdone result)
    | locked update next' =>
      rw [hp] at hsections
      obtain ⟨mode, body, he, _⟩ := hsections
      exact absurd he (hacquire mode body)

/-- A guard that is given is the turn of a section. -/
theorem acquire (h : InSections q p) (ht : q.threads i = .acquire mode next)
    (hlock : q.lock.acquire mode = some lock) :
    InSections { q with
      threads := Function.update q.threads i next
      held := Function.update q.held i (some mode)
      lock := lock } (p.step i) := by
  obtain ⟨hi, update, next', hp, hbody⟩ := h.of_acquire ht
  have hw := RwLock.writer_of_acquire hlock
  have hshared : q.shared = p.shared := h.shared fun j hj => by
    have hread := h.held.read_of_writer hw hj
    contradiction
  obtain ⟨rest, hwork, hrest⟩ := hbody p.shared
  have hstep : (p.step i).shared = update p.shared := by
    rw [Pool.step, hp]
    rfl
  have hnext : (p.step i).threads i = next' p.shared := by
    rw [Pool.threads_step_self, hp]
    rfl
  -- a section next to readers changes nothing
  have hsame : mode = .read → (p.step i).shared = p.shared := by
    rintro rfl
    rw [hstep]
    exact GuardThread.eq_of_work_read hwork
  refine ⟨h.held.acquire hi hlock, fun j hj => ?_, fun j mode' hj => ?_, fun hnot => ?_⟩
  · dsimp only at hj
    have hji : j ≠ i := by
      rintro rfl
      rw [Function.update_self] at hj
      contradiction
    rw [Function.update_of_ne hji] at hj
    rw [Pool.threads_step_of_ne hji]
    simpa only [Function.update_of_ne hji] using h.outside j hj
  · dsimp only at hj
    by_cases hji : j = i
    · subst hji
      rw [Function.update_self] at hj
      cases hj
      simp only [Function.update_self, hshared, hnext, hstep]
      exact ⟨rest, hwork, hrest⟩
    · rw [Function.update_of_ne hji] at hj
      have hread : mode = .read := by
        cases mode with
        | read => rfl
        | write =>
          obtain ⟨_, hr, _⟩ := RwLock.acquire_write_eq_some_iff.mp hlock
          rw [h.held.eq_none hw hr j] at hj
          contradiction
      rw [hsame hread, Pool.threads_step_of_ne hji]
      simpa only [Function.update_of_ne hji] using h.inside j mode' hj
  · have hread : mode = .read := by
      cases mode with
      | read => rfl
      | write => exact absurd (Function.update_self i _ _) (hnot i)
    rw [hsame hread]
    exact hshared

/-- A look of one thread is none of the others' business. -/
theorem look (h : InSections q p) {next : σ → GuardThread σ ρ} (ht : q.threads i = .look next) :
    InSections { q with threads := Function.update q.threads i (next q.shared) } p := by
  obtain ⟨mode, hi⟩ := h.exists_mode (i := i) (by simp [ht]) (by simp [ht])
  refine ⟨h.held, fun j hj => ?_, fun j mode' hj => ?_, h.shared⟩
  · have hji : j ≠ i := by
      rintro rfl
      rw [hi] at hj
      contradiction
    simpa only [Function.update_of_ne hji] using h.outside j hj
  · by_cases hji : j = i
    · subst hji
      have hinside := h.inside j mode' hj
      rw [ht] at hinside
      simp only [Function.update_self]
      exact hinside
    · simpa only [Function.update_of_ne hji] using h.inside j mode' hj

/-- A change is made by a writer, who is alone. -/
theorem change (h : InSections q p) {update : σ → σ} (ht : q.threads i = .change update next) :
    InSections { q with
      shared := update q.shared
      threads := Function.update q.threads i next } p := by
  obtain ⟨mode, hi⟩ := h.exists_mode (i := i) (by simp [ht]) (by simp [ht])
  obtain ⟨rest, hwork, hrest⟩ := h.inside i mode hi
  rw [ht] at hwork
  obtain rfl : mode = .write := by
    cases mode with
    | read => cases hwork
    | write => rfl
  refine ⟨h.held, fun j hj => ?_, fun j mode' hj => ?_, fun hnot => absurd hi (hnot i)⟩
  · have hji : j ≠ i := by
      rintro rfl
      rw [hi] at hj
      contradiction
    simpa only [Function.update_of_ne hji] using h.outside j hj
  · by_cases hji : j = i
    · subst hji
      obtain rfl : GuardMode.write = mode' := Option.some.inj (hi.symm.trans hj)
      simp only [Function.update_self]
      exact ⟨rest, hwork, hrest⟩
    · have hnone := h.held.alone i hi j hji
      exact absurd (hnone.symm.trans hj) (by rintro ⟨⟩)

/-- With the guard back, a section has taken place. -/
theorem release (h : InSections q p) (ht : q.threads i = .release next)
    (hi : q.held i = some mode) :
    InSections { q with
      threads := Function.update q.threads i next
      held := Function.update q.held i none
      lock := q.lock.release mode } p := by
  obtain ⟨rest, hwork, hrest⟩ := h.inside i mode hi
  rw [ht] at hwork
  obtain ⟨hshared, rfl⟩ : q.shared = p.shared ∧ next = rest := by
    simpa only [GuardThread.work, Option.some.injEq, Prod.mk.injEq] using hwork
  refine ⟨h.held.release hi, fun j hj => ?_, fun j mode' hj => ?_, fun _ => hshared⟩
  · dsimp only at hj
    by_cases hji : j = i
    · subst hji
      simpa only [Function.update_self] using hrest
    · rw [Function.update_of_ne hji] at hj
      simpa only [Function.update_of_ne hji] using h.outside j hj
  · dsimp only at hj
    have hji : j ≠ i := by
      rintro rfl
      rw [Function.update_self] at hj
      contradiction
    rw [Function.update_of_ne hji] at hj
    simpa only [Function.update_of_ne hji] using h.inside j mode' hj

/-- A turn in which a guard is given is the turn of a section, and any other turn is none. -/
theorem step (h : InSections q p) (i : ι) :
    InSections (q.step i) (if q.grants i then p.step i else p) := by
  cases ht : q.threads i with
  | done result =>
    have hstep : q.grants i = false ∧ q.step i = q := by
      simp only [grants, GuardPool.step, ht, and_self]
    rw [hstep.1, hstep.2]
    exact h
  | acquire mode next =>
    obtain ⟨hi, _⟩ := h.of_acquire ht
    cases hlock : q.lock.acquire mode with
    | none =>
      obtain ⟨hgrants, hstep⟩ := step_of_waiting ht hi hlock
      rw [hgrants, hstep]
      exact h
    | some lock =>
      obtain ⟨hgrants, hstep⟩ := step_of_acquired ht hi hlock
      rw [hgrants, hstep]
      exact h.acquire ht hlock
  | look next =>
    obtain ⟨hgrants, hstep⟩ := step_of_look ht
    rw [hgrants, hstep]
    exact h.look ht
  | change update next =>
    obtain ⟨hgrants, hstep⟩ := step_of_change ht
    rw [hgrants, hstep]
    exact h.change ht
  | release next =>
    obtain ⟨mode, hi⟩ := h.exists_mode (i := i) (by simp [ht]) (by simp [ht])
    obtain ⟨hgrants, hstep⟩ := step_of_release ht hi
    rw [hgrants, hstep]
    exact h.release ht hi

/-- A run is the run of the sections whose guards were given. -/
theorem run (h : InSections q p) (schedule : List ι) :
    InSections (q.run schedule) (p.run (q.granted schedule)) := by
  induction schedule generalizing q p with
  | nil => exact h
  | cons i schedule ih =>
    have hstep := ih (h.step i)
    rw [granted]
    split at hstep
    · rename_i hgrants
      rw [if_pos hgrants]
      exact hstep
    · rename_i hgrants
      rw [if_neg hgrants]
      exact hstep

end InSections

/-! ## Nobody waits for good -/

omit [DecidableEq ι] in
/-- A thread that has ended has ended with its sections. -/
theorem InSections.done (h : InSections q p) {result : ρ} (ht : q.threads i = .done result) :
    p.threads i = .done result := by
  cases hi : q.held i with
  | some mode =>
    obtain ⟨rest, hwork, _⟩ := h.inside i mode hi
    rw [ht] at hwork
    cases hwork
  | none =>
    have hsections := h.outside i hi
    rw [ht] at hsections
    cases hp : p.threads i with
    | done result' =>
      rw [hp] at hsections
      exact congrArg Thread.done (GuardThread.done.inj hsections).symm
    | locked update next' =>
      rw [hp] at hsections
      obtain ⟨_, _, he, _⟩ := hsections
      cases he

/-- Whoever holds a guard can give it back. -/
theorem InSections.exists_release (h : InSections q p) (hi : q.held i = some mode) :
    ∃ turns, InSections (q.run turns) p ∧ (q.run turns).held = Function.update q.held i none := by
  obtain ⟨t, ht⟩ : ∃ t, q.threads i = t := ⟨_, rfl⟩
  induction t generalizing q with
  | done result =>
    obtain ⟨rest, hwork, _⟩ := h.inside i mode hi
    rw [ht] at hwork
    cases hwork
  | acquire mode' next =>
    obtain ⟨hnone, _⟩ := h.of_acquire ht
    rw [hi] at hnone
    contradiction
  | look next ih =>
    obtain ⟨turns, hturns, hheld⟩ :=
      ih q.shared (h.look ht) hi (Function.update_self i _ _)
    refine ⟨i :: turns, ?_⟩
    rw [run_cons, (step_of_look ht).2]
    exact ⟨hturns, hheld⟩
  | change update next ih =>
    obtain ⟨turns, hturns, hheld⟩ := ih (h.change ht) hi (Function.update_self i _ _)
    refine ⟨i :: turns, ?_⟩
    rw [run_cons, (step_of_change ht).2]
    exact ⟨hturns, hheld⟩
  | release next =>
    refine ⟨[i], ?_⟩
    rw [run_cons, (step_of_release ht hi).2]
    exact ⟨h.release ht hi, rfl⟩

/-- All guards can be given back. -/
theorem InSections.exists_free (h : InSections q p) :
    ∃ turns, InSections (q.run turns) p ∧ ∀ i, (q.run turns).held i = none := by
  obtain ⟨holders, hholders⟩ := h.held.exists_holders
  induction holders using Finset.induction_on generalizing q with
  | empty =>
    refine ⟨[], h, fun i => ?_⟩
    by_contra hi
    exact absurd (hholders i hi) (Finset.notMem_empty i)
  | insert i holders hnotin ih =>
    cases hi : q.held i with
    | none =>
      refine ih h fun j hj => Finset.mem_of_mem_insert_of_ne (hholders j hj) ?_
      rintro rfl
      exact hj hi
    | some mode =>
      obtain ⟨turns, hturns, hheld⟩ := h.exists_release hi
      obtain ⟨later, hlater, hfree⟩ := ih hturns fun j hj => by
        rw [hheld] at hj
        have hji : j ≠ i := by
          rintro rfl
          exact hj (Function.update_self j _ _)
        rw [Function.update_of_ne hji] at hj
        exact Finset.mem_of_mem_insert_of_ne (hholders j hj) hji
      refine ⟨turns ++ later, ?_⟩
      rw [run_append]
      exact ⟨hlater, hfree⟩

/-- Every thread can be brought to its end. -/
theorem InSections.exists_done (h : InSections q p) (i : ι) :
    ∃ turns result, (q.run turns).threads i = .done result := by
  obtain ⟨t, ht⟩ : ∃ t, p.threads i = t := ⟨_, rfl⟩
  induction t generalizing q p with
  | done result =>
    obtain ⟨turns, hturns, hfree⟩ := h.exists_free
    have hsections := hturns.outside i (hfree i)
    rw [ht] at hsections
    exact ⟨turns, result, hsections⟩
  | locked update next ih =>
    obtain ⟨turns, hturns, hfree⟩ := h.exists_free
    have hsections := hturns.outside i (hfree i)
    rw [ht] at hsections
    obtain ⟨mode, body, hacquire, _⟩ := hsections
    -- nobody holds a guard, so the next one is given
    obtain ⟨lock, hlock⟩ := hturns.held.exists_acquire hfree mode
    have hnext : (p.step i).threads i = next p.shared := by
      rw [Pool.threads_step_self, ht]
      rfl
    obtain ⟨later, result, hend⟩ := ih p.shared (hturns.acquire hacquire hlock) hnext
    refine ⟨turns ++ i :: later, result, ?_⟩
    rw [← (step_of_acquired hacquire (hfree i) hlock).2] at hend
    rw [run_append, run_cons]
    exact hend

/-- Only some turns are those in which a guard is given. -/
theorem granted_sublist (q : GuardPool ι σ ρ) (schedule : List ι) :
    (q.granted schedule).Sublist schedule := by
  induction schedule generalizing q with
  | nil => exact List.Sublist.slnil
  | cons i schedule ih =>
    rw [granted]
    split
    · exact (ih _).cons_cons i
    · exact (ih _).cons i

end

end GuardPool

end Interleaving
