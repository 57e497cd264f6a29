import Mathlib.Data.List.Basic

/-!
# Threads and mutexes

The threads of a program are at points of it. A point says which mutexes a thread holds there and
which one it is about to take; a thread that is about to take a mutex goes on when no thread holds it.

Two threads are entangled when each waits for a mutex that the other one holds. A thread may be
entangled with itself: it waits for a mutex of its own.

## Main results

* `Exclusive.set`: no two threads ever hold the same mutex.
* `deadlocked_set_iff`: the only new deadlocks of a step are those of the thread that moves, and no
  deadlock is ever resolved.
-/

namespace Locks

variable {M P : Type}

/-- What a thread holds and what it waits for, at every point of a program. -/
structure Discipline (M P : Type) where
  held : P → List M
  wants : P → Option M

variable (d : Discipline M P)

/-- No thread holds the mutex. -/
def Free (threads : List P) (m : M) : Prop :=
  ∀ p ∈ threads, m ∉ d.held p

instance [DecidableEq M] (threads : List P) (m : M) : Decidable (Free d threads m) :=
  inferInstanceAs (Decidable (∀ p ∈ threads, m ∉ d.held p))

/-- A thread at the point can go on. -/
def Enabled (threads : List P) (p : P) : Prop :=
  ∀ m ∈ d.wants p, Free d threads m

instance [DecidableEq M] (threads : List P) (p : P) : Decidable (Enabled d threads p) :=
  inferInstanceAs (Decidable (∀ m ∈ d.wants p, Free d threads m))

/-- A step takes the mutex that the thread waits for, gives one back, or does neither. -/
def Moves (p p' : P) : Prop :=
  ∀ m ∈ d.held p', m ∈ d.held p ∨ some m = d.wants p

/-- No mutex is held by two threads. -/
def Exclusive (threads : List P) : Prop :=
  ∀ (i j : ℕ) (p q : P) (m : M), threads[i]? = some p → threads[j]? = some q →
    m ∈ d.held p → m ∈ d.held q → i = j

/-- Threads at these points wait for each other. -/
def Entangled (p q : P) : Prop :=
  (∃ m ∈ d.wants p, m ∈ d.held q) ∧ ∃ m ∈ d.wants q, m ∈ d.held p

/-- Some thread waits for itself, or some two threads wait for each other. -/
def Deadlocked (threads : List P) : Prop :=
  ∃ p ∈ threads, ∃ q ∈ threads, Entangled d p q

variable {d} {threads : List P} {i : ℕ} {p p' q : P}

theorem Entangled.symm (h : Entangled d p q) : Entangled d q p :=
  ⟨h.2, h.1⟩

/-- A thread that waits for a thread that is there cannot go on. -/
theorem Entangled.not_enabled (h : Entangled d p q) (hq : q ∈ threads) : ¬ Enabled d threads p := by
  obtain ⟨⟨m, hm, hheld⟩, -⟩ := h
  exact fun henabled => henabled m hm q hq hheld

/-- **No two threads hold the same mutex**, whatever step one of them takes. -/
theorem Exclusive.set (h : Exclusive d threads) (hp : threads[i]? = some p)
    (henabled : Enabled d threads p) (hmoves : Moves d p p') :
    Exclusive d (threads.set i p') := by
  have hlt : i < threads.length := (List.getElem?_eq_some_iff.mp hp).1
  have hother : ∀ (j : ℕ) (q : P) (m : M), threads[j]? = some q → m ∈ d.held p' → m ∈ d.held q →
      i = j := by
    intro j q m hq hp' hq'
    rcases hmoves m hp' with hheld | hwants
    · exact h i j p q m hp hq hheld hq'
    · exact absurd hq' (henabled m hwants.symm q (List.mem_of_getElem? hq))
  intro j k q r m hj hk hq hr
  by_cases hij : i = j
  · by_cases hik : i = k
    · rw [← hij, ← hik]
    · subst hij
      rw [List.getElem?_set_self hlt] at hj
      rw [List.getElem?_set_ne hik] at hk
      obtain rfl := Option.some.inj hj
      exact hother k r m hk hq hr
  · rw [List.getElem?_set_ne hij] at hj
    by_cases hik : i = k
    · subst hik
      rw [List.getElem?_set_self hlt] at hk
      obtain rfl := Option.some.inj hk
      exact (hother j q m hj hr hq).symm
    · rw [List.getElem?_set_ne hik] at hk
      exact h j k q r m hj hk hq hr

/-- Two threads at different points do not hold the same mutex. -/
theorem Exclusive.eq_of_mem (h : Exclusive d threads) {m : M} (hp : p ∈ threads) (hq : q ∈ threads)
    (hheld : m ∈ d.held p) (hheld' : m ∈ d.held q) : p = q := by
  obtain ⟨i, hi⟩ := List.getElem?_of_mem hp
  obtain ⟨j, hj⟩ := List.getElem?_of_mem hq
  obtain rfl := h i j p q m hi hj hheld hheld'
  exact Option.some.inj (hi.symm.trans hj)

/-- The threads that have not moved. -/
theorem mem_set_of_ne (hp : threads[i]? = some p) (hq : q ∈ threads) (hne : q ≠ p) :
    q ∈ threads.set i p' := by
  obtain ⟨j, hj⟩ := List.getElem?_of_mem hq
  have hij : i ≠ j := by
    rintro rfl
    exact hne (Option.some.inj (hj.symm.trans hp))
  exact List.mem_of_getElem? ((List.getElem?_set_ne hij).trans hj)

/-- **What a step does to deadlocks**: those that are there remain, and a new one is one of the thread
that has moved. -/
theorem deadlocked_set_iff (hp : threads[i]? = some p) (henabled : Enabled d threads p) :
    Deadlocked d (threads.set i p') ↔
      Deadlocked d threads ∨ ∃ q ∈ threads.set i p', Entangled d p' q := by
  have hlt : i < threads.length := (List.getElem?_eq_some_iff.mp hp).1
  constructor
  · rintro ⟨q, hq, r, hr, h⟩
    rcases List.mem_or_eq_of_mem_set hq with hq' | rfl
    · rcases List.mem_or_eq_of_mem_set hr with hr' | rfl
      · exact Or.inl ⟨q, hq', r, hr', h⟩
      · exact Or.inr ⟨q, hq, h.symm⟩
    · exact Or.inr ⟨r, hr, h⟩
  · rintro (⟨q, hq, r, hr, h⟩ | ⟨q, hq, h⟩)
    · have hqp : q ≠ p := by
        rintro rfl
        exact h.not_enabled hr henabled
      have hrp : r ≠ p := by
        rintro rfl
        exact h.symm.not_enabled hq henabled
      exact ⟨q, mem_set_of_ne hp hq hqp, r, mem_set_of_ne hp hr hrp, h⟩
    · exact ⟨p', List.mem_set hlt p', q, hq, h⟩

end Locks
