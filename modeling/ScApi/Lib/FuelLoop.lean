import Mathlib.Tactic.Common

/-!
# Loops with fuel

A loop that is not known to end is run for a number of turns at most, and fails when these are spent.
The number is scaffolding: what the loop really does are its turns. A loop that is out of fuel has made
all its turns and would go on, and one that is not has ended, so that more fuel changes nothing and there
is no endless sequence of turns.

## Main results

* `run_eq_spent_iff`: when the fuel is spent.
* `run_stable`: more fuel changes nothing.
* `not_endless`: a loop that has ended has no endless sequence of turns.
-/

namespace FuelLoop

variable {σ β ε : Type*}

/-- The loop, for some turns. A turn fails, leaves the loop with a result, or goes on in a state. -/
def run (turn : σ → Except ε (β ⊕ σ)) (spent : ε) : ℕ → σ → Except ε β
  | 0, _ => .error spent
  | n + 1, s =>
      match turn s with
      | .error e => .error e
      | .ok (.inl b) => .ok b
      | .ok (.inr s') => run turn spent n s'

/-- A turn that goes on. -/
def GoesOn (turn : σ → Except ε (β ⊕ σ)) (s s' : σ) : Prop :=
  turn s = .ok (.inr s')

/-- Some turns that go on. -/
inductive Turns (turn : σ → Except ε (β ⊕ σ)) : ℕ → σ → σ → Prop
  | zero (s : σ) : Turns turn 0 s s
  | succ {n : ℕ} {s s' s'' : σ} (h : GoesOn turn s s') (hrest : Turns turn n s' s'') :
      Turns turn (n + 1) s s''

section

variable {turn turn' : σ → Except ε (β ⊕ σ)} {spent : ε} {n m : ℕ} {s s' : σ}

theorem Turns.mono (h : Turns turn n s s')
    (hturn : ∀ s s', GoesOn turn s s' → GoesOn turn' s s') : Turns turn' n s s' := by
  induction h with
  | zero s => exact .zero s
  | succ h _ ih => exact .succ (hturn _ _ h) ih

theorem turns_succ_iff {s'' : σ} :
    Turns turn (n + 1) s s'' ↔ ∃ s', GoesOn turn s s' ∧ Turns turn n s' s'' := by
  constructor
  · intro h
    cases h with
    | succ h hrest => exact ⟨_, h, hrest⟩
  · rintro ⟨s', h, hrest⟩
    exact .succ h hrest

/-- **When the fuel is spent**: the loop has made as many turns. -/
theorem run_eq_spent_iff (hturn : ∀ s, turn s ≠ .error spent) :
    run turn spent n s = .error spent ↔ ∃ s', Turns turn n s s' := by
  induction n generalizing s with
  | zero => exact ⟨fun _ => ⟨s, .zero s⟩, fun _ => rfl⟩
  | succ n ih =>
      simp only [turns_succ_iff, GoesOn]
      rw [run]
      cases hs : turn s with
      | error e =>
          have hne : e ≠ spent := fun he => hturn s (he ▸ hs)
          simp [hne]
      | ok next =>
          cases next with
          | inl b => simp
          | inr s₁ => simp [ih]

/-- **More fuel changes nothing.** -/
theorem run_stable (h : run turn spent n s ≠ .error spent) (hle : n ≤ m) :
    run turn spent m s = run turn spent n s := by
  induction n generalizing s m with
  | zero => exact absurd rfl h
  | succ n ih =>
      obtain ⟨m, rfl⟩ := Nat.exists_eq_succ_of_ne_zero (by omega : m ≠ 0)
      rw [run] at h ⊢
      rw [run]
      cases hs : turn s with
      | error e => rfl
      | ok next =>
          rw [hs] at h
          cases next with
          | inl b => rfl
          | inr s₁ => exact ih h (by omega)

/-- **No endless sequence of turns.** -/
theorem not_endless (hturn : ∀ s, turn s ≠ .error spent) (h : run turn spent n s ≠ .error spent) :
    ¬ ∃ f : ℕ → σ, f 0 = s ∧ ∀ i, GoesOn turn (f i) (f (i + 1)) := by
  rintro ⟨f, rfl, hf⟩
  have hturns : ∀ n i, Turns turn n (f i) (f (i + n)) := by
    intro n
    induction n with
    | zero => exact fun i => .zero _
    | succ n ih =>
        intro i
        have hrest := ih (i + 1)
        rw [Nat.add_assoc, Nat.add_comm 1 n] at hrest
        exact .succ (hf i) hrest
  exact h ((run_eq_spent_iff hturn).mpr ⟨_, hturns n 0⟩)

end

end FuelLoop
