import Mathlib.Data.Nat.Bitwise

/-!
# Sets of small numbers in a word

A word of 64 bits is a set of numbers less than 64: the bits that are set. A number is put in with a
disjunction, taken out with a conjunction, and looked for with a test against zero.

## Main results

* `mem_iff_getLsbD`: a number is in the set when its bit is set.
* `mem_insert`, `mem_erase`: what is in the set after a change.
-/

namespace BitSet

/-- The word in which the bit of a number is set. -/
def bit (i : ℕ) : UInt64 :=
  1 <<< UInt64.ofNat i

/-- The set with one more number. -/
def insert (s : UInt64) (i : ℕ) : UInt64 :=
  s ||| bit i

/-- The set without a number. -/
def erase (s : UInt64) (i : ℕ) : UInt64 :=
  s &&& ~~~bit i

/-- The number is in the set. -/
def Mem (s : UInt64) (i : ℕ) : Prop :=
  s &&& bit i ≠ 0

instance (s : UInt64) (i : ℕ) : Decidable (Mem s i) :=
  inferInstanceAs (Decidable (_ ≠ _))

variable {s : UInt64} {i j : ℕ}

/-- In the word for a number its bit is set, and no other one. -/
theorem getLsbD_bit (hi : i < 64) (j : ℕ) : (bit i).toBitVec.getLsbD j = decide (j = i) := by
  have hshift : (bit i).toBitVec.getLsbD j
      = (decide (j < 64) && !decide (j < i % 64) && decide (j - i % 64 = 0)) := by
    simp [bit, UInt64.toBitVec_shiftLeft]
  rw [hshift, Nat.mod_eq_of_lt hi, Bool.eq_iff_iff]
  simp only [Bool.and_eq_true, Bool.not_eq_true', decide_eq_true_eq, decide_eq_false_iff_not]
  omega

/-- **A number is in the set** when its bit is set. -/
theorem mem_iff_getLsbD (hi : i < 64) : Mem s i ↔ s.toBitVec.getLsbD i = true := by
  rw [Mem, Ne, ← UInt64.toBitVec_inj, UInt64.toBitVec_and, UInt64.toBitVec_ofNat]
  constructor
  · intro hne
    by_contra hclear
    refine hne (BitVec.eq_of_getLsbD_eq fun j _ => ?_)
    rw [BitVec.getLsbD_and, getLsbD_bit hi]
    by_cases hj : j = i
    · rw [Bool.not_eq_true] at hclear
      simp [hj, hclear]
    · simp [hj]
  · intro hset hzero
    have hbit := congrArg (fun word => word.getLsbD i) hzero
    simp [BitVec.getLsbD_and, getLsbD_bit hi, hset] at hbit

theorem mem_insert (hi : i < 64) (hj : j < 64) : Mem (insert s i) j ↔ j = i ∨ Mem s j := by
  rw [mem_iff_getLsbD hj, mem_iff_getLsbD hj, insert, UInt64.toBitVec_or, BitVec.getLsbD_or,
    getLsbD_bit hi, Bool.or_eq_true, decide_eq_true_eq, or_comm]

theorem mem_erase (hi : i < 64) (hj : j < 64) : Mem (erase s i) j ↔ j ≠ i ∧ Mem s j := by
  rw [mem_iff_getLsbD hj, mem_iff_getLsbD hj, erase, UInt64.toBitVec_and, UInt64.toBitVec_not,
    BitVec.getLsbD_and, BitVec.getLsbD_not, getLsbD_bit hi, Bool.and_eq_true, and_comm]
  simp [hj]

end BitSet
