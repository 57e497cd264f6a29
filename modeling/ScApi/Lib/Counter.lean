import Mathlib.Data.List.Nodup
import Mathlib.Data.Nat.ModEq
import ScApi.Lib.Bytes

/-!
# Counters in bytes

A counter of some bytes, least significant first, is incremented byte by byte until one of them does
not become zero. That adds one modulo the number of values the counter has, so that as many increments
as there are values give each of them once.

## Main results

* `ofLe_increment`, `ofLe_iterate`: increments in numbers.
* `nodup_iterate`: counters that were incremented differently often differ.
-/

open Bytes

namespace Counter

/-- The counter after one increment. -/
def increment : List UInt8 → List UInt8
  | [] => []
  | b :: bs => if b + 1 ≠ 0 then (b + 1) :: bs else (b + 1) :: increment bs

@[simp] theorem length_increment (l : List UInt8) : (increment l).length = l.length := by
  induction l with
  | nil => rfl
  | cons b bs ih =>
      rw [increment]
      split_ifs
      · rfl
      · rw [List.length_cons, List.length_cons, ih]

theorem length_iterate (k : ℕ) (l : List UInt8) : (increment^[k] l).length = l.length := by
  induction k with
  | zero => rfl
  | succ k ih => rw [Function.iterate_succ_apply', length_increment, ih]

/-- **An increment adds one** modulo the number of values. -/
theorem ofLe_increment (l : List UInt8) :
    ofLe (increment l) = (ofLe l + 1) % 256 ^ l.length := by
  induction l with
  | nil => rfl
  | cons b bs ih =>
      have hb : b.toNat < 256 := b.toNat_lt
      have hlt := ofLe_lt bs
      have hadd : (b + 1).toNat = (b.toNat + 1) % 256 := UInt8.toNat_add b 1
      rw [increment, List.length_cons, pow_succ]
      by_cases hcarry : b + 1 = 0
      · -- the byte was the largest one, and the others are incremented
        have hmax : b.toNat = 255 := by
          rw [hcarry] at hadd
          change 0 = _ at hadd
          omega
        rw [if_neg (not_not.mpr hcarry), ofLe_cons, ofLe_cons, ih, hcarry, hmax]
        have hsum : 255 + 256 * ofLe bs + 1 = (ofLe bs + 1) * 256 := by omega
        rw [hsum, Nat.mul_mod_mul_right]
        change 0 + _ = _
        omega
      · have hsmall : b.toNat + 1 < 256 := by
          by_contra hnot
          refine hcarry (UInt8.toNat_inj.mp ?_)
          rw [hadd]
          change _ = 0
          omega
        rw [if_pos hcarry, ofLe_cons, ofLe_cons, hadd, Nat.mod_eq_of_lt hsmall,
          Nat.mod_eq_of_lt (by omega)]
        omega

/-- The bytes of a number count up to those of the next one. -/
theorem increment_toLe (w n : ℕ) : increment (toLe w n) = toLe w (n + 1) := by
  induction w generalizing n with
  | zero => rfl
  | succ w ih =>
      have hbyte : UInt8.ofNat n + 1 = UInt8.ofNat (n + 1) := (UInt8.ofNat_add n 1).symm
      have hval : (UInt8.ofNat (n + 1)).toNat = (n + 1) % 256 := UInt8.toNat_ofNat'
      rw [toLe, increment, hbyte, ih, toLe]
      split_ifs with hcarry
      · have hne : (n + 1) % 256 ≠ 0 := fun hzero => hcarry (UInt8.toNat_inj.mp (hval.trans hzero))
        rw [show (n + 1) / 256 = n / 256 by omega]
      · have hzero : (n + 1) % 256 = 0 := by
          rw [← hval, not_not.mp hcarry]
          rfl
        rw [show (n + 1) / 256 = n / 256 + 1 by omega]

theorem ofLe_iterate (k : ℕ) (l : List UInt8) :
    ofLe (increment^[k] l) = (ofLe l + k) % 256 ^ l.length := by
  induction k with
  | zero => exact (Nat.mod_eq_of_lt (ofLe_lt l)).symm
  | succ k ih =>
      rw [Function.iterate_succ_apply', ofLe_increment, ih, length_iterate, Nat.mod_add_mod,
        Nat.add_assoc]

/-- **As many increments as there are values** give different counters. -/
theorem nodup_iterate (l : List UInt8) {n : ℕ} (hn : n ≤ 256 ^ l.length) :
    ((List.range n).map fun k => increment^[k] l).Nodup := by
  refine List.Nodup.map_on (fun i hi j hj heq => ?_) List.nodup_range
  have hi := List.mem_range.mp hi
  have hj := List.mem_range.mp hj
  have hmod : (ofLe l + i) % 256 ^ l.length = (ofLe l + j) % 256 ^ l.length := by
    rw [← ofLe_iterate, ← ofLe_iterate, heq]
  have hcancel : i ≡ j [MOD 256 ^ l.length] := Nat.ModEq.add_left_cancel' (ofLe l) hmod
  exact Nat.ModEq.eq_of_lt_of_lt hcancel (by omega) (by omega)

end Counter
