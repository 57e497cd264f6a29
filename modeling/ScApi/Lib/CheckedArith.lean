import Mathlib.Algebra.Order.Ring.Int
import Mathlib.Tactic.Ring

/-!
# Signed arithmetic that must not overflow

The operations on signed integers of some number of bits, with no result where the exact one does not
fit. A division rounds towards zero.

A number is scaled by a fraction in two parts, the whole multiples of the denominator and the rest, so
that neither product is larger than need be.

## Main results

* `mul_div_split`: the two parts add up to the scaled number.
* `scale_eq`: scaling in two parts fails only when the result itself does not fit.
-/

namespace CheckedArith

/-- The numbers of `w` bits. -/
def Fits (w : ℕ) (z : ℤ) : Prop :=
  -2 ^ (w - 1) ≤ z ∧ z < 2 ^ (w - 1)

instance (w : ℕ) (z : ℤ) : Decidable (Fits w z) :=
  inferInstanceAs (Decidable (_ ∧ _))

/-- The exact result, if it fits. -/
def checked (w : ℕ) (z : ℤ) : Option ℤ :=
  if Fits w z then some z else none

/-- The sum. -/
def add (w : ℕ) (x y : ℤ) : Option ℤ :=
  checked w (x + y)

/-- The product. -/
def mul (w : ℕ) (x y : ℤ) : Option ℤ :=
  checked w (x * y)

/-- The quotient. -/
def div (w : ℕ) (x y : ℤ) : Option ℤ :=
  if y = 0 then none else checked w (x.tdiv y)

/-- The remainder. There is none where there is no quotient. -/
def mod (w : ℕ) (x y : ℤ) : Option ℤ :=
  (div w x y).map fun _ => x.tmod y

/-- `x` times `n / d`, in two parts. -/
def scale (w : ℕ) (n d x : ℤ) : Option ℤ := do
  let whole ← mul w (← div w x d) n
  let part ← div w (← mul w (← mod w x d) n) d
  add w whole part

variable {w : ℕ} {n d x y z : ℤ}

theorem checked_of_fits (h : Fits w z) : checked w z = some z :=
  if_pos h

theorem checked_of_not_fits (h : ¬ Fits w z) : checked w z = none :=
  if_neg h

theorem fits_of_nonneg (h : 0 ≤ z) : Fits w z ↔ z < 2 ^ (w - 1) := by
  have hpow : (0 : ℤ) < 2 ^ (w - 1) := pow_pos two_pos _
  exact and_iff_right (by omega)

theorem div_of_nonneg (hx : 0 ≤ x) (hd : 0 < d) : div w x d = checked w (x / d) := by
  rw [div, if_neg hd.ne', Int.tdiv_eq_ediv_of_nonneg hx]

theorem mod_of_nonneg (hx : 0 ≤ x) (hd : 0 < d) :
    mod w x d = (checked w (x / d)).map fun _ => x % d := by
  rw [mod, div_of_nonneg hx hd, Int.tmod_eq_emod_of_nonneg hx]

/-- **Scaling in two parts.** -/
theorem mul_div_split (n x : ℤ) (hd : d ≠ 0) : x / d * n + x % d * n / d = x * n / d := by
  have hx : x * n = x % d * n + d * (x / d * n) := by
    calc x * n = (x % d + d * (x / d)) * n := by rw [Int.emod_add_mul_ediv]
      _ = x % d * n + d * (x / d * n) := by ring
  rw [hx, Int.add_mul_ediv_left _ _ hd, Int.add_comm]

/-- **The scaled number**, whenever it fits: no part of it is larger, if the rest of any number can be
scaled. -/
theorem scale_eq (hx : 0 ≤ x) (hn : 0 < n) (hd : 0 < d) (hdn : d * n ≤ 2 ^ (w - 1)) :
    scale w n d x = checked w (x * n / d) := by
  have hquot : 0 ≤ x / d := Int.ediv_nonneg hx hd.le
  have hrest : 0 ≤ x % d := Int.emod_nonneg x hd.ne'
  have hwhole : 0 ≤ x / d * n := Int.mul_nonneg hquot hn.le
  have hpart : 0 ≤ x % d * n / d := Int.ediv_nonneg (Int.mul_nonneg hrest hn.le) hd.le
  have hsplit := mul_div_split n x hd.ne'
  have hquotLe : x / d ≤ x / d * n := le_mul_of_one_le_right hquot hn
  have hprod : x % d * n < 2 ^ (w - 1) :=
    (Int.mul_lt_mul_of_pos_right (Int.emod_lt_of_pos x hd) hn).trans_le hdn
  have hpartLe : x % d * n / d ≤ x % d * n := Int.ediv_le_self _ (Int.mul_nonneg hrest hn.le)
  have hprodFits : Fits w (x % d * n) := (fits_of_nonneg (Int.mul_nonneg hrest hn.le)).mpr hprod
  have hpartFits : Fits w (x % d * n / d) := (fits_of_nonneg hpart).mpr (hpartLe.trans_lt hprod)
  rw [scale, div_of_nonneg hx hd, mod_of_nonneg hx hd]
  by_cases hwholeFits : x / d * n < 2 ^ (w - 1)
  · have hquotFits : Fits w (x / d) := (fits_of_nonneg hquot).mpr (hquotLe.trans_lt hwholeFits)
    simp only [checked_of_fits hquotFits, mul, checked_of_fits ((fits_of_nonneg hwhole).mpr hwholeFits),
      Option.map_some, checked_of_fits hprodFits, div_of_nonneg (Int.mul_nonneg hrest hn.le) hd,
      checked_of_fits hpartFits, add, hsplit, Option.bind_eq_bind, Option.bind_some]
  · -- the product of the whole part does not fit, or even its quotient
    have hnot : ¬ Fits w (x * n / d) := by
      rw [fits_of_nonneg (by omega)]
      omega
    have hnone : mul w (x / d) n = none :=
      checked_of_not_fits fun h => hwholeFits ((fits_of_nonneg hwhole).mp h)
    rw [checked_of_not_fits hnot]
    by_cases hquotFits : Fits w (x / d)
    · simp only [checked_of_fits hquotFits, Option.bind_eq_bind, Option.bind_some, hnone,
        Option.bind_none]
    · simp only [checked_of_not_fits hquotFits, Option.bind_eq_bind, Option.bind_none]

end CheckedArith
