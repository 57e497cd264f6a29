import Mathlib.Data.Nat.Log
import Mathlib.Tactic.Common
import Mathlib.Tactic.Ring

/-!
# Widening of floating-point numbers

A binary interchange format packs a sign, a biased exponent and a fraction into one number. `widen`
is the conversion to a format that has more of both: the fraction gets zeros behind it, a number that
is subnormal in the narrow format is normal in the wide one, and a NaN becomes quiet.

Nothing is said about rounding, since a conversion of this kind is exact.

## Main results

* `unpack_pack`: the fields of a packed number.
* `widen_inj`: with the exception of NaNs, different numbers stay different.
-/

namespace FloatFormat

/-- A binary interchange format, by the widths of its fields. -/
structure Format where
  exponentBits : ℕ
  fractionBits : ℕ
  deriving DecidableEq, Repr

/-- Single precision. -/
def binary32 : Format := ⟨8, 23⟩

/-- Double precision. -/
def binary64 : Format := ⟨11, 52⟩

/-- The fields of a number. -/
structure Fields where
  sign : ℕ
  exponent : ℕ
  fraction : ℕ
  deriving DecidableEq, Repr

namespace Format

/-- The exponent of infinities and NaNs. -/
def top (f : Format) : ℕ :=
  2 ^ f.exponentBits - 1

/-- The exponent of 1. -/
def bias (f : Format) : ℕ :=
  2 ^ (f.exponentBits - 1) - 1

/-- The bits of a number with the given fields. -/
def pack (f : Format) (x : Fields) : ℕ :=
  (x.sign * 2 ^ f.exponentBits + x.exponent) * 2 ^ f.fractionBits + x.fraction

/-- The fields of a number with the given bits. -/
def unpack (f : Format) (n : ℕ) : Fields where
  sign := n / 2 ^ f.fractionBits / 2 ^ f.exponentBits
  exponent := n / 2 ^ f.fractionBits % 2 ^ f.exponentBits
  fraction := n % 2 ^ f.fractionBits

end Format

/-- The exponent and the fraction fit into the format. -/
structure Fits (f : Format) (x : Fields) : Prop where
  exponent : x.exponent < 2 ^ f.exponentBits
  fraction : x.fraction < 2 ^ f.fractionBits

/-- The fields are those of a NaN. -/
def IsNaN (f : Format) (x : Fields) : Prop :=
  x.exponent = f.top ∧ x.fraction ≠ 0

instance (f : Format) (x : Fields) : Decidable (IsNaN f x) :=
  inferInstanceAs (Decidable (_ ∧ _))

/-- The conversion of a number to a wider format. -/
def widen (f g : Format) (x : Fields) : Fields :=
  if x.exponent = 0 then
    if x.fraction = 0 then
      ⟨x.sign, 0, 0⟩
    else
      let s := x.fraction.log2
      ⟨x.sign, g.bias + s + 1 - f.bias - f.fractionBits,
        (x.fraction - 2 ^ s) * 2 ^ (g.fractionBits - s)⟩
  else if x.exponent = f.top then
    let fraction := if x.fraction = 0 then 0 else x.fraction ||| 2 ^ (f.fractionBits - 1)
    ⟨x.sign, g.top, fraction * 2 ^ (g.fractionBits - f.fractionBits)⟩
  else
    ⟨x.sign, x.exponent + g.bias - f.bias, x.fraction * 2 ^ (g.fractionBits - f.fractionBits)⟩

/-- There is room in the wide format for the subnormal numbers of the narrow one, and for its largest
exponent. -/
structure Wider (f g : Format) : Prop where
  top_pos : 0 < f.top
  fraction : f.fractionBits ≤ g.fractionBits
  subnormal : f.bias + f.fractionBits ≤ g.bias
  normal : f.top + g.bias ≤ g.top + f.bias

theorem wider_double : Wider binary32 binary64 := by
  constructor <;> decide

section Packing

variable {f : Format} {x y : Fields}

/-- **The fields of a packed number.** -/
theorem unpack_pack (hx : Fits f x) : f.unpack (f.pack x) = x := by
  have hdiv : f.pack x / 2 ^ f.fractionBits = x.sign * 2 ^ f.exponentBits + x.exponent := by
    rw [Format.pack, mul_comm, Nat.mul_add_div (Nat.two_pow_pos _), Nat.div_eq_of_lt hx.fraction,
      Nat.add_zero]
  have hsign : (x.sign * 2 ^ f.exponentBits + x.exponent) / 2 ^ f.exponentBits = x.sign := by
    rw [mul_comm, Nat.mul_add_div (Nat.two_pow_pos _), Nat.div_eq_of_lt hx.exponent, Nat.add_zero]
  have hexponent : (x.sign * 2 ^ f.exponentBits + x.exponent) % 2 ^ f.exponentBits = x.exponent := by
    rw [mul_comm, Nat.mul_add_mod, Nat.mod_eq_of_lt hx.exponent]
  have hfraction : f.pack x % 2 ^ f.fractionBits = x.fraction := by
    rw [Format.pack, mul_comm, Nat.mul_add_mod, Nat.mod_eq_of_lt hx.fraction]
  rw [Format.unpack, hdiv, hsign, hexponent, hfraction]

theorem pack_unpack (f : Format) (n : ℕ) : f.pack (f.unpack n) = n := by
  rw [Format.pack, Format.unpack]
  dsimp only
  rw [mul_comm (n / _ / _), Nat.div_add_mod, mul_comm, Nat.div_add_mod]

theorem fits_unpack (f : Format) (n : ℕ) : Fits f (f.unpack n) where
  exponent := Nat.mod_lt _ (Nat.two_pow_pos _)
  fraction := Nat.mod_lt _ (Nat.two_pow_pos _)

theorem unpack_inj {m n : ℕ} (h : f.unpack m = f.unpack n) : m = n := by
  rw [← pack_unpack f m, h, pack_unpack]

theorem pack_inj (hx : Fits f x) (hy : Fits f y) (h : f.pack x = f.pack y) : x = y := by
  rw [← unpack_pack hx, h, unpack_pack hy]

/-- A sign, an exponent and a fraction that fit take one bit more than the two widths. -/
theorem pack_lt (hx : Fits f x) (hsign : x.sign ≤ 1) :
    f.pack x < 2 ^ (f.exponentBits + f.fractionBits + 1) := by
  have hupper : x.sign * 2 ^ f.exponentBits + x.exponent + 1 ≤ 2 ^ f.exponentBits * 2 := by
    have hle := Nat.mul_le_mul_right (2 ^ f.exponentBits) hsign
    have hexponent := hx.exponent
    omega
  calc f.pack x < (x.sign * 2 ^ f.exponentBits + x.exponent + 1) * 2 ^ f.fractionBits := by
        rw [Format.pack, Nat.add_mul _ 1, Nat.one_mul]
        exact Nat.add_lt_add_left hx.fraction _
    _ ≤ 2 ^ f.exponentBits * 2 * 2 ^ f.fractionBits := Nat.mul_le_mul_right _ hupper
    _ = 2 ^ (f.exponentBits + f.fractionBits + 1) := by ring

end Packing

/-! ### The conversion and its inverse -/

/-- The number of the narrow format that a wide one comes from. -/
def narrow (f g : Format) (y : Fields) : Fields :=
  if y.exponent = 0 then
    ⟨y.sign, 0, 0⟩
  else if y.exponent = g.top then
    ⟨y.sign, f.top, 0⟩
  else if g.bias < y.exponent + f.bias then
    ⟨y.sign, y.exponent + f.bias - g.bias, y.fraction / 2 ^ (g.fractionBits - f.fractionBits)⟩
  else
    let s := y.exponent + f.bias + f.fractionBits - 1 - g.bias
    ⟨y.sign, 0, 2 ^ s + y.fraction / 2 ^ (g.fractionBits - s)⟩

section Widening

variable {f g : Format} {x y : Fields}

theorem top_lt (f : Format) : f.top < 2 ^ f.exponentBits :=
  Nat.sub_lt (Nat.two_pow_pos _) Nat.zero_lt_one

theorem Fits.le_top (hx : Fits f x) : x.exponent ≤ f.top :=
  Nat.le_sub_one_of_lt hx.exponent

/-- The leading bit of the fraction of a subnormal number. -/
theorem Fits.log2_lt (hx : Fits f x) (h0 : x.fraction ≠ 0) : x.fraction.log2 < f.fractionBits :=
  (Nat.log2_lt h0).mpr hx.fraction

theorem shifted_lt {m a b : ℕ} (hm : m < 2 ^ a) (hab : a ≤ b) : m * 2 ^ (b - a) < 2 ^ b := by
  calc m * 2 ^ (b - a) < 2 ^ a * 2 ^ (b - a) := Nat.mul_lt_mul_of_pos_right hm (Nat.two_pow_pos _)
    _ = 2 ^ b := by rw [← pow_add, Nat.add_sub_cancel' hab]

/-- The fraction behind the leading bit. -/
theorem behind_leading_lt {n : ℕ} (h0 : n ≠ 0) : n - 2 ^ n.log2 < 2 ^ n.log2 := by
  have hlow : 2 ^ n.log2 ≤ n := Nat.log2_self_le h0
  have hhigh : n < 2 ^ (n.log2 + 1) := Nat.lt_log2_self
  rw [pow_succ] at hhigh
  omega

theorem sign_widen (f g : Format) (x : Fields) : (widen f g x).sign = x.sign := by
  rw [widen]
  split_ifs <;> rfl

/-- The result of a conversion fits into the wide format, unless it is a NaN. -/
theorem fits_widen (h : Wider f g) (hx : Fits f x) (hnan : ¬ IsNaN f x) : Fits g (widen f g x) := by
  have htop := top_lt g
  have hle := hx.le_top
  have hnormal := h.normal
  by_cases h0 : x.exponent = 0
  · by_cases hzero : x.fraction = 0
    · rw [widen, if_pos h0, if_pos hzero]
      exact ⟨Nat.two_pow_pos _, Nat.two_pow_pos _⟩
    · have hlog := hx.log2_lt hzero
      have hfraction := h.fraction
      rw [widen, if_pos h0, if_neg hzero]
      refine ⟨?_, shifted_lt (behind_leading_lt hzero) (by omega)⟩
      dsimp only
      omega
  · by_cases hinf : x.exponent = f.top
    · have hzero : x.fraction = 0 := not_not.mp fun hne => hnan ⟨hinf, hne⟩
      rw [widen, if_neg h0, if_pos hinf, if_pos hzero]
      exact ⟨htop, by simp⟩
    · rw [widen, if_neg h0, if_neg hinf]
      refine ⟨?_, shifted_lt hx.fraction h.fraction⟩
      dsimp only
      omega

/-- **The conversion can be undone**, unless the number is a NaN. -/
theorem narrow_widen (h : Wider f g) (hx : Fits f x) (hnan : ¬ IsNaN f x) :
    narrow f g (widen f g x) = x := by
  have hle := hx.le_top
  have hnormal := h.normal
  have hsubnormal := h.subnormal
  have hpos := h.top_pos
  obtain ⟨sign, exponent, fraction⟩ := x
  by_cases h0 : exponent = 0
  · subst h0
    by_cases hzero : fraction = 0
    · rw [widen, if_pos rfl, if_pos hzero, narrow, if_pos rfl, hzero]
    · have hlog : fraction.log2 < f.fractionBits := hx.log2_lt hzero
      have hlow : 2 ^ fraction.log2 ≤ fraction := Nat.log2_self_le hzero
      obtain ⟨s, hs⟩ : ∃ s, s = fraction.log2 := ⟨_, rfl⟩
      rw [widen, if_pos rfl, if_neg hzero, ← hs, narrow]
      rw [← hs] at hlog hlow
      dsimp only
      have hback : g.bias + s + 1 - f.bias - f.fractionBits + f.bias + f.fractionBits - 1 - g.bias
          = s := by omega
      rw [if_neg (by omega), if_neg (by omega), if_neg (by omega), hback,
        Nat.mul_div_cancel _ (Nat.two_pow_pos _), Nat.add_sub_cancel' hlow]
  · by_cases hinf : exponent = f.top
    · have hzero : fraction = 0 := not_not.mp fun hne => hnan ⟨hinf, hne⟩
      rw [widen, if_neg h0, if_pos hinf, if_pos hzero, narrow]
      dsimp only
      rw [if_neg (by omega), if_pos rfl, hzero, hinf]
    · rw [widen, if_neg h0, if_neg hinf, narrow]
      dsimp only at hle ⊢
      have hback : exponent + g.bias - f.bias + f.bias - g.bias = exponent := by omega
      rw [if_neg (by omega), if_neg (by omega), if_pos (by omega), hback,
        Nat.mul_div_cancel _ (Nat.two_pow_pos _)]

/-- **Different numbers stay different**, with the exception of NaNs. -/
theorem widen_inj (h : Wider f g) (hx : Fits f x) (hy : Fits f y) (hxnan : ¬ IsNaN f x)
    (hynan : ¬ IsNaN f y) (heq : widen f g x = widen f g y) : x = y := by
  rw [← narrow_widen h hx hxnan, heq, narrow_widen h hy hynan]

end Widening

end FloatFormat
