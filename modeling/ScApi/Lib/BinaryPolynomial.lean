import Mathlib.Algebra.CharP.Algebra
import Mathlib.Algebra.CharP.Two
import Mathlib.Algebra.Field.ZMod
import Mathlib.Data.Nat.Bitwise
import Mathlib.RingTheory.AdjoinRoot
import Mathlib.Tactic.Ring
import ScApi.Lib.Bytes

/-!
# Numbers as polynomials over two elements

The bits of a number are the coefficients of a polynomial in an element `x` of a ring of
characteristic two, so that exclusive or is addition. `reflected` takes the most significant of some
bits as the constant coefficient, `value` the least significant one. Shifting a number multiplies it by `x`,
up to the bit that falls out.

With a polynomial `x ^ w + r` that is zero, the bit that falls out is brought back by adding `r`. In
the ring of polynomials modulo it, the numbers of `w` bits are all different.

## Main results

* `reflected_append`: a number in two parts.
* `reflected_shift`: shifting right multiplies a reflected number by powers of `x`.
* `reflected_injective`, `value_injective`: different numbers are different modulo a polynomial.
* `exists_value`: each element is the one of a number.
-/

namespace BinaryPolynomial

variable {R : Type*} [CommRing R]

/-- One for a bit that is set. -/
def bit (R : Type*) [CommRing R] (b : Bool) : R :=
  if b then 1 else 0

@[simp] theorem bit_false : bit R false = 0 := rfl

@[simp] theorem bit_true : bit R true = 1 := rfl

theorem bit_xor [CharP R 2] (a b : Bool) : bit R (a ^^ b) = bit R a + bit R b := by
  cases a <;> cases b <;> simp [CharTwo.add_self_eq_zero]

/-- The polynomial of the lowest `w` bits, the most significant of them being the constant one. -/
def reflected (x : R) : ℕ → ℕ → R
  | 0, _ => 0
  | w + 1, n => bit R (n.testBit w) + x * reflected x w n

variable {x : R}

@[simp] theorem reflected_zero (w : ℕ) : reflected x w 0 = 0 := by
  induction w with
  | zero => rfl
  | succ w ih => rw [reflected, ih, Nat.zero_testBit, bit_false, mul_zero, add_zero]

/-- **Exclusive or is addition.** -/
theorem reflected_xor [CharP R 2] (w a b : ℕ) :
    reflected x w (a ^^^ b) = reflected x w a + reflected x w b := by
  induction w with
  | zero => rw [reflected, reflected, reflected, add_zero]
  | succ w ih =>
      rw [reflected, reflected, reflected, ih, Nat.testBit_xor, bit_xor]
      ring

/-- Bits above the lowest ones are not looked at. -/
theorem reflected_low {k w : ℕ} (hk : k ≤ w) {b : ℕ} (hb : b < 2 ^ w) (a : ℕ) :
    reflected x k (2 ^ w * a + b) = reflected x k b := by
  induction k with
  | zero => rfl
  | succ k ih =>
      rw [reflected, reflected, ih (by omega), Nat.testBit_two_pow_mul_add a hb, if_pos (by omega)]

/-- **A number in two parts.** -/
theorem reflected_append (v : ℕ) {w b : ℕ} (hb : b < 2 ^ w) (a : ℕ) :
    reflected x (v + w) (2 ^ w * a + b) = reflected x v a + x ^ v * reflected x w b := by
  induction v with
  | zero => rw [Nat.zero_add, reflected_low le_rfl hb, reflected, zero_add, pow_zero, one_mul]
  | succ v ih =>
      rw [Nat.add_right_comm, reflected, reflected, ih, Nat.testBit_two_pow_mul_add a hb,
        if_neg (by omega), Nat.add_sub_cancel, pow_succ]
      ring

/-- **Shifting to the right multiplies by powers of `x`**, up to the bits that fall out. -/
theorem reflected_shift {k w n : ℕ} (hk : k ≤ w) (hn : n < 2 ^ w) :
    x ^ k * reflected x w n = reflected x w (n / 2 ^ k) + x ^ w * reflected x k (n % 2 ^ k) := by
  obtain ⟨v, rfl⟩ := Nat.exists_eq_add_of_le' hk
  have hlow : n % 2 ^ k < 2 ^ k := Nat.mod_lt _ (Nat.two_pow_pos k)
  have hhigh : n / 2 ^ k < 2 ^ v := Nat.div_lt_of_lt_mul (by rwa [Nat.mul_comm, ← pow_add])
  have hwhole := reflected_append (x := x) v hlow (n / 2 ^ k)
  have hshifted := reflected_append (x := x) k hhigh 0
  rw [Nat.div_add_mod] at hwhole
  rw [Nat.mul_zero, Nat.zero_add, reflected_zero, zero_add, Nat.add_comm] at hshifted
  rw [hwhole, hshifted, pow_add]
  ring

/-! ### Bytes -/

/-- The polynomial of some bytes, which goes on from each byte to the next one. -/
def ofBytes (x : R) : List UInt8 → R
  | [] => 0
  | b :: bs => reflected x 8 b.toNat + x ^ 8 * ofBytes x bs

theorem ofBytes_append (l m : List UInt8) :
    ofBytes x (l ++ m) = ofBytes x l + x ^ (8 * l.length) * ofBytes x m := by
  induction l with
  | nil => rw [List.nil_append, ofBytes, List.length_nil, Nat.mul_zero, pow_zero, one_mul, zero_add]
  | cons b l ih =>
      rw [List.cons_append, ofBytes, ofBytes, ih, List.length_cons, Nat.mul_succ, pow_add]
      ring

/-- It is the polynomial of the number with these bytes, the most significant one in front. -/
theorem ofBytes_eq (l : List UInt8) :
    ofBytes x l = reflected x (8 * l.length) (Bytes.ofLe l.reverse) := by
  induction l using List.reverseRecOn with
  | nil => rfl
  | append_singleton l b ih =>
      have hb : b.toNat < 2 ^ 8 := b.toNat_lt
      have hnumber : Bytes.ofLe (b :: l.reverse) = 2 ^ 8 * Bytes.ofLe l.reverse + b.toNat :=
        Nat.add_comm _ _
      rw [ofBytes_append, ih, List.reverse_append, List.reverse_singleton, List.singleton_append,
        hnumber, List.length_append, List.length_singleton, Nat.mul_succ, reflected_append _ hb, ofBytes,
        ofBytes, mul_zero, add_zero]

/-- The lowest bytes of a number, the most significant one in front. -/
theorem ofBytes_toLe (w n : ℕ) : ofBytes x (Bytes.toLe w n).reverse = reflected x (8 * w) n := by
  induction w generalizing n with
  | zero => rfl
  | succ w ih =>
      have hlow : (UInt8.ofNat n).toNat = n % 2 ^ 8 := UInt8.toNat_ofNat'
      have hlt : n % 2 ^ 8 < 2 ^ 8 := Nat.mod_lt _ (by decide)
      have happend := reflected_append (x := x) (8 * w) hlt (n / 2 ^ 8)
      rw [Nat.div_add_mod] at happend
      rw [Bytes.toLe, List.reverse_cons, ofBytes_append, ih, List.length_reverse, Bytes.length_toLe, ofBytes,
        ofBytes, mul_zero, add_zero, hlow, Nat.mul_succ, happend]
      rfl

/-! ### Polynomials modulo a polynomial -/

open Polynomial

/-- The polynomial with the given bits as coefficients. -/
def ofBits (x : R) (w : ℕ) (b : ℕ → Bool) : R :=
  ∑ i ∈ Finset.range w, bit R (b i) * x ^ i

theorem reflected_eq_ofBits (w n : ℕ) : reflected x w n = ofBits x w fun i => n.testBit (w - 1 - i) := by
  induction w with
  | zero => rfl
  | succ w ih =>
      rw [reflected, ih, ofBits, ofBits, Finset.sum_range_succ', Finset.mul_sum, pow_zero, mul_one, add_comm]
      refine congrArg₂ (· + ·) (Finset.sum_congr rfl fun i _ => ?_) rfl
      rw [show w + 1 - 1 - (i + 1) = w - 1 - i by omega, pow_succ]
      ring

theorem map_ofBits {S : Type*} [CommRing S] (f : R →+* S) (w : ℕ) (b : ℕ → Bool) :
    f (ofBits x w b) = ofBits (f x) w b := by
  rw [ofBits, ofBits, map_sum]
  refine Finset.sum_congr rfl fun i _ => ?_
  cases b i <;> simp

/-- The coefficients are the bits. -/
theorem coeff_ofBits (w : ℕ) (b : ℕ → Bool) (i : ℕ) :
    (ofBits (X : (ZMod 2)[X]) w b).coeff i = if i < w then bit (ZMod 2) (b i) else 0 := by
  have hterm : ∀ j, (bit (ZMod 2)[X] (b j) * X ^ j).coeff i = if i = j then bit (ZMod 2) (b j) else 0 :=
    fun j => by
      cases b j
      · simp
      · rw [bit_true, bit_true, one_mul, coeff_X_pow]
  rw [ofBits, finsetSum_coeff, Finset.sum_congr rfl fun j _ => hterm j, Finset.sum_ite_eq]
  exact if_congr Finset.mem_range rfl rfl

theorem degree_ofBits (w : ℕ) (b : ℕ → Bool) : (ofBits (X : (ZMod 2)[X]) w b).degree < w := by
  refine (degree_lt_iff_coeff_zero _ _).mpr fun i hi => ?_
  rw [coeff_ofBits, if_neg (Nat.not_lt.mpr hi)]

/-- **Different bits are different modulo a polynomial** of their number. -/
theorem ofBits_injective {f : (ZMod 2)[X]} {w : ℕ} (hf : f.degree = w) {a b : ℕ → Bool}
    (h : ofBits (AdjoinRoot.root f) w a = ofBits (AdjoinRoot.root f) w b) {i : ℕ} (hi : i < w) :
    a i = b i := by
  have hmk : ∀ b, ofBits (AdjoinRoot.root f) w b = AdjoinRoot.mk f (ofBits X w b) := fun b => by
    rw [map_ofBits, AdjoinRoot.mk_X]
  rw [hmk, hmk, AdjoinRoot.mk_eq_mk] at h
  have hdegree : (ofBits (X : (ZMod 2)[X]) w a - ofBits X w b).degree < f.degree := by
    rw [hf]
    exact (degree_sub_le _ _).trans_lt (max_lt (degree_ofBits w a) (degree_ofBits w b))
  have hcoeff := congrArg (fun p : (ZMod 2)[X] => p.coeff i)
    (sub_eq_zero.mp (eq_zero_of_dvd_of_degree_lt h hdegree))
  rw [coeff_ofBits, coeff_ofBits, if_pos hi, if_pos hi] at hcoeff
  cases ha : a i <;> cases hb : b i <;> simp_all

/-- **Each element has bits**, modulo a polynomial of their number. -/
theorem exists_ofBits {f : (ZMod 2)[X]} {w : ℕ} (hf : f.degree = w) (a : AdjoinRoot f) :
    ∃ b, ofBits (AdjoinRoot.root f) w b = a := by
  obtain ⟨p, rfl⟩ := AdjoinRoot.mk_surjective a
  have hne : f ≠ 0 := by
    rintro rfl
    exact absurd hf (by simp)
  have hdegree : (p % f).degree < w := hf ▸ degree_mod_lt p hne
  refine ⟨fun i => decide ((p % f).coeff i = 1), ?_⟩
  have hsame : ofBits X w (fun i => decide ((p % f).coeff i = 1)) = p % f := by
    refine Polynomial.ext fun i => ?_
    rw [coeff_ofBits]
    split_ifs with hi
    · generalize (p % f).coeff i = c
      fin_cases c <;> rfl
    · exact (coeff_eq_zero_of_degree_lt (hdegree.trans_le (by exact_mod_cast Nat.not_lt.mp hi))).symm
  have hmk : AdjoinRoot.mk f (p % f) = AdjoinRoot.mk f p := by
    conv_rhs => rw [← EuclideanDomain.div_add_mod p f, map_add, map_mul, AdjoinRoot.mk_self, zero_mul,
      zero_add]
  calc ofBits (AdjoinRoot.root f) w _ = AdjoinRoot.mk f (ofBits X w _) := by
        rw [map_ofBits, AdjoinRoot.mk_X]
    _ = AdjoinRoot.mk f p := by rw [hsame, hmk]

/-- Different numbers are different, with their bits in either order. -/
theorem reflected_injective {f : (ZMod 2)[X]} {w : ℕ} (hf : f.degree = w) {a b : ℕ} (ha : a < 2 ^ w)
    (hb : b < 2 ^ w)
    (h : reflected (AdjoinRoot.root f) w a = reflected (AdjoinRoot.root f) w b) : a = b := by
  rw [reflected_eq_ofBits, reflected_eq_ofBits] at h
  refine Nat.eq_of_testBit_eq fun i => ?_
  rcases Nat.lt_or_ge i w with hi | hi
  · have hbit := ofBits_injective hf h (show w - 1 - i < w by omega)
    rwa [show w - 1 - (w - 1 - i) = i by omega] at hbit
  · have hpow : 2 ^ w ≤ 2 ^ i := Nat.pow_le_pow_right (by decide) hi
    rw [Nat.testBit_lt_two_pow (ha.trans_le hpow), Nat.testBit_lt_two_pow (hb.trans_le hpow)]

/-- The polynomials modulo one that is no constant have characteristic two. -/
theorem charP_adjoinRoot {f : (ZMod 2)[X]} (hf : f.degree ≠ 0) : CharP (AdjoinRoot f) 2 :=
  charP_of_injective_ringHom (AdjoinRoot.of.injective_of_degree_ne_zero hf) 2

/-- What the power of `x` is that falls out. -/
theorem pow_root {f r : (ZMod 2)[X]} {w : ℕ} (hf : f.degree ≠ 0) (h : f = X ^ w + r) :
    AdjoinRoot.root f ^ w = AdjoinRoot.mk f r := by
  have hchar := charP_adjoinRoot hf
  have hzero : AdjoinRoot.mk f (X ^ w + r) = 0 := (congrArg _ h.symm).trans AdjoinRoot.mk_self
  rw [map_add, map_pow, AdjoinRoot.mk_X] at hzero
  exact CharTwo.add_eq_zero.mp hzero

/-- Different bytes are different modulo a polynomial of their width. -/
theorem ofBytes_injective {f : (ZMod 2)[X]} {l m : List UInt8} (hf : f.degree = (8 * l.length : ℕ))
    (hlen : l.length = m.length)
    (h : ofBytes (AdjoinRoot.root f) l = ofBytes (AdjoinRoot.root f) m) : l = m := by
  have hlt : ∀ k : List UInt8, Bytes.ofLe k.reverse < 2 ^ (8 * k.length) := fun k => by
    have hbound := Bytes.ofLe_lt k.reverse
    rwa [List.length_reverse, show 256 = 2 ^ 8 from rfl, ← pow_mul] at hbound
  rw [ofBytes_eq, ofBytes_eq, ← hlen] at h
  have hnumber := reflected_injective hf (hlt l) (hlen ▸ hlt m) h
  have hback : ∀ k : List UInt8, k = (Bytes.toLe k.length (Bytes.ofLe k.reverse)).reverse := fun k => by
    have hbytes := Bytes.toLe_ofLe k.reverse
    rw [List.length_reverse] at hbytes
    rw [hbytes, List.reverse_reverse]
  rw [hback l, hback m, hnumber, hlen]

/-! ### The least significant bit as the constant coefficient -/

/-- The polynomial of the lowest `w` bits, the least significant of them being the constant one. -/
def value (x : R) (w n : ℕ) : R :=
  ofBits x w n.testBit

theorem value_zero (w : ℕ) : value x w 0 = 0 := by
  rw [value, ofBits]
  refine Finset.sum_eq_zero fun i _ => ?_
  rw [Nat.zero_testBit, bit_false, zero_mul]

theorem value_xor [CharP R 2] (w a b : ℕ) : value x w (a ^^^ b) = value x w a + value x w b := by
  rw [value, value, value, ofBits, ofBits, ofBits, ← Finset.sum_add_distrib]
  refine Finset.sum_congr rfl fun i _ => ?_
  rw [Nat.testBit_xor, bit_xor, add_mul]

theorem value_succ (w n : ℕ) : value x (w + 1) n = value x w n + bit R (n.testBit w) * x ^ w :=
  Finset.sum_range_succ _ w

/-- Doubling multiplies by `x`. -/
theorem value_double (w n : ℕ) : value x (w + 1) (2 * n) = x * value x w n := by
  rw [value, ofBits, Finset.sum_range_succ', value, ofBits, Finset.mul_sum,
    show Nat.testBit (2 * n) 0 = false by simp, bit_false, zero_mul, add_zero]
  refine Finset.sum_congr rfl fun i _ => ?_
  rw [Nat.testBit_succ, Nat.mul_div_cancel_left n (by decide), pow_succ]
  ring

/-- Bits above the lowest ones are not looked at. -/
theorem value_mod (w n : ℕ) : value x w (n % 2 ^ w) = value x w n := by
  rw [value, value, ofBits, ofBits]
  refine Finset.sum_congr rfl fun i hi => ?_
  rw [Nat.testBit_mod_two_pow, decide_eq_true (Finset.mem_range.mp hi), Bool.true_and]

theorem value_injective {f : (ZMod 2)[X]} {w : ℕ} (hf : f.degree = w) {a b : ℕ} (ha : a < 2 ^ w)
    (hb : b < 2 ^ w) (h : value (AdjoinRoot.root f) w a = value (AdjoinRoot.root f) w b) : a = b := by
  refine Nat.eq_of_testBit_eq fun i => ?_
  rcases Nat.lt_or_ge i w with hi | hi
  · exact ofBits_injective hf h hi
  · have hpow : 2 ^ w ≤ 2 ^ i := Nat.pow_le_pow_right (by decide) hi
    rw [Nat.testBit_lt_two_pow (ha.trans_le hpow), Nat.testBit_lt_two_pow (hb.trans_le hpow)]

/-- Each element is the one of a number. -/
theorem exists_value {f : (ZMod 2)[X]} {w : ℕ} (hf : f.degree = w) (a : AdjoinRoot f) :
    ∃ n < 2 ^ w, value (AdjoinRoot.root f) w n = a := by
  obtain ⟨b, rfl⟩ := exists_ofBits hf a
  refine ⟨Nat.ofBits fun i : Fin w => b i, Nat.ofBits_lt_two_pow _, ?_⟩
  rw [value, ofBits, ofBits]
  refine Finset.sum_congr rfl fun i hi => ?_
  rw [Nat.testBit_ofBits_lt _ i (Finset.mem_range.mp hi)]

end BinaryPolynomial
