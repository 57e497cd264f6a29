import Mathlib.Tactic.ComputeDegree
import ScApi.Gcm
import ScApi.Lib.BinaryPolynomial

/-!
# The multiplication of GCM

`SC_API_gcm_setkey` fills two tables from the block that the cipher makes of zeros, and
`SC_API_gcm_mult` multiplies a block with it four bits at a time: the product so far is shifted by four
bits, what falls out is brought back through the table `last4`, and the entry for the next four bits is
added.

The blocks are the polynomials over two elements modulo `X ^ 128 + X ^ 7 + X ^ 2 + X + 1`, with the most
significant bit of the first byte as the constant coefficient.

## Main results

* `element_setkey`: the tables have the multiples of the key by polynomials of four bits.
* `gcmMult_iff`: the product of blocks is the one of polynomials.
-/

open Bytes BinaryPolynomial

namespace ScApi

namespace Gcm

/-- Two halves of 64 bits. -/
structure Halves where
  h : UInt64
  l : UInt64
  deriving DecidableEq, Repr

/-- `HH` and `HL` of a `gcm_context`. -/
abbrev HTables := List Halves

/-- `last4`. -/
def last4 : List UInt64 :=
  [0x0000, 0x1c20, 0x3840, 0x2460, 0x7080, 0x6ca0, 0x48c0, 0x54e0,
    0xe100, 0xfd20, 0xd940, 0xc560, 0x9180, 0x8da0, 0xa9c0, 0xb5e0]

namespace Halves

def zero : Halves := ⟨0, 0⟩

def add (a b : Halves) : Halves :=
  ⟨a.h ^^^ b.h, a.l ^^^ b.l⟩

/-- A shift by four bits. What falls out is brought back by `last4`. -/
def shift (z : Halves) : Halves :=
  let rem := z.l &&& 0x0f
  ⟨z.h >>> 4 ^^^ last4.getD rem.toNat 0 <<< 48, z.h <<< 60 ||| z.l >>> 4⟩

/-- A shift by one bit, in `SC_API_gcm_setkey`. -/
def half (v : Halves) : Halves :=
  let t := (v.l &&& 1) * 0xe1000000
  ⟨v.h >>> 1 ^^^ t <<< 32, v.h <<< 63 ||| v.l >>> 1⟩

/-- `GET_UINT32_BE` four times. -/
def ofBytes (block : List UInt8) : Halves :=
  let word (i : ℕ) : UInt64 := UInt64.ofNat (ofLe ((block.drop i).take 4).reverse)
  ⟨word 0 <<< 32 ||| word 4, word 8 <<< 32 ||| word 12⟩

/-- `PUT_UINT32_BE` four times. -/
def bytes (z : Halves) : List UInt8 :=
  beBytes (z.h >>> 32).toNat ++ beBytes z.h.toNat ++ beBytes (z.l >>> 32).toNat ++ beBytes z.l.toNat

end Halves

/-- The entries for one bit, in the order in which the loop sets them. -/
def setBits : List ℕ → Halves → HTables → HTables
  | [], _, t => t
  | i :: is, v, t => setBits is v.half (t.set i v.half)

/-- The entries behind `i`, which are sums. -/
def setSums (i : ℕ) (t : HTables) : HTables :=
  (List.range' 1 (i - 1)).foldl
    (fun t j => t.set (i + j) ((t.getD i .zero).add (t.getD j .zero))) t

/-- The tables that `SC_API_gcm_setkey` fills for the block `h`. -/
def setkey (h : List UInt8) : HTables :=
  let v := Halves.ofBytes h
  let t := ((List.replicate 16 .zero).set 8 v).set 0 .zero
  setSums 8 (setSums 4 (setSums 2 (setBits [4, 2, 1] v t)))

/-- One turn of the loop of `SC_API_gcm_mult`. -/
def multTurn (t : HTables) (x : List UInt8) (i : ℕ) (z : Halves) : Halves :=
  let lo := x.getD i 0 &&& 0x0f
  let hi := x.getD i 0 >>> 4
  let z := if i ≠ 15 then z.shift.add (t.getD lo.toNat .zero) else z
  z.shift.add (t.getD hi.toNat .zero)

/-- The turns from `i - 1` down to 0. -/
def multLoop (t : HTables) (x : List UInt8) : ℕ → Halves → Halves
  | 0, z => z
  | i + 1, z => multLoop t x i (multTurn t x i z)

/-- `SC_API_gcm_mult`. -/
def gcmMult (t : HTables) (x : List UInt8) : List UInt8 :=
  let lo := x.getD 15 0 &&& 0x0f
  (multLoop t x 16 (t.getD lo.toNat .zero)).bytes

/-! ### Blocks as polynomials -/

section

variable {R : Type*} [CommRing R] {x : R}

/-- The number with the two halves. -/
def Halves.toNat (z : Halves) : ℕ :=
  2 ^ 64 * z.h.toNat + z.l.toNat

/-- Two halves as a polynomial. -/
def Halves.element (x : R) (z : Halves) : R :=
  reflected x 128 z.toNat

theorem Halves.toNat_lt (z : Halves) : z.toNat < 2 ^ 128 := by
  have hh := z.h.toNat_lt
  have hl := z.l.toNat_lt
  rw [Halves.toNat]
  omega

theorem Halves.element_eq (z : Halves) :
    z.element x = reflected x 64 z.h.toNat + x ^ 64 * reflected x 64 z.l.toNat :=
  reflected_append 64 z.l.toNat_lt z.h.toNat

@[simp] theorem Halves.element_zero : Halves.zero.element x = 0 :=
  reflected_zero 128

theorem Halves.element_add [CharP R 2] (a b : Halves) :
    (a.add b).element x = a.element x + b.element x := by
  rw [element_eq, element_eq, element_eq, add, UInt64.toNat_xor, UInt64.toNat_xor, reflected_xor,
    reflected_xor]
  ring

/-- The lower bits of one word above the upper bits of another one. -/
theorem toNat_shift_or {k j : UInt64} {n : ℕ} (hk : k.toNat = n) (hj : j.toNat = 64 - n) (h0 : 0 < n)
    (hn : n < 64) (h l : UInt64) :
    (h <<< j ||| l >>> k).toNat = 2 ^ (64 - n) * (h.toNat % 2 ^ n) + l.toNat / 2 ^ n := by
  have hlow : l.toNat / 2 ^ n < 2 ^ (64 - n) := by
    refine Nat.div_lt_of_lt_mul ?_
    rw [← pow_add, Nat.add_sub_cancel' hn.le]
    exact l.toNat_lt
  have hcut : 2 ^ (64 - n) * h.toNat % 2 ^ 64 = 2 ^ (64 - n) * (h.toNat % 2 ^ n) := by
    rw [← Nat.mul_mod_mul_left, ← pow_add, Nat.sub_add_cancel hn.le]
  rw [UInt64.toNat_or, UInt64.toNat_shiftLeft, UInt64.toNat_shiftRight, hk, hj,
    Nat.mod_eq_of_lt hn, Nat.mod_eq_of_lt (show 64 - n < 64 by omega), Nat.shiftLeft_eq,
    Nat.shiftRight_eq_div_pow, Nat.mul_comm h.toNat, hcut, ← Nat.two_pow_add_eq_or_of_lt hlow]

/-- **The two words of a number that is shifted.** -/
theorem toNat_shifted {k j : UInt64} {n : ℕ} (hk : k.toNat = n) (hj : j.toNat = 64 - n) (h0 : 0 < n)
    (hn : n < 64) (z : Halves) :
    (⟨z.h >>> k, z.h <<< j ||| z.l >>> k⟩ : Halves).toNat = z.toNat / 2 ^ n := by
  have hsplit : (2 : ℕ) ^ 64 = 2 ^ n * 2 ^ (64 - n) := by
    rw [← pow_add, Nat.add_sub_cancel' hn.le]
  have hnumber : z.toNat
      = 2 ^ n * (2 ^ 64 * (z.h.toNat / 2 ^ n) + 2 ^ (64 - n) * (z.h.toNat % 2 ^ n)) + z.l.toNat := by
    have hdiv := Nat.div_add_mod z.h.toNat (2 ^ n)
    calc z.toNat = 2 ^ 64 * (2 ^ n * (z.h.toNat / 2 ^ n) + z.h.toNat % 2 ^ n) + z.l.toNat := by
          rw [hdiv, Halves.toNat]
      _ = _ := by
          rw [hsplit]
          ring
  rw [hnumber, Nat.mul_add_div (Nat.two_pow_pos n), Halves.toNat, toNat_shift_or hk hj h0 hn,
    UInt64.toNat_shiftRight, hk, Nat.mod_eq_of_lt hn, Nat.shiftRight_eq_div_pow, Nat.add_assoc]

/-- What is brought back stands in the upper 16 bits. -/
theorem element_top {c : UInt64} {n : ℕ} (hc : c.toNat = 2 ^ 48 * n) :
    (⟨c, 0⟩ : Halves).element x = reflected x 16 n := by
  have hnumber : (⟨c, 0⟩ : Halves).toNat = 2 ^ 112 * n + 0 := by
    rw [Halves.toNat, hc, ← Nat.mul_assoc, ← pow_add]
    rfl
  rw [Halves.element, hnumber, reflected_append 16 (Nat.two_pow_pos 112), reflected_zero, mul_zero,
    add_zero]

/-- What `x ^ 128` is, shifted by a few bits. -/
theorem reflected_feedback (hx : x ^ 128 = 1 + x + x ^ 2 + x ^ 7) {k : ℕ} (hk : k ≤ 3) :
    reflected x 16 (0xe100 / 2 ^ k) = x ^ 128 * x ^ k := by
  have hword : reflected x 16 0xe100 = x ^ 128 := by
    rw [hx]
    simp [reflected, Nat.testBit_eq_decide_div_mod_eq]
    ring
  have hshift := reflected_shift (x := x) (show k ≤ 16 by omega) (show 0xe100 < 2 ^ 16 by decide)
  have hlow : ∀ k ≤ 3, 0xe100 % 2 ^ k = 0 := by
    decide
  rw [hword, hlow k hk, reflected_zero, mul_zero, add_zero] at hshift
  rw [← hshift, mul_comm]

/-- **A shift by one bit multiplies by `x`.** -/
theorem element_half [CharP R 2] (hx : x ^ 128 = 1 + x + x ^ 2 + x ^ 7) (z : Halves) :
    z.half.element x = x * z.element x := by
  have hparts : z.half = Halves.add ⟨z.h >>> 1, z.h <<< 63 ||| z.l >>> 1⟩
      ⟨((z.l &&& 1) * 0xe1000000) <<< 32, 0⟩ := by
    rw [Halves.half, Halves.add, UInt64.xor_zero]
  have hback : (⟨((z.l &&& 1) * 0xe1000000) <<< 32, 0⟩ : Halves).element x
      = x ^ 128 * reflected x 1 (z.toNat % 2) := by
    have hbit : (z.l &&& 1).toNat = z.toNat % 2 := by
      rw [UInt64.toNat_and, UInt64.toNat_one, Nat.and_one_is_mod, Halves.toNat]
      omega
    rcases Nat.mod_two_eq_zero_or_one z.toNat with hzero | hone
    · rw [hzero, reflected_zero, mul_zero, UInt64.toNat_inj.mp (hbit.trans hzero : _ = (0 : UInt64).toNat)]
      exact Halves.element_zero
    · rw [hone, UInt64.toNat_inj.mp (hbit.trans hone : _ = (1 : UInt64).toNat),
        element_top (n := 0xe100) rfl]
      have hword := reflected_feedback hx (Nat.zero_le 3)
      rw [Nat.pow_zero, Nat.div_one, pow_zero, mul_one] at hword
      rw [hword, reflected, reflected, mul_zero, add_zero, Nat.testBit_one_zero, bit_true, mul_one]
  have hshift := reflected_shift (x := x) (show 1 ≤ 128 by decide) z.toNat_lt
  rw [pow_one, pow_one] at hshift
  rw [hparts, Halves.element_add, hback, Halves.element,
    toNat_shifted (n := 1) rfl rfl (by decide) (by decide), pow_one, Halves.element, hshift]

theorem reflected_cond (w : ℕ) (b : Bool) (n : ℕ) :
    reflected x w (if b then n else 0) = bit R b * reflected x w n := by
  cases b <;> simp

/-- `last4` has the multiples of what `x ^ 128` is by polynomials of four bits. -/
theorem reflected_last4 [CharP R 2] (hx : x ^ 128 = 1 + x + x ^ 2 + x ^ 7) {r : ℕ} (hr : r < 16) :
    reflected x 16 (last4.getD r 0).toNat = x ^ 128 * reflected x 4 r := by
  have hsum : (last4.getD r 0).toNat
      = ((if r.testBit 3 then 0xe100 / 2 ^ 0 else 0) ^^^ (if r.testBit 2 then 0xe100 / 2 ^ 1 else 0))
        ^^^ ((if r.testBit 1 then 0xe100 / 2 ^ 2 else 0) ^^^ (if r.testBit 0 then 0xe100 / 2 ^ 3 else 0)) := by
    decide +revert
  rw [hsum, reflected_xor, reflected_xor, reflected_xor, reflected_cond, reflected_cond, reflected_cond,
    reflected_cond, reflected_feedback hx (show 0 ≤ 3 by decide), reflected_feedback hx (show 1 ≤ 3 by decide),
    reflected_feedback hx (show 2 ≤ 3 by decide), reflected_feedback hx le_rfl]
  simp only [reflected]
  ring

/-- **A shift by four bits multiplies by `x ^ 4`.** -/
theorem element_shift [CharP R 2] (hx : x ^ 128 = 1 + x + x ^ 2 + x ^ 7) (z : Halves) :
    z.shift.element x = x ^ 4 * z.element x := by
  have hparts : z.shift = Halves.add ⟨z.h >>> 4, z.h <<< 60 ||| z.l >>> 4⟩
      ⟨last4.getD (z.l &&& 0x0f).toNat 0 <<< 48, 0⟩ := by
    rw [Halves.shift, Halves.add, UInt64.xor_zero]
  have hrem : (z.l &&& 0x0f).toNat = z.toNat % 2 ^ 4 := by
    rw [UInt64.toNat_and, Halves.toNat]
    refine (Nat.and_two_pow_sub_one_eq_mod z.l.toNat 4).trans ?_
    omega
  have hlt : z.toNat % 2 ^ 4 < 16 := Nat.mod_lt _ (by decide)
  have hback : (⟨last4.getD (z.l &&& 0x0f).toNat 0 <<< 48, 0⟩ : Halves).element x
      = x ^ 128 * reflected x 4 (z.toNat % 2 ^ 4) := by
    rw [hrem, ← reflected_last4 hx hlt]
    have hentry : ∀ r < 16, (last4.getD r 0 <<< 48).toNat = 2 ^ 48 * (last4.getD r 0).toNat := by
      decide
    exact element_top (hentry _ hlt)
  rw [hparts, Halves.element_add, hback, Halves.element,
    toNat_shifted (n := 4) rfl rfl (by decide) (by decide), Halves.element,
    reflected_shift (x := x) (show 4 ≤ 128 by decide) z.toNat_lt]

/-- The tables after the loops over sums, from the entries for one bit. -/
theorem setSums_eq (v v₁ v₂ v₃ : Halves) :
    setSums 8 (setSums 4 (setSums 2
        [.zero, v₃, v₂, .zero, v₁, .zero, .zero, .zero, v, .zero, .zero, .zero, .zero, .zero, .zero, .zero]))
      = [.zero, v₃, v₂, v₂.add v₃, v₁, v₁.add v₃, v₁.add v₂, v₁.add (v₂.add v₃), v, v.add v₃, v.add v₂,
        v.add (v₂.add v₃), v.add v₁, v.add (v₁.add v₃), v.add (v₁.add v₂), v.add (v₁.add (v₂.add v₃))] :=
  rfl

/-- **The tables have the multiples** of the key by polynomials of four bits. -/
theorem element_setkey [CharP R 2] (hx : x ^ 128 = 1 + x + x ^ 2 + x ^ 7) (h : List UInt8) {n : ℕ}
    (hn : n < 16) :
    ((setkey h).getD n .zero).element x = (Halves.ofBytes h).element x * reflected x 4 n := by
  obtain ⟨v, hv⟩ : ∃ v, v = Halves.ofBytes h := ⟨_, rfl⟩
  have htable : setkey h = _ := setSums_eq (Halves.ofBytes h) _ _ _
  rw [htable, ← hv]
  interval_cases n <;>
    simp [reflected, Nat.testBit_eq_decide_div_mod_eq, Halves.element_add, element_half hx] <;> ring

/-- The two halves of a byte. -/
theorem reflected_nibbles (b : UInt8) :
    reflected x 8 b.toNat
      = reflected x 4 (b >>> 4).toNat + x ^ 4 * reflected x 4 (b &&& 0x0f).toNat := by
  have hhigh : (b >>> 4).toNat = b.toNat / 2 ^ 4 := by
    rw [UInt8.toNat_shiftRight, Nat.shiftRight_eq_div_pow]
    rfl
  have hlow : (b &&& 0x0f).toNat = b.toNat % 2 ^ 4 :=
    UInt8.toNat_and b 0x0f ▸ Nat.and_two_pow_sub_one_eq_mod b.toNat 4
  have hlt : b.toNat % 2 ^ 4 < 2 ^ 4 := Nat.mod_lt _ (by decide)
  rw [hhigh, hlow, ← reflected_append 4 hlt, Nat.div_add_mod]

theorem nibbles_lt (b : UInt8) : (b &&& 0x0f).toNat < 16 ∧ (b >>> 4).toNat < 16 := by
  have hb := b.toNat_lt
  constructor
  · exact Nat.lt_succ_of_le (UInt8.toNat_and b 0x0f ▸ Nat.and_le_right)
  · rw [UInt8.toNat_shiftRight, Nat.shiftRight_eq_div_pow]
    exact Nat.div_lt_of_lt_mul hb

/-- What a turn of the loop adds: the product with one byte, in front of what it had. -/
theorem element_multTurn [CharP R 2] (hx : x ^ 128 = 1 + x + x ^ 2 + x ^ 7) (h block : List UInt8) {i : ℕ}
    (hi : i < 15) (z : Halves) :
    (multTurn (setkey h) block i z).element x
      = (Halves.ofBytes h).element x * reflected x 8 (block.getD i 0).toNat + x ^ 8 * z.element x := by
  obtain ⟨hlo, hhi⟩ := nibbles_lt (block.getD i 0)
  rw [multTurn, if_pos (by omega), Halves.element_add, element_shift hx, Halves.element_add,
    element_shift hx, element_setkey hx h hlo, element_setkey hx h hhi, reflected_nibbles]
  ring

/-- The first turn starts with half a byte. -/
theorem element_multTurn_last [CharP R 2] (hx : x ^ 128 = 1 + x + x ^ 2 + x ^ 7) (h block : List UInt8) :
    (multTurn (setkey h) block 15 ((setkey h).getD (block.getD 15 0 &&& 0x0f).toNat .zero)).element x
      = (Halves.ofBytes h).element x * reflected x 8 (block.getD 15 0).toNat := by
  obtain ⟨hlo, hhi⟩ := nibbles_lt (block.getD 15 0)
  rw [multTurn, if_neg (fun hne => hne rfl), Halves.element_add, element_shift hx, element_setkey hx h hlo,
    element_setkey hx h hhi, reflected_nibbles]
  ring

/-- **The loop multiplies the bytes that are left.** -/
theorem element_multLoop [CharP R 2] (hx : x ^ 128 = 1 + x + x ^ 2 + x ^ 7) (h : List UInt8)
    {block : List UInt8} {i : ℕ} (hi : i ≤ 15) (hlen : i ≤ block.length) (z : Halves) :
    (multLoop (setkey h) block i z).element x
      = (Halves.ofBytes h).element x * ofBytes x (block.take i) + x ^ (8 * i) * z.element x := by
  induction i generalizing z with
  | zero => rw [multLoop, List.take_zero, ofBytes, mul_zero, zero_add, Nat.mul_zero, pow_zero, one_mul]
  | succ i ih =>
      have hget : block.getD i 0 = block[i] := List.getD_eq_getElem block 0 hlen
      rw [multLoop, ih (by omega) (by omega), element_multTurn hx h block hi, hget,
        List.take_succ_eq_append_getElem hlen, ofBytes_append, ofBytes, ofBytes,
        List.length_take_of_le (by omega), Nat.mul_succ, pow_add]
      ring

/-! ### Bytes of blocks -/

theorem ofBytes_beBytes (n : ℕ) : ofBytes x (beBytes n) = reflected x 32 n :=
  ofBytes_toLe 4 n

theorem length_beBytes (n : ℕ) : (beBytes n).length = 4 := by
  rw [beBytes, List.length_reverse, length_toLe]

/-- A word in two parts. -/
theorem reflected_word (w : UInt64) :
    reflected x 64 w.toNat
      = reflected x 32 (w >>> 32).toNat + x ^ 32 * reflected x 32 w.toNat := by
  have hhigh : (w >>> 32).toNat = w.toNat / 2 ^ 32 := by
    rw [UInt64.toNat_shiftRight, Nat.shiftRight_eq_div_pow]
    rfl
  have hlt : w.toNat % 2 ^ 32 < 2 ^ 32 := Nat.mod_lt _ (by decide)
  have hlow : reflected x 32 w.toNat = reflected x 32 (w.toNat % 2 ^ 32) := by
    rw [← reflected_low le_rfl hlt (w.toNat / 2 ^ 32), Nat.div_add_mod]
  rw [hhigh, hlow, ← reflected_append 32 hlt, Nat.div_add_mod]

/-- **The bytes of two halves** are the same polynomial. -/
theorem ofBytes_bytes (z : Halves) : ofBytes x z.bytes = z.element x := by
  simp only [Halves.bytes, ofBytes_append, ofBytes_beBytes, List.length_append, length_beBytes]
  rw [Halves.element_eq, reflected_word z.h, reflected_word z.l]
  ring

theorem length_bytes (z : Halves) : z.bytes.length = 16 := by
  rw [Halves.bytes, List.length_append, List.length_append, List.length_append, length_beBytes,
    length_beBytes, length_beBytes, length_beBytes]

/-- Four bytes as the half of a word. -/
theorem reflected_join {a b : List UInt8} (ha : a.length = 4) (hb : b.length = 4) :
    reflected x 64 (UInt64.ofNat (ofLe a.reverse) <<< 32 ||| UInt64.ofNat (ofLe b.reverse)).toNat
      = ofBytes x a + x ^ 32 * ofBytes x b := by
  have hlta : ofLe a.reverse < 2 ^ 32 := by
    have hlt := ofLe_lt a.reverse
    rwa [List.length_reverse, ha] at hlt
  have hltb : ofLe b.reverse < 2 ^ 32 := by
    have hlt := ofLe_lt b.reverse
    rwa [List.length_reverse, hb] at hlt
  have hsize : 2 ^ 32 ≤ UInt64.size := by
    decide
  have hword : (UInt64.ofNat (ofLe a.reverse) <<< 32 ||| UInt64.ofNat (ofLe b.reverse)).toNat
      = 2 ^ 32 * ofLe a.reverse + ofLe b.reverse := by
    have hshift : (32 : UInt64).toNat % 64 = 32 := rfl
    have hfits : 2 ^ 32 * ofLe a.reverse < 2 ^ 64 := by omega
    rw [UInt64.toNat_or, UInt64.toNat_shiftLeft, UInt64.toNat_ofNat_of_lt' (hlta.trans_le hsize),
      UInt64.toNat_ofNat_of_lt' (hltb.trans_le hsize), hshift, Nat.shiftLeft_eq,
      Nat.mul_comm (ofLe a.reverse), Nat.mod_eq_of_lt hfits, ← Nat.two_pow_add_eq_or_of_lt hltb]
  rw [hword, reflected_append 32 hltb, ofBytes_eq, ofBytes_eq, ha, hb]

/-- The polynomial of a block whose bytes are packed into two halves. -/
theorem element_ofBytes {block : List UInt8} (hlen : block.length = 16) :
    (Halves.ofBytes block).element x = ofBytes x block := by
  have hword : ∀ i ≤ 12, ((block.drop i).take 4).length = 4 := fun i hi => by
    rw [List.length_take, List.length_drop, hlen]
    omega
  have hcut : ∀ i, i + 4 ≤ 16 → ofBytes x (block.drop i)
      = ofBytes x ((block.drop i).take 4) + x ^ 32 * ofBytes x (block.drop (i + 4)) := fun i hi => by
    have hsplit := ofBytes_append (x := x) ((block.drop i).take 4) ((block.drop i).drop 4)
    rwa [List.take_append_drop, List.drop_drop, hword i (by omega)] at hsplit
  have hend : block.drop 16 = [] := List.drop_of_length_le hlen.le
  rw [Halves.element_eq, Halves.ofBytes, reflected_join (hword 0 (by decide)) (hword 4 (by decide)),
    reflected_join (hword 8 (by decide)) (hword 12 (by decide))]
  conv_rhs => rw [← List.drop_zero (l := block), hcut 0 (by decide), hcut 4 (by decide),
    hcut 8 (by decide), hcut 12 (by decide), hend, ofBytes]
  ring

end

/-! ### The polynomials modulo that of GCM -/

open Polynomial

/-- The polynomial of GCM. -/
noncomputable def gcmPolynomial : (ZMod 2)[X] :=
  X ^ 128 + X ^ 7 + X ^ 2 + X + 1

theorem degree_gcmPolynomial : gcmPolynomial.degree = (128 : ℕ) := by
  unfold gcmPolynomial
  compute_degree!

theorem degree_gcmPolynomial_ne : gcmPolynomial.degree ≠ 0 := by
  rw [degree_gcmPolynomial]
  norm_num

instance : CharP (AdjoinRoot gcmPolynomial) 2 :=
  charP_adjoinRoot degree_gcmPolynomial_ne

theorem root_gcmPolynomial :
    AdjoinRoot.root gcmPolynomial ^ 128
      = 1 + AdjoinRoot.root gcmPolynomial + AdjoinRoot.root gcmPolynomial ^ 2
        + AdjoinRoot.root gcmPolynomial ^ 7 := by
  have hsplit : gcmPolynomial = X ^ 128 + (1 + X + X ^ 2 + X ^ 7) := by
    unfold gcmPolynomial
    ring
  rw [pow_root degree_gcmPolynomial_ne hsplit, map_add, map_add, map_add, map_one, map_pow, map_pow,
    AdjoinRoot.mk_X]

/-- A block as a polynomial modulo that of GCM. -/
noncomputable def element (block : List UInt8) : AdjoinRoot gcmPolynomial :=
  ofBytes (AdjoinRoot.root gcmPolynomial) block

/-- **Different blocks are different.** -/
theorem element_injective {a b : List UInt8} (ha : a.length = 16) (hb : b.length = 16)
    (h : element a = element b) : a = b :=
  ofBytes_injective (by rw [degree_gcmPolynomial, ha]) (ha.trans hb.symm) h

theorem length_gcmMult (t : HTables) (block : List UInt8) : (gcmMult t block).length = 16 :=
  length_bytes _

/-- **The product with the tables is the one of polynomials.** -/
theorem element_gcmMult {h block : List UInt8} (hh : h.length = 16) (hb : block.length = 16) :
    element (gcmMult (setkey h) block) = element block * element h := by
  have hx := root_gcmPolynomial
  have hget : block.getD 15 0 = block[15] := List.getD_eq_getElem block 0 (by omega)
  have hlast : block.take 16 = block.take 15 ++ [block[15]] :=
    List.take_succ_eq_append_getElem (by omega)
  rw [List.take_of_length_le hb.le] at hlast
  rw [element, gcmMult, ofBytes_bytes, multLoop, element_multLoop hx h le_rfl (by omega),
    element_multTurn_last hx, element_ofBytes hh, element, element]
  conv_rhs => rw [hlast, ofBytes_append, List.length_take_of_le (by omega)]
  rw [ofBytes, ofBytes, hget]
  ring

/-- **The output of `SC_API_gcm_mult`** is the one block that is the product of the two polynomials. -/
theorem gcmMult_iff {h block out : List UInt8} (hh : h.length = 16) (hb : block.length = 16)
    (ho : out.length = 16) :
    out = gcmMult (setkey h) block ↔ element out = element block * element h := by
  rw [← element_gcmMult hh hb]
  exact ⟨congrArg element, element_injective ho (length_gcmMult _ _)⟩

theorem gcmMult_iff_squared :
    element (gcmMult (setkey (List.replicate 16 3)) (List.replicate 16 3))
      = element (List.replicate 16 3) * element (List.replicate 16 3) :=
  (gcmMult_iff List.length_replicate List.length_replicate (length_gcmMult _ _)).mp rfl

end Gcm

end ScApi
