import Mathlib.Data.List.Basic
import Mathlib.Tactic.Ring
import Mathlib.Tactic.NormNum

/-!
# Little-endian bytes and 32-bit integers

Byte strings as lists of `UInt8`, the little-endian numeral of a byte string, and signed
32-bit integers represented as `ℤ` with an explicit wrap-around.

## Main results

* `ofLe_toLe_of_lt`: the bytes of a number give the number back.
* `toLe_ofLe`: the number of some bytes gives the bytes back.
* `toI32_range`: four bytes always denote a 32-bit integer.
-/

namespace Bytes

/-- The natural number with the given bytes, least significant first. -/
def ofLe : List UInt8 → ℕ
  | [] => 0
  | b :: bs => b.toNat + 256 * ofLe bs

/-- The `w` lowest bytes of `n`, least significant first. -/
def toLe : ℕ → ℕ → List UInt8
  | 0, _ => []
  | w + 1, n => UInt8.ofNat n :: toLe w (n / 256)

@[simp] theorem ofLe_nil : ofLe [] = 0 := rfl

@[simp] theorem ofLe_cons (b : UInt8) (bs : List UInt8) :
    ofLe (b :: bs) = b.toNat + 256 * ofLe bs := rfl

@[simp] theorem length_toLe (w n : ℕ) : (toLe w n).length = w := by
  induction w generalizing n with
  | zero => rfl
  | succ w ih => rw [toLe, List.length_cons, ih]

theorem ofLe_lt (l : List UInt8) : ofLe l < 256 ^ l.length := by
  induction l with
  | nil => exact Nat.one_pos
  | cons b bs ih =>
      have hb : b.toNat < 256 := b.toNat_lt
      rw [ofLe_cons, List.length_cons, pow_succ]
      omega

theorem ofLe_toLe_of_lt {w n : ℕ} (h : n < 256 ^ w) : ofLe (toLe w n) = n := by
  induction w generalizing n with
  | zero => simp_all [toLe]
  | succ w ih =>
      rw [pow_succ] at h
      have hdiv : n / 256 < 256 ^ w := by omega
      have hlow : (UInt8.ofNat n).toNat = n % 256 := UInt8.toNat_ofNat'
      rw [toLe, ofLe_cons, ih hdiv, hlow]
      omega

theorem toLe_ofLe (l : List UInt8) : toLe l.length (ofLe l) = l := by
  induction l with
  | nil => rfl
  | cons b bs ih =>
      have hb : b.toNat < 256 := b.toNat_lt
      have hdiv : (b.toNat + 256 * ofLe bs) / 256 = ofLe bs := by omega
      have hlow : UInt8.ofNat (b.toNat + 256 * ofLe bs) = b := by
        apply UInt8.toNat_inj.mp
        rw [UInt8.toNat_ofNat']
        omega
      rw [List.length_cons, ofLe_cons, toLe, hdiv, ih, hlow]

/-- The bytes of an ASCII string. -/
def ascii (s : String) : List UInt8 :=
  s.toList.map fun c => UInt8.ofNat c.toNat

/-! ### Signed 32-bit integers -/

/-- The 32-bit integer that `z` wraps around to. -/
def wrap32 (z : ℤ) : ℤ :=
  (z + 2147483648) % 4294967296 - 2147483648

theorem wrap32_range (z : ℤ) : -2147483648 ≤ wrap32 z ∧ wrap32 z < 2147483648 := by
  unfold wrap32
  omega

theorem wrap32_of_range {z : ℤ} (hlo : -2147483648 ≤ z) (hhi : z < 2147483648) :
    wrap32 z = z := by
  unfold wrap32
  omega

/-- The signed 32-bit integer with the given four bytes. -/
def toI32 (l : List UInt8) : ℤ :=
  wrap32 (ofLe l)

/-- The signed 64-bit integer with the given eight bytes. -/
def toI64 (l : List UInt8) : ℤ :=
  ((ofLe l : ℤ) + 9223372036854775808) % 18446744073709551616 - 9223372036854775808

/-- The four bytes of a signed 32-bit integer. -/
def ofI32 (z : ℤ) : List UInt8 :=
  toLe 4 (z % 4294967296).toNat

@[simp] theorem length_ofI32 (z : ℤ) : (ofI32 z).length = 4 := length_toLe _ _

theorem toI32_range (l : List UInt8) : -2147483648 ≤ toI32 l ∧ toI32 l < 2147483648 :=
  wrap32_range _

end Bytes
