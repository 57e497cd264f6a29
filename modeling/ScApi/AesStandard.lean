import Mathlib.Algebra.Polynomial.Degree.IsMonicOfDegree
import Mathlib.Tactic.ComputeDegree
import ScApi.Aes

/-!
# The rounds of AES over its field

The bytes are the polynomials over two elements modulo `X ^ 8 + X ^ 4 + X ^ 3 + X + 1`, with the least
significant bit as the constant coefficient. A state has four columns of four bytes. A round substitutes
the bytes, rotates the rows, multiplies the columns by a matrix and adds the columns of the expanded key.

## Main results

* `getD_fsb`: the substitution box inverts bytes in the field.
-/

open Bytes BinaryPolynomial Polynomial

namespace ScApi

namespace Aes

/-! ### Bytes as polynomials -/

/-- The polynomial of AES. -/
noncomputable def aesPolynomial : (ZMod 2)[X] :=
  X ^ 8 + X ^ 4 + X ^ 3 + X + 1

theorem degree_aesPolynomial : aesPolynomial.degree = (8 : ℕ) := by
  unfold aesPolynomial
  compute_degree!

theorem degree_aesPolynomial_ne : aesPolynomial.degree ≠ 0 := by
  rw [degree_aesPolynomial]
  norm_num

instance : CharP (AdjoinRoot aesPolynomial) 2 :=
  charP_adjoinRoot degree_aesPolynomial_ne

/-- The polynomial `X`. -/
noncomputable def root : AdjoinRoot aesPolynomial :=
  AdjoinRoot.root aesPolynomial

theorem root_pow : root ^ 8 = value root 8 0x1B := by
  have hsplit : aesPolynomial = X ^ 8 + (X ^ 4 + X ^ 3 + X + 1) := by
    unfold aesPolynomial
    ring
  have hvalue : value root 8 0x1B = root ^ 4 + root ^ 3 + root + 1 := by
    simp [value, ofBits, Finset.sum_range_succ, Nat.testBit_eq_decide_div_mod_eq]
    ring
  rw [hvalue, root, pow_root degree_aesPolynomial_ne hsplit, map_add, map_add, map_add, map_one, map_pow,
    map_pow, AdjoinRoot.mk_X]

/-- A byte as a polynomial. -/
noncomputable def ofByte (b : UInt8) : AdjoinRoot aesPolynomial :=
  value root 8 b.toNat

theorem ofByte_bijective : Function.Bijective ofByte := by
  constructor
  · intro a b h
    exact UInt8.toNat_inj.mp (value_injective degree_aesPolynomial a.toNat_lt b.toNat_lt h)
  · intro a
    obtain ⟨n, hn, rfl⟩ := exists_value degree_aesPolynomial a
    exact ⟨UInt8.ofNat n, by rw [ofByte, UInt8.toNat_ofNat_of_lt' hn, root]⟩

/-- The bytes are the polynomials. -/
noncomputable def bytes : UInt8 ≃ AdjoinRoot aesPolynomial :=
  Equiv.ofBijective ofByte ofByte_bijective

theorem bytes_eq (b : UInt8) : bytes b = value root 8 b.toNat := rfl

theorem bytes_zero : bytes 0 = 0 := by
  rw [bytes_eq]
  exact value_zero 8

theorem bytes_xor (a b : UInt8) : bytes (a ^^^ b) = bytes a + bytes b := by
  rw [bytes_eq, bytes_eq, bytes_eq, UInt8.toNat_xor, value_xor]

theorem and_ff (n : ℕ) : n &&& 0xFF = n % 2 ^ 8 :=
  Nat.and_two_pow_sub_one_eq_mod n 8

theorem and_ff_lt (n : ℕ) : n &&& 0xFF < 256 := by
  rw [and_ff]
  exact Nat.mod_lt _ (by decide)

theorem bytes_ofNat (n : ℕ) : bytes (UInt8.ofNat n) = value root 8 n := by
  rw [bytes_eq, UInt8.toNat_ofNat', value_mod]

/-- **`XTIME` multiplies by `X`.** -/
theorem value_xtime (n : ℕ) : value root 8 (xtime n) = root * value root 8 n := by
  have hbit : n &&& 0x80 = (n.testBit 7).toNat * 0x80 := Nat.and_two_pow n 7
  have htop : (2 * n).testBit 8 = n.testBit 7 := by
    rw [Nat.testBit_succ, Nat.mul_div_cancel_left n (by decide)]
  have hdouble := value_double (x := root) 8 n
  rw [value_succ, htop, root_pow] at hdouble
  rw [xtime, value_xor, Nat.shiftLeft_eq, pow_one, Nat.mul_comm n, ← hdouble, hbit]
  cases n.testBit 7
  · rw [if_neg (by decide), value_zero, bit_false, zero_mul]
  · rw [if_pos (by decide), bit_true, one_mul]

/-! ### The tables -/

/-- The entries of `pow`. -/
def power (i : ℕ) : ℕ :=
  (fun x => (x ^^^ xtime x) &&& 0xFF)^[i] 1

theorem power_succ (i : ℕ) : power (i + 1) = (power i ^^^ xtime (power i)) &&& 0xFF :=
  Function.iterate_succ_apply' _ i 1

theorem power_lt (i : ℕ) : power i < 256 := by
  cases i with
  | zero => decide
  | succ i =>
      rw [power_succ]
      exact and_ff_lt _

/-- They are the powers of `X + 1`. -/
theorem value_power (i : ℕ) : value root 8 (power i) = (root + 1) ^ i := by
  induction i with
  | zero =>
      simp [power, value, ofBits, Finset.sum_range_succ, Nat.testBit_eq_decide_div_mod_eq]
  | succ i ih =>
      rw [power_succ, and_ff, value_mod, value_xor, value_xtime (power i), ih, pow_succ]
      ring

/-- The first `i` turns of the loop have filled `pow` and `log`. -/
structure Logs (i : ℕ) (pow log : List UInt8) : Prop where
  length_pow : pow.length = 256
  length_log : log.length = 256
  pow : ∀ j < i, pow.getD j 0 = UInt8.ofNat (power j)
  log : ∀ j < i, ∃ k < i, log.getD (power j) 0 = UInt8.ofNat k ∧ power k = power j

/-- What one turn does. -/
theorem Logs.step {i : ℕ} {pow log : List UInt8} (h : Logs i pow log) (hi : i < 256) :
    Logs (i + 1) (pow.set i (UInt8.ofNat (power i))) (log.set (power i) (UInt8.ofNat i)) := by
  refine ⟨(List.length_set).trans h.length_pow, (List.length_set).trans h.length_log, fun j hj => ?_,
    fun j hj => ?_⟩
  · rcases Nat.lt_succ_iff_lt_or_eq.mp hj with hlt | rfl
    · rw [← h.pow j hlt, List.getD_eq_getElem?_getD, List.getElem?_set_ne (by omega),
        List.getD_eq_getElem?_getD]
    · rw [List.getD_eq_getElem?_getD, List.getElem?_set_self (by rw [h.length_pow]; exact hi),
        Option.getD_some]
  · by_cases hsame : power j = power i
    · refine ⟨i, Nat.lt_succ_self i, ?_, hsame.symm⟩
      rw [hsame, List.getD_eq_getElem?_getD,
        List.getElem?_set_self (by rw [h.length_log]; exact power_lt i), Option.getD_some]
    · have hlt : j < i := by
        rcases Nat.lt_succ_iff_lt_or_eq.mp hj with hlt | rfl
        · exact hlt
        · exact absurd rfl hsame
      obtain ⟨k, hk, hlog, hpower⟩ := h.log j hlt
      refine ⟨k, by omega, ?_, hpower⟩
      rw [← hlog, List.getD_eq_getElem?_getD, List.getElem?_set_ne (fun heq => hsame heq.symm),
        List.getD_eq_getElem?_getD]

/-- **The loop fills both tables.** -/
theorem logs_powLogLoop {n : ℕ} (hn : n ≤ 256) {pow log : List UInt8} (h : Logs (256 - n) pow log) :
    Logs 256 (powLogLoop n (power (256 - n)) pow log).1 (powLogLoop n (power (256 - n)) pow log).2 := by
  induction n generalizing pow log with
  | zero => exact h
  | succ n ih =>
      have hi : 256 - (n + 1) = 255 - n := by omega
      have hnext : 255 - n + 1 = 256 - n := by omega
      rw [hi] at h ⊢
      have hstep := h.step (by omega)
      rw [hnext] at hstep
      rw [powLogLoop, ← power_succ, hnext]
      exact ih (by omega) hstep

/-- The tables that the substitution box is filled from. -/
def powLog : List UInt8 × List UInt8 :=
  powLogLoop 256 1 (List.replicate 256 0) (List.replicate 256 0)

theorem logs_powLog : Logs 256 powLog.1 powLog.2 :=
  logs_powLogLoop le_rfl ⟨List.length_replicate, List.length_replicate, fun _ hj => absurd hj (Nat.not_lt_zero _),
    fun _ hj => absurd hj (Nat.not_lt_zero _)⟩

/-- `X + 1` generates the bytes other than zero. -/
theorem exists_power {b : ℕ} (h0 : b ≠ 0) (hb : b < 256) : ∃ i < 255, power i = b := by
  have hall : ∀ b ∈ List.range' 1 255, b ∈ List.iterate (fun x => (x ^^^ xtime x) &&& 0xFF) 1 255 := by
    decide +kernel
  obtain ⟨i, hi, hpower⟩ := List.mem_iterate.mp
    (hall b (List.mem_range'_1.mpr ⟨Nat.one_le_iff_ne_zero.mpr h0, by omega⟩))
  exact ⟨i, hi, hpower.symm⟩

theorem pow_generator : (root + 1) ^ 255 = 1 := by
  have hpower : power 255 = 1 := by
    decide +kernel
  rw [← value_power, hpower]
  exact value_power 0

/-- **The entry of `pow` that the substitution box takes is the inverse.** -/
theorem bytes_pow_log {b : UInt8} (hb : b ≠ 0) :
    bytes (powLog.1.getD (255 - (powLog.2.getD b.toNat 0).toNat) 0) * bytes b = 1 := by
  have hne : b.toNat ≠ 0 := fun hzero => hb (UInt8.toNat_inj.mp hzero)
  obtain ⟨i, hi, hpower⟩ := exists_power hne b.toNat_lt
  obtain ⟨k, hk, hlog, hsame⟩ := logs_powLog.log i (by omega)
  rw [hpower] at hlog hsame
  have hnat : (UInt8.ofNat k).toNat = k := UInt8.toNat_ofNat_of_lt' hk
  rw [hlog, hnat, logs_powLog.pow _ (by omega), bytes_ofNat, value_power, bytes_eq, ← hsame, value_power,
    ← pow_add, Nat.sub_add_cancel (by omega), pow_generator]

theorem isUnit_bytes {b : UInt8} (hb : b ≠ 0) : IsUnit (bytes b) :=
  IsUnit.of_mul_eq_one_right _ (bytes_pow_log hb)

/-- The affine transformation of a byte. -/
def affine (b : UInt8) : UInt8 :=
  UInt8.ofNat (Nat.ofBits fun i : Fin 8 => b.toNat.testBit i ^^ b.toNat.testBit ((i + 4) % 8)
    ^^ b.toNat.testBit ((i + 5) % 8) ^^ b.toNat.testBit ((i + 6) % 8) ^^ b.toNat.testBit ((i + 7) % 8)
    ^^ Nat.testBit 0x63 i)

/-- The substitution box: the inverse of a byte, zero for zero, and the affine transformation. -/
noncomputable def sBox (b : UInt8) : UInt8 :=
  affine (bytes.symm (Ring.inverse (bytes b)))

theorem substitute_eq (b : UInt8) : substitute b.toNat = affine b := by
  have hall : ∀ n < 256, substitute n = affine (UInt8.ofNat n) := by
    decide +kernel
  rw [hall _ b.toNat_lt, UInt8.ofNat_toNat]

/-- **The substitution box** that the tables have. -/
theorem getD_fsb (b : UInt8) : initKeygenTables.fsb.getD b.toNat 0 = sBox b := by
  have hentry : initKeygenTables.fsb.getD b.toNat 0 = if b.toNat = 0 then 0x63
      else substitute (powLog.1.getD (255 - (powLog.2.getD b.toNat 0).toNat) 0).toNat := by
    rw [List.getD_eq_getElem?_getD, initKeygenTables, List.getElem?_map,
      List.getElem?_range b.toNat_lt, Option.map_some, Option.getD_some, powLog]
  rw [hentry]
  split_ifs with hzero
  · obtain rfl : b = 0 := UInt8.toNat_inj.mp hzero
    have hinverse : bytes.symm (Ring.inverse (bytes 0)) = 0 := by
      rw [bytes_zero, Ring.inverse_zero, ← bytes_zero, Equiv.symm_apply_apply]
    rw [sBox, hinverse]
    rfl
  · have hb : b ≠ 0 := fun heq => hzero (heq ▸ rfl)
    have hinverse := (Ring.eq_mul_inverse_iff_mul_eq _ 1 _ (isUnit_bytes hb)).mpr (bytes_pow_log hb)
    rw [substitute_eq, sBox, ← one_mul (Ring.inverse _), ← hinverse, Equiv.symm_apply_apply]

/-! ### The bytes of words -/

/-- A column of a state, or of the expanded key. -/
abbrev Column := Fin 4 → UInt8

/-- A word as a column. -/
def column (w : UInt32) : Column :=
  fun r => UInt8.ofNat (w.toNat >>> (8 * r.val))

theorem toNat_column (w : UInt32) (r : Fin 4) : (column w r).toNat = w.toNat / 2 ^ (8 * r.val) % 2 ^ 8 := by
  rw [column, UInt8.toNat_ofNat', Nat.shiftRight_eq_div_pow]

theorem column_xor (a b : UInt32) (r : Fin 4) : column (a ^^^ b) r = column a r ^^^ column b r := by
  rw [← UInt8.toNat_inj, UInt8.toNat_xor, toNat_column, toNat_column, toNat_column, UInt32.toNat_xor,
    Nat.xor_div_two_pow, Nat.xor_mod_two_pow]

theorem column_or (a b : UInt32) (r : Fin 4) : column (a ||| b) r = column a r ||| column b r := by
  rw [← UInt8.toNat_inj, UInt8.toNat_or, toNat_column, toNat_column, toNat_column, UInt32.toNat_or,
    Nat.or_div_two_pow, Nat.or_mod_two_pow]

theorem ofNat_toUInt32 {n : ℕ} (h : n < 256) : UInt32.ofNat n = (UInt8.ofNat n).toUInt32 := by
  rw [← UInt32.toNat_inj, UInt8.toNat_toUInt32, UInt8.toNat_ofNat_of_lt' h,
    UInt32.toNat_ofNat_of_lt' (h.trans (by decide))]

/-- A byte that is shifted to one row. -/
theorem column_shiftLeft (b : UInt8) {s : UInt32} {k : Fin 4} (hs : s.toNat = 8 * k.val) (r : Fin 4) :
    column (b.toUInt32 <<< s) r = if r = k then b else 0 := by
  have hb := b.toNat_lt
  rw [← UInt8.toNat_inj, toNat_column, UInt32.toNat_shiftLeft, hs, UInt8.toNat_toUInt32, Nat.shiftLeft_eq]
  fin_cases k <;> fin_cases r <;> simp <;> omega

theorem column_toUInt32 (b : UInt8) (r : Fin 4) : column b.toUInt32 r = if r = 0 then b else 0 := by
  have hshift := column_shiftLeft b (s := 0) (k := 0) rfl r
  rwa [UInt32.shiftLeft_zero] at hshift

/-- The index that a byte of a word is. -/
theorem index_eq (w : UInt32) {s : UInt32} {k : Fin 4} (hs : s.toNat = 8 * k.val) :
    ((w >>> s) &&& 0xFF).toNat = (column w k).toNat := by
  have hk := k.isLt
  rw [toNat_column, UInt32.toNat_and, UInt32.toNat_shiftRight, hs, Nat.mod_eq_of_lt (by omega),
    Nat.shiftRight_eq_div_pow]
  exact Nat.and_two_pow_sub_one_eq_mod _ 8

theorem column_getUint32Le (b : List UInt8) (i : ℕ) (r : Fin 4) :
    column (getUint32Le b i) r = b.getD (i + r.val) 0 := by
  rw [getUint32Le, column_or, column_or, column_or, column_toUInt32, column_shiftLeft _ (k := 1) rfl,
    column_shiftLeft _ (k := 2) rfl, column_shiftLeft _ (k := 3) rfl]
  fin_cases r <;> simp

theorem putUint32Le_eq (w : UInt32) : putUint32Le w = List.ofFn (column w) := by
  have hbyte : ∀ (s : UInt32) (k : Fin 4), s.toNat = 8 * k.val → (w >>> s).toUInt8 = column w k :=
    fun s k hs => by
      have hk := k.isLt
      rw [← UInt8.toNat_inj, toNat_column, UInt32.toNat_toUInt8, UInt32.toNat_shiftRight, hs,
        Nat.mod_eq_of_lt (show 8 * k.val < 32 by omega), Nat.shiftRight_eq_div_pow]
  have hzero := hbyte 0 0 rfl
  rw [UInt32.shiftRight_zero] at hzero
  rw [putUint32Le, hzero, hbyte 8 1 rfl, hbyte 16 2 rfl, hbyte 24 3 rfl]
  rfl

/-- `ROTL8` moves each byte to the next row. -/
theorem column_rotl8 (w : UInt32) (r : Fin 4) : column (rotl8 w) r = column w (r - 1) := by
  have hw := w.toNat_lt
  have hleft : (w <<< 8 &&& (0xFFFFFFFF : UInt32)).toNat = w.toNat * 2 ^ 8 % 2 ^ 32 := by
    rw [UInt32.toNat_and, UInt32.toNat_shiftLeft, Nat.shiftLeft_eq]
    exact (Nat.and_two_pow_sub_one_eq_mod _ 32).trans (Nat.mod_mod _ _)
  have hright : (w >>> 24).toNat = w.toNat / 2 ^ 24 := by
    rw [UInt32.toNat_shiftRight, Nat.shiftRight_eq_div_pow]
    rfl
  have hleftZero : column (w <<< 8 &&& (0xFFFFFFFF : UInt32)) 0 = 0 := by
    rw [← UInt8.toNat_inj, toNat_column, hleft]
    simp
  have hrightZero : ∀ k : Fin 4, k ≠ 0 → column (w >>> 24) k = 0 := fun k hk => by
    rw [← UInt8.toNat_inj, toNat_column, hright]
    fin_cases k <;> simp at hk ⊢ <;> omega
  have hmoved : ∀ k : Fin 4, k ≠ 0 → column (w <<< 8 &&& (0xFFFFFFFF : UInt32)) k = column w (k - 1) :=
    fun k hk => by
      rw [← UInt8.toNat_inj, toNat_column, toNat_column, hleft]
      fin_cases k <;> simp at hk ⊢ <;> omega
  rw [rotl8, column_or]
  by_cases hr : r = 0
  · rw [hr, hleftZero, UInt8.zero_or, ← UInt8.toNat_inj, toNat_column, toNat_column, hright]
    simp
  · rw [hrightZero r hr, hmoved r hr, UInt8.or_zero]

/-! ### The rounds -/

/-- Four columns. -/
abbrev State := Fin 4 → Column

/-- The sum of two columns. -/
def Column.add (a b : Column) : Column :=
  fun r => a r ^^^ b r

noncomputable def subBytes (s : State) : State :=
  fun c r => sBox (s c r)

/-- The row `r` is rotated by `r` columns. -/
def shiftRows (s : State) : State :=
  fun c r => s (c + r) r

/-- The matrix that columns are multiplied by. -/
noncomputable def mixMatrix (r k : Fin 4) : AdjoinRoot aesPolynomial :=
  ![root, root + 1, 1, 1] (k - r)

noncomputable def mixColumn (a : Column) : Column :=
  fun r => bytes.symm (∑ k, mixMatrix r k * bytes (a k))

noncomputable def mixColumns (s : State) : State :=
  fun c => mixColumn (s c)

/-- The columns of the expanded key for the round `i` are added. -/
def addRoundKey (w : ℕ → Column) (i : ℕ) (s : State) : State :=
  fun c => (s c).add (w (4 * i + c.val))

/-- So many rounds, from the round `i` on. -/
noncomputable def roundsFrom (w : ℕ → Column) : ℕ → ℕ → State → State
  | 0, _, s => s
  | n + 1, i, s => roundsFrom w n (i + 1) (addRoundKey w i (mixColumns (shiftRows (subBytes s))))

/-- The cipher, with the columns of the expanded key. -/
noncomputable def standardCipher (w : ℕ → Column) (rounds : ℕ) (s : State) : State :=
  addRoundKey w rounds (shiftRows (subBytes (roundsFrom w (rounds - 1) 1 (addRoundKey w 0 s))))

/-! ### The rounds of the code -/

/-- A look-up in the substitution box, for a byte of a word. -/
theorem sub_eq (w : UInt32) {s : UInt32} {k : Fin 4} (hs : s.toNat = 8 * k.val) :
    initKeygenTables.sub w s = (sBox (column w k)).toUInt32 := by
  rw [Tables.sub, index_eq w hs, getD_fsb]

/-- The words are the columns of a state. -/
def Words.state (x : Words) : State :=
  ![column x.w0, column x.w1, column x.w2, column x.w3]

/-- The first column of the matrix is what the entries of `FT0` are multiplied by. -/
theorem bytes_forward (b : UInt8) (r : Fin 4) :
    bytes (column (forward b) r) = mixMatrix r 0 * bytes b := by
  have hy : bytes (UInt8.ofNat (xtime b.toNat &&& 0xFF)) = root * bytes b := by
    rw [bytes_ofNat, and_ff, value_mod, value_xtime, bytes_eq]
  have hz : bytes (UInt8.ofNat ((xtime b.toNat &&& 0xFF ^^^ b.toNat) &&& 0xFF)) = (root + 1) * bytes b := by
    rw [bytes_ofNat, and_ff, value_mod, value_xor, ← bytes_eq, ← bytes_ofNat, hy]
    ring
  obtain ⟨y, hydef⟩ : ∃ y, y = UInt8.ofNat (xtime b.toNat &&& 0xFF) := ⟨_, rfl⟩
  obtain ⟨z, hzdef⟩ : ∃ z, z = UInt8.ofNat ((xtime b.toNat &&& 0xFF ^^^ b.toNat) &&& 0xFF) := ⟨_, rfl⟩
  rw [← hydef] at hy
  rw [← hzdef] at hz
  have hforward : forward b = y.toUInt32 ^^^ b.toUInt32 <<< 8 ^^^ b.toUInt32 <<< 16 ^^^ z.toUInt32 <<< 24 := by
    rw [hydef, hzdef, ← ofNat_toUInt32 (and_ff_lt _), ← ofNat_toUInt32 (and_ff_lt _)]
    rfl
  rw [hforward, column_xor, column_xor, column_xor, column_toUInt32, column_shiftLeft _ (k := 1) rfl,
    column_shiftLeft _ (k := 2) rfl, column_shiftLeft _ (k := 3) rfl]
  fin_cases r <;> simp [mixMatrix, hy, hz]

theorem getD_map_of_lt {α β : Type*} {l : List α} {f : α → β} {i : ℕ} (h : i < l.length) (d : α) (e : β) :
    (l.map f).getD i e = f (l.getD i d) := by
  rw [List.getD_eq_getElem _ _ (by rwa [List.length_map]), List.getD_eq_getElem _ _ h, List.getElem_map]

/-- The tables that a round looks up. -/
def Tables.ft (t : Tables) : Fin 4 → List UInt32 :=
  ![t.ft0, t.ft1, t.ft2, t.ft3]

/-- **The entries are products** with a column of the matrix. -/
theorem bytes_ft (b : UInt8) (k r : Fin 4) :
    bytes (column ((initKeygenTables.ft k).getD b.toNat 0) r) = mixMatrix r k * bytes (sBox b) := by
  have hlen : b.toNat < initKeygenTables.fsb.length := by
    rw [initKeygenTables, List.length_map, List.length_range]
    exact b.toNat_lt
  have h0 : (initKeygenTables.ft 0).getD b.toNat 0 = forward (sBox b) := by
    rw [← getD_fsb]
    exact getD_map_of_lt hlen 0 0
  have h1 : (initKeygenTables.ft 1).getD b.toNat 0 = rotl8 (forward (sBox b)) := by
    rw [← h0]
    exact getD_map_of_lt (by rwa [List.length_map]) 0 0
  have h2 : (initKeygenTables.ft 2).getD b.toNat 0 = rotl8 (rotl8 (forward (sBox b))) := by
    rw [← h1]
    exact getD_map_of_lt (by rwa [List.length_map, List.length_map]) 0 0
  have h3 : (initKeygenTables.ft 3).getD b.toNat 0 = rotl8 (rotl8 (rotl8 (forward (sBox b)))) := by
    rw [← h2]
    exact getD_map_of_lt (by rwa [List.length_map, List.length_map, List.length_map]) 0 0
  have hentry : column ((initKeygenTables.ft k).getD b.toNat 0) r = column (forward (sBox b)) (r - k) := by
    match k with
    | 0 => rw [h0, sub_zero]
    | 1 => rw [h1, column_rotl8]
    | 2 => rw [h2, column_rotl8, column_rotl8, sub_sub]; rfl
    | 3 => rw [h3, column_rotl8, column_rotl8, column_rotl8, sub_sub, sub_sub]; rfl
  rw [hentry, bytes_forward, mixMatrix, mixMatrix, zero_sub, neg_sub]

/-- **A word of a round** is a column. -/
theorem column_froundWord (rk y0 y1 y2 y3 : UInt32) :
    column (initKeygenTables.froundWord rk y0 y1 y2 y3)
      = (mixColumn fun r => sBox (column (![y0, y1, y2, y3] r) r)).add (column rk) := by
  have hindex : (y0 &&& 0xFF).toNat = (column y0 0).toNat := by
    have hzero := index_eq y0 (s := 0) (k := 0) rfl
    rwa [UInt32.shiftRight_zero] at hzero
  funext r
  apply bytes.injective
  rw [Tables.froundWord, column_xor, column_xor, column_xor, column_xor, hindex, index_eq y1 (k := 1) rfl,
    index_eq y2 (k := 2) rfl, index_eq y3 (k := 3) rfl, bytes_xor, bytes_xor, bytes_xor, bytes_xor,
    Column.add, bytes_xor, mixColumn, Equiv.apply_symm_apply, Fin.sum_univ_four, ← bytes_ft, ← bytes_ft,
    ← bytes_ft, ← bytes_ft]
  simp [Tables.ft]
  ring

theorem state_fround (rk : List UInt32) (RK : ℕ) (y : Words) :
    (initKeygenTables.fround rk (4 * RK) y).state
      = addRoundKey (fun i => column (rk.getD i 0)) RK (mixColumns (shiftRows (subBytes y.state))) := by
  have hword : ∀ (c : Fin 4) (y0 y1 y2 y3 : UInt32), (∀ r, y.state (c + r) = column (![y0, y1, y2, y3] r)) →
      column (initKeygenTables.froundWord (rk.getD (4 * RK + c.val) 0) y0 y1 y2 y3)
        = addRoundKey (fun i => column (rk.getD i 0)) RK (mixColumns (shiftRows (subBytes y.state))) c :=
    fun c y0 y1 y2 y3 hy => by
      rw [column_froundWord]
      simp only [← hy]
      rfl
  funext c
  fin_cases c
  · exact hword 0 _ _ _ _ (fun r => by fin_cases r <;> rfl)
  · exact hword 1 _ _ _ _ (fun r => by fin_cases r <;> rfl)
  · exact hword 2 _ _ _ _ (fun r => by fin_cases r <;> rfl)
  · exact hword 3 _ _ _ _ (fun r => by fin_cases r <;> rfl)

/-- **A word of the last round** is a column that is not multiplied. -/
theorem column_lastWord (rk y0 y1 y2 y3 : UInt32) :
    column (initKeygenTables.lastWord rk y0 y1 y2 y3)
      = Column.add (fun r => sBox (column (![y0, y1, y2, y3] r) r)) (column rk) := by
  funext r
  rw [Tables.lastWord, column_xor, column_xor, column_xor, column_xor, sub_eq y0 (k := 0) rfl,
    sub_eq y1 (k := 1) rfl, sub_eq y2 (k := 2) rfl, sub_eq y3 (k := 3) rfl, column_toUInt32,
    column_shiftLeft _ (k := 1) rfl, column_shiftLeft _ (k := 2) rfl, column_shiftLeft _ (k := 3) rfl,
    Column.add]
  fin_cases r <;> simp [UInt8.xor_comm]

theorem state_lastRound (rk : List UInt32) (RK : ℕ) (y : Words) :
    (initKeygenTables.lastRound rk (4 * RK) y).state
      = addRoundKey (fun i => column (rk.getD i 0)) RK (shiftRows (subBytes y.state)) := by
  have hword : ∀ (c : Fin 4) (y0 y1 y2 y3 : UInt32), (∀ r, y.state (c + r) = column (![y0, y1, y2, y3] r)) →
      column (initKeygenTables.lastWord (rk.getD (4 * RK + c.val) 0) y0 y1 y2 y3)
        = addRoundKey (fun i => column (rk.getD i 0)) RK (shiftRows (subBytes y.state)) c :=
    fun c y0 y1 y2 y3 hy => by
      rw [column_lastWord]
      simp only [← hy]
      rfl
  funext c
  fin_cases c
  · exact hword 0 _ _ _ _ (fun r => by fin_cases r <;> rfl)
  · exact hword 1 _ _ _ _ (fun r => by fin_cases r <;> rfl)
  · exact hword 2 _ _ _ _ (fun r => by fin_cases r <;> rfl)
  · exact hword 3 _ _ _ _ (fun r => by fin_cases r <;> rfl)

/-- **The loop runs two rounds in a turn.** -/
theorem state_froundLoop (rk : List UInt32) (n i : ℕ) (x : Words) :
    (initKeygenTables.froundLoop rk n (4 * i) x).1 = 4 * (i + 2 * n) ∧
      (initKeygenTables.froundLoop rk n (4 * i) x).2.state
        = roundsFrom (fun i => column (rk.getD i 0)) (2 * n) i x.state := by
  induction n generalizing i x with
  | zero => exact ⟨rfl, rfl⟩
  | succ n ih =>
      obtain ⟨hpos, hstate⟩ := ih (i + 2)
        (initKeygenTables.fround rk (4 * (i + 1)) (initKeygenTables.fround rk (4 * i) x))
      rw [Tables.froundLoop, show 4 * i + 8 = 4 * (i + 2) by omega, show 4 * i + 4 = 4 * (i + 1) by omega]
      refine ⟨hpos.trans (by omega), hstate.trans ?_⟩
      rw [show 2 * (n + 1) = 2 * n + 1 + 1 by omega, roundsFrom, roundsFrom, state_fround, state_fround]

theorem roundsFrom_succ (w : ℕ → Column) (n i : ℕ) (s : State) :
    roundsFrom w (n + 1) i s
      = addRoundKey w (i + n) (mixColumns (shiftRows (subBytes (roundsFrom w n i s)))) := by
  induction n generalizing i s with
  | zero => rfl
  | succ n ih =>
      rw [roundsFrom, ih, show i + 1 + n = i + (n + 1) by omega]
      rfl

/-- The bytes of a block, column after column. -/
def blockState (b : List UInt8) : State :=
  fun c r => b.getD (4 * c.val + r.val) 0

theorem blockState_putUint32Le (x : Words) :
    blockState (putUint32Le x.w0 ++ putUint32Le x.w1 ++ putUint32Le x.w2 ++ putUint32Le x.w3) = x.state := by
  rw [putUint32Le_eq, putUint32Le_eq, putUint32Le_eq, putUint32Le_eq]
  funext c r
  fin_cases c <;> fin_cases r <;> rfl

/-- **The cipher of the code is the one over the field**, with the words that the key was expanded to. -/
theorem cipher_eq {ctx : Context} {n : ℕ} (hrounds : ctx.rounds = 2 * n + 2) (input : List UInt8) :
    (initKeygenTables.cipher ctx input).length = 16 ∧
      blockState (initKeygenTables.cipher ctx input)
        = standardCipher (fun i => column (ctx.rk.getD i 0)) ctx.rounds (blockState input) := by
  obtain ⟨x, hx⟩ : ∃ x : Words, x = ⟨getUint32Le input 0 ^^^ ctx.rk.getD 0 0,
    getUint32Le input 4 ^^^ ctx.rk.getD 1 0, getUint32Le input 8 ^^^ ctx.rk.getD 2 0,
    getUint32Le input 12 ^^^ ctx.rk.getD 3 0⟩ := ⟨_, rfl⟩
  have hstart : x.state = addRoundKey (fun i => column (ctx.rk.getD i 0)) 0 (blockState input) := by
    rw [hx]
    funext c r
    fin_cases c <;> exact (column_xor _ _ r).trans (congrArg₂ (· ^^^ ·) (column_getUint32Le _ _ r) rfl)
  obtain ⟨hpos, hloop⟩ := state_froundLoop ctx.rk n 1 x
  obtain ⟨y, hy⟩ : ∃ y, y = initKeygenTables.fround ctx.rk (4 * (1 + 2 * n))
    (initKeygenTables.froundLoop ctx.rk n (4 * 1) x).2 := ⟨_, rfl⟩
  obtain ⟨z, hz⟩ : ∃ z, z = initKeygenTables.lastRound ctx.rk (4 * ctx.rounds) y := ⟨_, rfl⟩
  have hturns : ctx.rounds >>> 1 - 1 = n := by
    rw [hrounds, Nat.shiftRight_eq_div_pow]
    omega
  have hlast : 4 * (1 + 2 * n) + 4 = 4 * ctx.rounds := by omega
  have hcipher : initKeygenTables.cipher ctx input
      = putUint32Le z.w0 ++ putUint32Le z.w1 ++ putUint32Le z.w2 ++ putUint32Le z.w3 := by
    rw [Tables.cipher, hturns, ← hx]
    dsimp only
    rw [hpos, hlast, ← hy, ← hz]
  rw [hcipher]
  refine ⟨rfl, ?_⟩
  rw [blockState_putUint32Le, hz, state_lastRound, hy, state_fround, hloop, ← roundsFrom_succ, hstart,
    standardCipher, show ctx.rounds - 1 = 2 * n + 1 by omega]

end Aes

end ScApi
