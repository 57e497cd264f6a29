import Mathlib.Data.Set.Finite.List
import Mathlib.Data.Set.Card
import ScApi.AesStandard

/-!
# The expanded key of AES, and the cipher as a permutation

A key of `nk` words is expanded word by word: each one is the sum of the word `nk` places before it and
the last one, which is rotated, substituted and changed by a power of `X` in every `nk`-th place, and
substituted in the middle between them if the key is long. `SC_API_aes_set_encryption_key` does that in
three loops, for the three sizes of a key.

No step of the cipher maps two states to one.

## Main results

* `aes_standard`: what `SC_API_aes_setkey` and `SC_API_aes_cipher` compute for a key of each size.
* `cipher_bijOn`: the cipher is a permutation of blocks.
-/

open Bytes BinaryPolynomial

namespace ScApi

namespace Aes

/-! ### The expanded key -/

def rotWord (a : Column) : Column :=
  fun r => a (r + 1)

noncomputable def subWord (a : Column) : Column :=
  fun r => sBox (a r)

/-- The round constants are powers of `X`. -/
noncomputable def rcon (i : ℕ) : Column :=
  fun r => if r = 0 then bytes.symm (root ^ (i - 1)) else 0

/-- The words of the key that `nk` words are expanded to. -/
noncomputable def expanded (nk : ℕ) (key : ℕ → Column) (i : ℕ) : Column :=
  if _h : nk = 0 ∨ i < nk then key i
  else
    let last := expanded nk key (i - 1)
    (expanded nk key (i - nk)).add
      (if i % nk = 0 then (subWord (rotWord last)).add (rcon (i / nk))
      else if 6 < nk ∧ i % nk = 4 then subWord last
      else last)
termination_by i

variable {nk : ℕ} {key : ℕ → Column}

theorem expanded_of_lt {i : ℕ} (h : i < nk) : expanded nk key i = key i := by
  rw [expanded, dif_pos (Or.inr h)]

theorem column_subRotated (w : UInt32) :
    column (initKeygenTables.subRotated w) = subWord (rotWord (column w)) := by
  funext r
  rw [Tables.subRotated, column_xor, column_xor, column_xor, sub_eq w (k := 1) rfl, sub_eq w (k := 2) rfl,
    sub_eq w (k := 3) rfl, sub_eq w (k := 0) rfl, column_toUInt32, column_shiftLeft _ (k := 1) rfl,
    column_shiftLeft _ (k := 2) rfl, column_shiftLeft _ (k := 3) rfl]
  fin_cases r <;> simp [subWord, rotWord]

theorem column_subPlain (w : UInt32) : column (initKeygenTables.subPlain w) = subWord (column w) := by
  funext r
  rw [Tables.subPlain, column_xor, column_xor, column_xor, sub_eq w (k := 0) rfl, sub_eq w (k := 1) rfl,
    sub_eq w (k := 2) rfl, sub_eq w (k := 3) rfl, column_toUInt32, column_shiftLeft _ (k := 1) rfl,
    column_shiftLeft _ (k := 2) rfl, column_shiftLeft _ (k := 3) rfl]
  fin_cases r <;> simp [subWord]

/-- The loop multiplies by `X`. -/
theorem getD_rconLoop {n i : ℕ} (hi : i < n) {x : ℕ} (hx : x < 256) :
    ∃ y < 256, (rconLoop n x).getD i 0 = UInt32.ofNat y ∧ value root 8 y = root ^ i * value root 8 x := by
  induction n generalizing i x with
  | zero => exact absurd hi (Nat.not_lt_zero i)
  | succ n ih =>
      cases i with
      | zero => exact ⟨x, hx, rfl, by rw [pow_zero, one_mul]⟩
      | succ i =>
          obtain ⟨y, hy, hentry, hvalue⟩ := ih (Nat.succ_lt_succ_iff.mp hi) (and_ff_lt (xtime x))
          refine ⟨y, hy, hentry, hvalue.trans ?_⟩
          rw [and_ff, value_mod, value_xtime, pow_succ, mul_assoc]

theorem column_rcon {i : ℕ} (hi : i < 10) : column (initKeygenTables.rcon.getD i 0) = rcon (i + 1) := by
  obtain ⟨y, hy, hentry, hvalue⟩ := getD_rconLoop hi (show 1 < 256 by decide)
  have hone : value root 8 1 = 1 := value_power 0
  have hbyte : UInt8.ofNat y = bytes.symm (root ^ i) := by
    rw [← Equiv.symm_apply_apply bytes (UInt8.ofNat y), bytes_ofNat, hvalue, hone, mul_one]
  have htable : initKeygenTables.rcon.getD i 0 = UInt32.ofNat y := hentry
  funext r
  rw [htable, ofNat_toUInt32 hy, column_toUInt32, hbyte]
  rfl

/-! ### The three loops -/

theorem column_add (u v : UInt32) : column (u ^^^ v) = (column u).add (column v) :=
  funext fun r => column_xor u v r

theorem Column.add_assoc (a b c : Column) : (a.add b).add c = a.add (b.add c) :=
  funext fun _ => UInt8.xor_assoc _ _ _

theorem Column.add_comm (a b : Column) : a.add b = b.add a :=
  funext fun _ => UInt8.xor_comm _ _

/-- A word behind those of the key, from the last word and the one `nk` places before it. -/
theorem expanded_step {i a b : ℕ} (hnk : 0 < nk) (ha : a + nk = i) (hb : b + 1 = i) :
    expanded nk key i = (expanded nk key a).add
      (if i % nk = 0 then (subWord (rotWord (expanded nk key b))).add (rcon (i / nk))
      else if 6 < nk ∧ i % nk = 4 then subWord (expanded nk key b)
      else expanded nk key b) := by
  rw [expanded, dif_neg (by omega), show i - 1 = b by omega, show i - nk = a by omega]

/-- A word in a place that is no multiple of the size of the key. -/
theorem expanded_plain {i a b : ℕ} (hnk : 0 < nk) (ha : a + nk = i) (hb : b + 1 = i) (h0 : i % nk ≠ 0)
    (h4 : ¬(6 < nk ∧ i % nk = 4)) {u v : UInt32} (hu : column u = expanded nk key a)
    (hv : column v = expanded nk key b) : column (u ^^^ v) = expanded nk key i := by
  rw [expanded_step hnk ha hb, if_neg h0, if_neg h4, column_add, hu, hv]

/-- A word in a place that is a multiple of the size of the key. -/
theorem expanded_rotated {i a b n : ℕ} (hnk : 0 < nk) (ha : a + nk = i) (hb : b + 1 = i)
    (h0 : i = nk * (n + 1)) (hn : n < 10) {u v : UInt32} (hu : column u = expanded nk key a)
    (hv : column v = expanded nk key b) :
    column (u ^^^ initKeygenTables.rcon.getD n 0 ^^^ initKeygenTables.subRotated v) = expanded nk key i := by
  have hmod : i % nk = 0 := by
    rw [h0, Nat.mul_mod_right]
  have hdiv : i / nk = n + 1 := by
    rw [h0, Nat.mul_div_cancel_left _ hnk]
  rw [expanded_step hnk ha hb, if_pos hmod, hdiv, column_add, column_add, column_rcon hn, column_subRotated,
    hu, hv, Column.add_assoc, Column.add_comm (rcon _)]

/-- A word in the middle between two multiples of the size of a long key. -/
theorem expanded_substituted {i a b : ℕ} (ha : a + nk = i) (hb : b + 1 = i) (hnk : 6 < nk)
    (h4 : i % nk = 4) {u v : UInt32} (hu : column u = expanded nk key a) (hv : column v = expanded nk key b) :
    column (u ^^^ initKeygenTables.subPlain v) = expanded nk key i := by
  rw [expanded_step (by omega) ha hb, if_neg (by omega), if_pos ⟨hnk, h4⟩, column_add, column_subPlain, hu, hv]

/-- So many words are those of the expanded key. -/
structure Expands (nk : ℕ) (key : ℕ → Column) (n : ℕ) (rk : List UInt32) : Prop where
  length : rk.length = n
  word : ∀ i < n, column (rk.getD i 0) = expanded nk key i

theorem Expands.append {n m : ℕ} {rk words : List UInt32} (h : Expands nk key n rk)
    (hm : n + words.length = m) (hwords : ∀ k < words.length, column (words.getD k 0) = expanded nk key (n + k)) :
    Expands nk key m (rk ++ words) := by
  refine ⟨by rw [List.length_append, h.length, hm], fun i hi => ?_⟩
  rcases Nat.lt_or_ge i n with hlt | hge
  · rw [← h.word i hlt, List.getD_append _ _ _ _ (by rw [h.length]; exact hlt)]
  · obtain ⟨k, rfl⟩ := Nat.exists_eq_add_of_le hge
    rw [← hwords k (by omega), List.getD_append_right _ _ _ _ (by rw [h.length]; exact hge), h.length,
      Nat.add_sub_cancel_left]

theorem Expands.expand10 {i : ℕ} (hi : i < 10) {rk : List UInt32} (h : Expands 4 key (4 * i + 4) rk) :
    Expands 4 key (4 * (i + 1) + 4) (initKeygenTables.expand10 rk i) := by
  have h4 := expanded_rotated (by omega) (show 4 * i + 0 + 4 = 4 * i + 4 + 0 from rfl)
    (show 4 * i + 3 + 1 = _ by omega) (by omega) hi (h.word _ (by omega)) (h.word _ (by omega))
  have h5 := expanded_plain (by omega) (show 4 * i + 1 + 4 = 4 * i + 4 + 1 by omega) rfl (by omega) (by omega)
    (h.word _ (by omega)) h4
  have h6 := expanded_plain (by omega) (show 4 * i + 2 + 4 = 4 * i + 4 + 2 by omega) rfl (by omega) (by omega)
    (h.word _ (by omega)) h5
  have h7 := expanded_plain (by omega) (show 4 * i + 3 + 4 = 4 * i + 4 + 3 by omega) rfl (by omega) (by omega)
    (h.word _ (by omega)) h6
  rw [Tables.expand10]
  refine h.append rfl fun k hk => ?_
  match k, hk with
  | 0, _ => exact h4
  | 1, _ => exact h5
  | 2, _ => exact h6
  | 3, _ => exact h7

theorem Expands.expand12 {i : ℕ} (hi : i < 8) {rk : List UInt32} (h : Expands 6 key (6 * i + 6) rk) :
    Expands 6 key (6 * (i + 1) + 6) (initKeygenTables.expand12 rk i) := by
  have h6 := expanded_rotated (by omega) (show 6 * i + 0 + 6 = 6 * i + 6 + 0 from rfl)
    (show 6 * i + 5 + 1 = _ by omega) (show _ = 6 * (i + 1) by omega) (by omega) (h.word _ (by omega))
    (h.word _ (by omega))
  have h7 := expanded_plain (by omega) (show 6 * i + 1 + 6 = 6 * i + 6 + 1 by omega) rfl (by omega) (by omega)
    (h.word _ (by omega)) h6
  have h8 := expanded_plain (by omega) (show 6 * i + 2 + 6 = 6 * i + 6 + 2 by omega) rfl (by omega) (by omega)
    (h.word _ (by omega)) h7
  have h9 := expanded_plain (by omega) (show 6 * i + 3 + 6 = 6 * i + 6 + 3 by omega) rfl (by omega) (by omega)
    (h.word _ (by omega)) h8
  have h10 := expanded_plain (by omega) (show 6 * i + 4 + 6 = 6 * i + 6 + 4 by omega) rfl (by omega)
    (by omega) (h.word _ (by omega)) h9
  have h11 := expanded_plain (by omega) (show 6 * i + 5 + 6 = 6 * i + 6 + 5 by omega) rfl (by omega)
    (by omega) (h.word _ (by omega)) h10
  rw [Tables.expand12]
  refine h.append rfl fun k hk => ?_
  match k, hk with
  | 0, _ => exact h6
  | 1, _ => exact h7
  | 2, _ => exact h8
  | 3, _ => exact h9
  | 4, _ => exact h10
  | 5, _ => exact h11

theorem Expands.expand14 {i : ℕ} (hi : i < 7) {rk : List UInt32} (h : Expands 8 key (8 * i + 8) rk) :
    Expands 8 key (8 * (i + 1) + 8) (initKeygenTables.expand14 rk i) := by
  have h8 := expanded_rotated (by omega) (show 8 * i + 0 + 8 = 8 * i + 8 + 0 from rfl)
    (show 8 * i + 7 + 1 = _ by omega) (show _ = 8 * (i + 1) by omega) (by omega) (h.word _ (by omega))
    (h.word _ (by omega))
  have h9 := expanded_plain (by omega) (show 8 * i + 1 + 8 = 8 * i + 8 + 1 by omega) rfl (by omega) (by omega)
    (h.word _ (by omega)) h8
  have h10 := expanded_plain (by omega) (show 8 * i + 2 + 8 = 8 * i + 8 + 2 by omega) rfl (by omega)
    (by omega) (h.word _ (by omega)) h9
  have h11 := expanded_plain (by omega) (show 8 * i + 3 + 8 = 8 * i + 8 + 3 by omega) rfl (by omega)
    (by omega) (h.word _ (by omega)) h10
  have h12 := expanded_substituted (show 8 * i + 4 + 8 = 8 * i + 8 + 4 by omega) rfl (by omega) (by omega)
    (h.word _ (by omega)) h11
  have h13 := expanded_plain (by omega) (show 8 * i + 5 + 8 = 8 * i + 8 + 5 by omega) rfl (by omega)
    (by omega) (h.word _ (by omega)) h12
  have h14 := expanded_plain (by omega) (show 8 * i + 6 + 8 = 8 * i + 8 + 6 by omega) rfl (by omega)
    (by omega) (h.word _ (by omega)) h13
  have h15 := expanded_plain (by omega) (show 8 * i + 7 + 8 = 8 * i + 8 + 7 by omega) rfl (by omega)
    (by omega) (h.word _ (by omega)) h14
  rw [Tables.expand14]
  refine h.append rfl fun k hk => ?_
  match k, hk with
  | 0, _ => exact h8
  | 1, _ => exact h9
  | 2, _ => exact h10
  | 3, _ => exact h11
  | 4, _ => exact h12
  | 5, _ => exact h13
  | 6, _ => exact h14
  | 7, _ => exact h15

/-- The loops go on until there are words for all rounds. -/
theorem Expands.foldl {n : ℕ} {f : List UInt32 → ℕ → List UInt32}
    (hf : ∀ i < n, ∀ rk, Expands nk key (nk * i + nk) rk → Expands nk key (nk * (i + 1) + nk) (f rk i))
    {rk : List UInt32} (h : Expands nk key nk rk) :
    Expands nk key (nk * n + nk) ((List.range n).foldl f rk) := by
  induction n with
  | zero => rwa [Nat.mul_zero, Nat.zero_add]
  | succ n ih =>
      rw [List.range_succ, List.foldl_append, List.foldl_cons, List.foldl_nil]
      exact hf n (Nat.lt_succ_self n) _ (ih fun i hi => hf i (Nat.lt_succ_of_lt hi))

/-- The words of a key. -/
def keyColumn (key : List UInt8) (i : ℕ) : Column :=
  fun r => key.getD (4 * i + r.val) 0

theorem expands_key (key : List UInt8) (n : ℕ) :
    Expands n (keyColumn key) n ((List.range n).map fun i => getUint32Le key (i <<< 2)) := by
  refine ⟨by rw [List.length_map, List.length_range], fun i hi => ?_⟩
  rw [getD_map_of_lt (by rwa [List.length_range]) 0, List.getD_eq_getElem _ _ (by rwa [List.length_range]),
    List.getElem_range, expanded_of_lt hi]
  funext r
  rw [column_getUint32Le, Nat.shiftLeft_eq, Nat.mul_comm]
  rfl

/-- **A key is expanded**, of each size. -/
theorem setkey_expands {key : List UInt8}
    (hkey : key.length = 16 ∨ key.length = 24 ∨ key.length = 32) :
    ∃ ctx n, setkey (some initKeygenTables) key key.length = some ctx ∧
      ctx.rounds = key.length / 4 + 6 ∧ 4 * (ctx.rounds + 1) ≤ n ∧
      Expands (key.length / 4) (keyColumn key) n ctx.rk := by
  rcases hkey with h | h | h <;> rw [h]
  · exact ⟨_, _, rfl, rfl, show 4 * (10 + 1) ≤ 4 * 10 + 4 by decide,
      (expands_key key 4).foldl fun _ hi _ => Expands.expand10 hi⟩
  · exact ⟨_, _, rfl, rfl, show 4 * (12 + 1) ≤ 6 * 8 + 6 by decide,
      (expands_key key 6).foldl fun _ hi _ => Expands.expand12 hi⟩
  · exact ⟨_, _, rfl, rfl, show 4 * (14 + 1) ≤ 8 * 7 + 8 by decide,
      (expands_key key 8).foldl fun _ hi _ => Expands.expand14 hi⟩

/-! ### The cipher -/

theorem addRoundKey_congr {w w' : ℕ → Column} {i n : ℕ} (h : ∀ j < 4 * (n + 1), w j = w' j) (hi : i ≤ n)
    (s : State) : addRoundKey w i s = addRoundKey w' i s :=
  funext fun c => congrArg ((s c).add) (h _ (by omega))

theorem roundsFrom_congr {w w' : ℕ → Column} {m i n : ℕ} (h : ∀ j < 4 * (n + 1), w j = w' j)
    (hi : i + m ≤ n + 1) (s : State) : roundsFrom w m i s = roundsFrom w' m i s := by
  induction m generalizing i s with
  | zero => rfl
  | succ m ih => rw [roundsFrom, roundsFrom, addRoundKey_congr h (by omega), ih (by omega)]

/-- Only the words for the rounds are used. -/
theorem standardCipher_congr {w w' : ℕ → Column} {n : ℕ} (h : ∀ j < 4 * (n + 1), w j = w' j) (s : State) :
    standardCipher w n s = standardCipher w' n s := by
  rw [standardCipher, standardCipher, addRoundKey_congr h (Nat.zero_le n), roundsFrom_congr h (by omega),
    addRoundKey_congr h le_rfl]

/-- **What the cipher computes for a key of each size.** -/
theorem aes_standard {key : List UInt8} (hkey : key.length = 16 ∨ key.length = 24 ∨ key.length = 32) :
    ∃ ctx, setkey (some initKeygenTables) key key.length = some ctx ∧
      ∀ input : List UInt8, (initKeygenTables.cipher ctx input).length = 16 ∧
        blockState (initKeygenTables.cipher ctx input)
          = standardCipher (expanded (key.length / 4) (keyColumn key)) (key.length / 4 + 6)
            (blockState input) := by
  obtain ⟨ctx, n, hset, hrounds, hn, hexpands⟩ := setkey_expands hkey
  have heven : ctx.rounds = 2 * (key.length / 8 + 2) + 2 := by
    rw [hrounds]
    omega
  refine ⟨ctx, hset, fun input => ?_⟩
  obtain ⟨hlength, hstate⟩ := cipher_eq heven input
  refine ⟨hlength, ?_⟩
  rw [hstate, hrounds]
  exact standardCipher_congr (fun j hj => hexpands.word j (by omega)) _

theorem aes_standard_zeros :
    ∃ ctx, setkey (some initKeygenTables) (List.replicate 24 0) 24 = some ctx ∧
      blockState (initKeygenTables.cipher ctx (List.replicate 16 1))
        = standardCipher (expanded 6 (keyColumn (List.replicate 24 0))) 12 (blockState (List.replicate 16 1)) := by
  obtain ⟨ctx, hset, hstandard⟩ := @aes_standard (List.replicate 24 0) (Or.inr (Or.inl rfl))
  exact ⟨ctx, hset, (hstandard _).2⟩

/-! ### No two states are mapped to one -/

/-- What undoes the affine transformation. -/
def unaffine (b : UInt8) : UInt8 :=
  UInt8.ofNat (Nat.ofBits fun i : Fin 8 => b.toNat.testBit ((i + 2) % 8) ^^ b.toNat.testBit ((i + 5) % 8)
    ^^ b.toNat.testBit ((i + 7) % 8) ^^ Nat.testBit 0x05 i)

theorem affine_injective : Function.Injective affine := by
  have hall : ∀ n < 256, (unaffine (affine (UInt8.ofNat n))).toNat = n := by
    decide +kernel
  have hback : ∀ b : UInt8, unaffine (affine b) = b := fun b => by
    have hb := hall b.toNat b.toNat_lt
    rw [UInt8.ofNat_toNat] at hb
    exact UInt8.toNat_inj.mp hb
  exact Function.LeftInverse.injective hback

theorem bytes_inverse_injective : Function.Injective fun b => Ring.inverse (bytes b) := by
  have hzero : ∀ b : UInt8, Ring.inverse (bytes b) = 0 → b = 0 := fun b h => by
    by_contra hb
    have hone := Ring.inverse_mul_cancel (bytes b) (isUnit_bytes hb)
    rw [h, zero_mul, ← bytes_zero] at hone
    exact hb (bytes.injective (by rw [← mul_one (bytes b), ← hone, bytes_zero, mul_zero]))
  intro a b h
  dsimp only at h
  by_cases hb : b = 0
  · rw [hb, bytes_zero, Ring.inverse_zero] at h
    rw [hb, hzero a h]
  · have ha : a ≠ 0 := fun ha => by
      rw [ha, bytes_zero, Ring.inverse_zero] at h
      exact hb (hzero b h.symm)
    apply bytes.injective
    calc bytes a = bytes a * (Ring.inverse (bytes b) * bytes b) := by
          rw [Ring.inverse_mul_cancel _ (isUnit_bytes hb), mul_one]
      _ = bytes a * Ring.inverse (bytes a) * bytes b := by rw [← h, mul_assoc]
      _ = bytes b := by rw [Ring.mul_inverse_cancel _ (isUnit_bytes ha), one_mul]

theorem sBox_injective : Function.Injective sBox := fun _ _ h =>
  bytes_inverse_injective (bytes.symm.injective (affine_injective h))

/-- The matrix that undoes the multiplication of columns. -/
noncomputable def unmixMatrix (r k : Fin 4) : AdjoinRoot aesPolynomial :=
  ![root ^ 3 + root ^ 2 + root, root ^ 3 + root + 1, root ^ 3 + root ^ 2 + 1, root ^ 3 + 1] (k - r)

/-- The products of the two first rows, one of them rotated. -/
theorem sum_rotated (d : Fin 4) :
    ∑ m, unmixMatrix 0 m * mixMatrix m d = if d = 0 then 1 else 0 := by
  have htwo : (2 : AdjoinRoot aesPolynomial) = 0 := CharTwo.two_eq_zero
  rw [Fin.sum_univ_four]
  fin_cases d <;> simp [unmixMatrix, mixMatrix]
  · linear_combination (root ^ 4 + 2 * root ^ 3 + root ^ 2 + root + 1) * htwo
  · linear_combination (root ^ 4 + 2 * root ^ 3 + 2 * root ^ 2 + root + 1) * htwo
  · linear_combination (root ^ 4 + 2 * root ^ 3 + root ^ 2 + 2 * root + 1) * htwo
  · linear_combination (root ^ 4 + 2 * root ^ 3 + root ^ 2 + 2 * root + 1) * htwo

theorem unmix_mix (r j : Fin 4) : ∑ k, unmixMatrix r k * mixMatrix k j = if r = j then 1 else 0 := by
  have hshift := Equiv.sum_comp (Equiv.addLeft r) fun k => unmixMatrix r k * mixMatrix k j
  have hterm : ∀ m, unmixMatrix r (r + m) * mixMatrix (r + m) j = unmixMatrix 0 m * mixMatrix m (j - r) :=
    fun m => by
      rw [unmixMatrix, unmixMatrix, mixMatrix, mixMatrix, add_sub_cancel_left, sub_zero, sub_add_eq_sub_sub]
  simp only [Equiv.coe_addLeft, hterm] at hshift
  rw [← hshift, sum_rotated]
  exact if_congr (sub_eq_zero.trans eq_comm) rfl rfl

theorem mixColumn_injective : Function.Injective mixColumn := by
  have hback : ∀ (a : Column) (r : Fin 4), ∑ k, unmixMatrix r k * bytes (mixColumn a k) = bytes (a r) :=
    fun a r => by
      calc ∑ k, unmixMatrix r k * bytes (mixColumn a k)
          = ∑ k, ∑ j, unmixMatrix r k * mixMatrix k j * bytes (a j) := by
            refine Finset.sum_congr rfl fun k _ => ?_
            rw [mixColumn, Equiv.apply_symm_apply, Finset.mul_sum]
            simp only [mul_assoc]
        _ = ∑ j, (∑ k, unmixMatrix r k * mixMatrix k j) * bytes (a j) := by
            rw [Finset.sum_comm]
            simp only [Finset.sum_mul]
        _ = bytes (a r) := by
            simp only [unmix_mix, ite_mul, one_mul, zero_mul, Finset.sum_ite_eq, Finset.mem_univ, if_true]
  intro a b h
  funext r
  exact bytes.injective (by rw [← hback, ← hback, h])

theorem Column.add_injective (k : Column) : Function.Injective fun a : Column => a.add k := by
  intro a b h
  funext r
  have hr : a r ^^^ k r = b r ^^^ k r := congrFun h r
  exact UInt8.xor_left_inj (k r) |>.mp hr

theorem shiftRows_injective : Function.Injective shiftRows := by
  intro s s' h
  funext c r
  have hentry := congrFun (congrFun h (c - r)) r
  rwa [shiftRows, shiftRows, sub_add_cancel] at hentry

theorem subBytes_injective : Function.Injective subBytes := fun _ _ h =>
  funext fun c => funext fun r => sBox_injective (congrFun (congrFun h c) r)

theorem mixColumns_injective : Function.Injective mixColumns := fun _ _ h =>
  funext fun c => mixColumn_injective (congrFun h c)

theorem addRoundKey_injective (w : ℕ → Column) (i : ℕ) : Function.Injective (addRoundKey w i) := fun _ _ h =>
  funext fun c => Column.add_injective _ (congrFun h c)

theorem roundsFrom_injective (w : ℕ → Column) (n i : ℕ) : Function.Injective (roundsFrom w n i) := by
  induction n generalizing i with
  | zero => exact Function.injective_id
  | succ n ih =>
      exact (ih (i + 1)).comp ((addRoundKey_injective w i).comp
        (mixColumns_injective.comp (shiftRows_injective.comp subBytes_injective)))

/-- **The rounds map no two states to one.** -/
theorem standardCipher_injective (w : ℕ → Column) (n : ℕ) : Function.Injective (standardCipher w n) :=
  (addRoundKey_injective w n).comp (shiftRows_injective.comp
    (subBytes_injective.comp ((roundsFrom_injective w (n - 1) 1).comp (addRoundKey_injective w 0))))

theorem blockState_injective {a b : List UInt8} (ha : a.length = 16) (hb : b.length = 16)
    (h : blockState a = blockState b) : a = b := by
  refine List.ext_getElem (ha.trans hb.symm) fun i hi hi' => ?_
  have hentry := congrFun (congrFun h ⟨i / 4, by omega⟩) ⟨i % 4, by omega⟩
  rw [blockState, blockState] at hentry
  dsimp only at hentry
  rwa [Nat.div_add_mod, List.getD_eq_getElem _ _ hi, List.getD_eq_getElem _ _ hi'] at hentry

/-- Other sizes are refused. -/
theorem length_of_setkey {key : List UInt8} {ctx : Context}
    (h : setkey (some initKeygenTables) key key.length = some ctx) :
    key.length = 16 ∨ key.length = 24 ∨ key.length = 32 := by
  rw [setkey, Option.bind_some] at h
  split at h
  · exact Or.inl ‹_›
  · exact Or.inr (Or.inl ‹_›)
  · exact Or.inr (Or.inr ‹_›)
  · cases h

/-- **Different blocks are encrypted to different blocks.** -/
theorem cipher_injective {key : List UInt8} {ctx : Context}
    (hset : setkey (some initKeygenTables) key key.length = some ctx) {a b : List UInt8}
    (ha : a.length = 16) (hb : b.length = 16)
    (h : initKeygenTables.cipher ctx a = initKeygenTables.cipher ctx b) : a = b := by
  have hkey := length_of_setkey hset
  obtain ⟨ctx', hset', hstandard⟩ := aes_standard hkey
  obtain rfl : ctx' = ctx := Option.some.inj (hset'.symm.trans hset)
  have hstates := (hstandard a).2.symm.trans ((congrArg blockState h).trans (hstandard b).2)
  exact blockState_injective ha hb (standardCipher_injective _ _ hstates)

/-- **AES is a permutation of the blocks**, for a key of each size. -/
theorem cipher_bijOn {key : List UInt8} {ctx : Context}
    (hset : setkey (some initKeygenTables) key key.length = some ctx) :
    Set.BijOn (initKeygenTables.cipher ctx) {b | b.length = 16} {b | b.length = 16} := by
  have hmaps : Set.MapsTo (initKeygenTables.cipher ctx) {b | b.length = 16} {b | b.length = 16} :=
    fun _ _ => rfl
  have hfinite : Finite UInt8 := Finite.of_injective UInt8.toFin fun _ _ => UInt8.toFin_inj.mp
  exact ((List.finite_length_eq UInt8 16).injOn_iff_bijOn_of_mapsTo hmaps).mp
    fun a ha b hb h => cipher_injective hset ha hb h

theorem cipher_bijOn_zeros :
    ∃ ctx, setkey (some initKeygenTables) (List.replicate 16 0) 16 = some ctx ∧
      initKeygenTables.cipher ctx (List.replicate 16 0) ≠ initKeygenTables.cipher ctx (List.replicate 16 1) :=
  ⟨_, rfl, fun h => absurd ((@cipher_bijOn (List.replicate 16 0) _ rfl).injOn rfl rfl h) (by decide)⟩

end Aes

end ScApi
