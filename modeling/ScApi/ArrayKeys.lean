import ScApi.BsonBuilding
import ScApi.Lib.BoundedRead
import ScApi.Lib.Related

/-!
# The keys of array elements

The key of an array element is its index in decimal. `fillArrayDocKey` makes it in a buffer of eight
bytes that nothing has been written to: from the front for an index below a hundred, and from the back
for a larger one. There the digits come in pairs, and only the pointer moves to the back; the pairs
themselves are written to the front of the buffer, where the key does not begin.

## Main results

* `fillChecked_eq`: every write of `fillArrayDocKey` is inside its buffer.
* `fillChecked_long`: what the key of an index of three or more digits is.
* `fillsRight_iff`: when the key is the decimal numeral.
* `arrayKeys_right_iff`: the same for the keys that a builder stores.
-/

open Bytes Buffer BoundedRead Relating Bson

namespace ScApi

open BsonBuilder

/-! ### The function with its buffer -/

/-- What `fillArrayDocKey` returns, a pointer into its buffer and a length, and the buffer. -/
structure FilledKey where
  buffer : List UInt8
  start : ℤ
  length : ℤ
  deriving DecidableEq, Repr

/-- The bytes that the pointer and the length are for. -/
def FilledKey.bytes (k : FilledKey) : List UInt8 :=
  (k.buffer.drop k.start.toNat).take k.length.toNat

/-- The key lies in the buffer of eight bytes. -/
structure FilledKey.Inside (k : FilledKey) : Prop where
  buffer : k.buffer.length = 8
  start : 0 ≤ k.start
  length : 0 ≤ k.length
  stop : k.start + k.length ≤ 8

theorem FilledKey.Inside.length_bytes {k : FilledKey} (h : k.Inside) : k.bytes.length = k.length := by
  obtain ⟨hbuffer, hstart, hlength, hstop⟩ := h
  rw [bytes, List.length_take, List.length_drop]
  omega

/-- Bytes are written to the buffer from an index on. -/
def writeKey (i : ℤ) (bytes buf : List UInt8) : Build (List UInt8) :=
  if 0 ≤ i ∧ i + bytes.length ≤ buf.length then
    pure (overwrite buf i.toNat bytes)
  else
    throw (.outOfBounds i)

/-- The loop of `fillArrayDocKey`, where every write is checked. -/
def fillLoopChecked : ℕ → List UInt8 → ℤ → ℤ → Build (List UInt8 × ℤ × ℤ)
  | 0, buf, out, idx => pure (buf, out, idx)
  | n + 1, buf, out, idx =>
      if 100 ≤ idx then do
        let buf ← writeKey 0 (digits2 (idx % 100)) buf
        fillLoopChecked n buf (out - 2) (idx / 100)
      else
        pure (buf, out, idx)

/-- `fillArrayDocKey`, where every write is checked. -/
def fillChecked (buf : List UInt8) (idx : ℤ) : Build FilledKey :=
  if idx < 10 then do
    let buf ← writeKey 0 [UInt8.ofNat ((48 + idx) % 256).toNat] buf
    let buf ← writeKey 1 [0] buf
    pure ⟨buf, 0, 2⟩
  else if idx < 100 then do
    let buf ← writeKey 0 (digits2 idx) buf
    let buf ← writeKey 2 [0] buf
    pure ⟨buf, 0, 3⟩
  else do
    let buf ← writeKey 7 [0] buf
    let (buf, out, idx) ← fillLoopChecked 5 buf 7 idx
    if idx < 10 then do
      let buf ← writeKey (out - 1) [digit idx] buf
      pure ⟨buf, out - 1, 8 - (out - 1)⟩
    else do
      let buf ← writeKey 0 (digits2 idx) buf
      pure ⟨buf, out, 8 - out⟩

/-! ### Numerals -/

theorem digitChar_byte {d : ℕ} (h : d < 10) : UInt8.ofNat (Nat.digitChar d).toNat = digit d := by
  revert d
  decide

theorem digit_mod (n : ℕ) : digit (n % 10 : ℕ) = digit n := by
  rw [digit, digit]
  congr 2
  omega

theorem arrayKey_of_lt {n : ℕ} (h : n < 10) : arrayKey n = [digit n] := by
  rw [arrayKey, Nat.toDigits_of_lt_base h, List.map_singleton, digitChar_byte h]

/-- The last digit of a numeral. -/
theorem arrayKey_step {n : ℕ} (h : 10 ≤ n) : arrayKey n = arrayKey (n / 10) ++ [digit n] := by
  rw [arrayKey, Nat.toDigits_of_base_le (by omega) h, List.map_append, List.map_singleton,
    digitChar_byte (Nat.mod_lt n (by omega)), digit_mod]
  rfl

/-- **The pairs of the last digits** come off a numeral, and what is left is the numeral of the
quotient. -/
theorem arrayKey_pairs {n k : ℕ} (h : 100 ^ k ≤ n) :
    ∃ pairs, pairs.length = 2 * k ∧ arrayKey n = arrayKey (n / 100 ^ k) ++ pairs := by
  induction k generalizing n with
  | zero => exact ⟨[], rfl, by simp⟩
  | succ k ih =>
      rw [pow_succ] at h
      have hpos : 1 ≤ 100 ^ k := Nat.one_le_pow _ _ (by omega)
      have hdiv : 100 ^ k ≤ n / 100 := (Nat.le_div_iff_mul_le (by omega)).mpr h
      obtain ⟨pairs, hlength, hpairs⟩ := ih hdiv
      refine ⟨pairs ++ [digit (n / 10 : ℕ), digit n], ?_, ?_⟩
      · rw [List.length_append, hlength]
        rfl
      · rw [arrayKey_step (by omega), arrayKey_step (by omega), Nat.div_div_eq_div_mul n 10 10,
          hpairs, Nat.div_div_eq_div_mul, ← pow_succ']
        simp

/-! ### Every write is inside -/

theorem writeKey_ok {i : ℤ} {bytes buf : List UInt8} (h0 : 0 ≤ i)
    (h : i + bytes.length ≤ buf.length) : writeKey i bytes buf = .ok (overwrite buf i.toNat bytes) :=
  if_pos ⟨h0, h⟩

theorem writeKey_eq_ok {i : ℤ} {bytes buf buf' : List UInt8} (h : writeKey i bytes buf = .ok buf') :
    buf' = overwrite buf i.toNat bytes ∧ buf'.length = buf.length := by
  rw [writeKey] at h
  split_ifs at h with hin
  obtain rfl := Except.ok.inj h
  exact ⟨rfl, length_overwrite (by omega)⟩

/-- **The loop** writes over the first two bytes only, and moves the pointer by two for each pair. -/
theorem fillLoopChecked_eq {n k : ℕ} (hk : k < n) {buf : List UInt8} (hbuf : 2 ≤ buf.length) (out : ℤ)
    {idx : ℕ} (hlo : k ≠ 0 → 100 ^ k ≤ idx) (hhi : idx < 100 ^ (k + 1)) :
    ∃ buf', fillLoopChecked n buf out idx = .ok (buf', out - 2 * k, (idx / 100 ^ k : ℕ)) ∧
      buf'.length = buf.length ∧ buf'.drop 2 = buf.drop 2 := by
  obtain ⟨n, rfl⟩ := Nat.exists_eq_succ_of_ne_zero (by omega : n ≠ 0)
  induction k generalizing n buf out idx with
  | zero =>
      refine ⟨buf, ?_, rfl, rfl⟩
      rw [fillLoopChecked, if_neg (by omega), Nat.cast_zero, mul_zero, sub_zero, pow_zero, Nat.div_one]
      rfl
  | succ k ih =>
      obtain ⟨n, rfl⟩ := Nat.exists_eq_succ_of_ne_zero (by omega : n ≠ 0)
      have hlo' := hlo (Nat.succ_ne_zero k)
      rw [pow_succ] at hlo' hhi
      have hpos : 1 ≤ 100 ^ k := Nat.one_le_pow _ _ (by omega)
      have hwrite : writeKey 0 (digits2 ((idx : ℤ) % 100)) buf
          = .ok (overwrite buf 0 (digits2 ((idx : ℤ) % 100))) :=
        writeKey_ok le_rfl (by simpa [digits2] using hbuf)
      obtain ⟨-, hlength⟩ := writeKey_eq_ok hwrite
      have hlo₁ : k ≠ 0 → 100 ^ k ≤ idx / 100 :=
        fun _ => (Nat.le_div_iff_mul_le (by omega)).mpr hlo'
      have hhi₁ : idx / 100 < 100 ^ (k + 1) := Nat.div_lt_of_lt_mul (by omega)
      obtain ⟨buf', hloop, hlength', hdrop⟩ :=
        ih (hlength ▸ hbuf) (out - 2) hlo₁ hhi₁ n (by omega)
      refine ⟨buf', ?_, hlength'.trans hlength, ?_⟩
      · have hcast : (idx : ℤ) / 100 = (idx / 100 : ℕ) := (Int.natCast_div idx 100).symm
        have hout : out - 2 - 2 * k = out - 2 * (k + 1 : ℕ) := by
          push_cast
          ring
        rw [fillLoopChecked, if_pos (by omega), hwrite, hcast]
        rw [hout, Nat.div_div_eq_div_mul, ← pow_succ'] at hloop
        exact hloop
      · rw [hdrop, overwrite_zero]
        rfl

/-- The checked loop is the loop. -/
theorem fillLoop_of_checked {n : ℕ} {buf : List UInt8} {out idx : ℤ} {x : List UInt8 × ℤ × ℤ}
    (h : fillLoopChecked n buf out idx = .ok x) :
    fillLoop n buf out idx = x ∧ x.1.length = buf.length := by
  induction n generalizing buf out idx with
  | zero =>
      obtain rfl := Except.ok.inj h
      exact ⟨rfl, rfl⟩
  | succ n ih =>
      rw [fillLoopChecked] at h
      rw [fillLoop]
      split_ifs at h ⊢ with hidx
      · obtain ⟨buf', hwrite, h⟩ := bind_eq_ok.mp h
        obtain ⟨rfl, hlength⟩ := writeKey_eq_ok hwrite
        obtain ⟨hloop, hlength'⟩ := ih h
        exact ⟨hloop, hlength'.trans hlength⟩
      · obtain rfl := Except.ok.inj h
        exact ⟨rfl, rfl⟩

/-- A key that is written from the front. -/
theorem front_bytes {key buf buf₁ buf₂ : List UInt8} {n : ℤ} (hn : n = key.length)
    (h₁ : writeKey 0 key buf = .ok buf₁) (h₂ : writeKey n [0] buf₁ = .ok buf₂) :
    FilledKey.bytes ⟨buf₂, 0, n + 1⟩ = key ++ [0] := by
  obtain ⟨rfl, -⟩ := writeKey_eq_ok h₁
  obtain ⟨rfl, -⟩ := writeKey_eq_ok h₂
  have hwrite : overwrite (overwrite buf 0 key) (0 + key.length) [0] = overwrite buf 0 (key ++ [0]) :=
    overwrite_overwrite (Nat.zero_le _)
  rw [Nat.zero_add, overwrite_zero buf (key ++ [0])] at hwrite
  have hlength : (n + 1).toNat = (key ++ [0]).length := by
    rw [List.length_append, List.length_singleton]
    omega
  rw [FilledKey.bytes, hlength, show n.toNat = key.length by omega]
  dsimp only
  rw [Int.toNat_zero, hwrite, List.drop_zero, List.take_left]

theorem inside_back {buf : List UInt8} (hbuf : buf.length = 8) (start : ℤ) (h0 : 0 ≤ start)
    (h8 : start ≤ 8) : FilledKey.Inside ⟨buf, start, 8 - start⟩ :=
  ⟨hbuf, h0, sub_nonneg.mpr h8, (add_sub_cancel start 8).le⟩

/-- A key that is read to the end of the buffer. -/
theorem back_bytes {buf : List UInt8} (hbuf : buf.length = 8) {start : ℤ} :
    FilledKey.bytes ⟨buf, start, 8 - start⟩ = buf.drop start.toNat := by
  rw [FilledKey.bytes, List.take_of_length_le]
  dsimp only
  rw [List.length_drop]
  omega

/-- **What `fillArrayDocKey` returns**, when every write is inside. -/
theorem fillArrayDocKey_of_checked {buf : List UInt8} (hbuf : buf.length = 8) {idx : ℤ} {k : FilledKey}
    (h : fillChecked buf idx = .ok k) : fillArrayDocKey buf idx = k.bytes := by
  rw [fillChecked] at h
  rw [fillArrayDocKey]
  split_ifs at h ⊢ with hten hhundred
  · obtain ⟨buf₁, h₁, h⟩ := bind_eq_ok.mp h
    obtain ⟨buf₂, h₂, h⟩ := bind_eq_ok.mp h
    obtain rfl := Except.ok.inj h
    exact (front_bytes rfl h₁ h₂).symm
  · obtain ⟨buf₁, h₁, h⟩ := bind_eq_ok.mp h
    obtain ⟨buf₂, h₂, h⟩ := bind_eq_ok.mp h
    obtain rfl := Except.ok.inj h
    exact (front_bytes rfl h₁ h₂).symm
  · obtain ⟨buf₁, h₁, hrest⟩ := bind_eq_ok.mp h
    obtain ⟨⟨buf₂, out, left⟩, hloop, hkey⟩ := bind_eq_ok.mp hrest
    obtain ⟨rfl, hlength₁⟩ := writeKey_eq_ok h₁
    obtain ⟨hloop', hlength₂⟩ := fillLoop_of_checked hloop
    change fillLoop 5 (overwrite buf 7 [0]) 7 idx = _ at hloop'
    rw [hloop']
    dsimp only at hkey hlength₂ ⊢
    by_cases hleft : left < 10
    · rw [if_pos hleft] at hkey ⊢
      obtain ⟨buf₃, h₃, hret⟩ := bind_eq_ok.mp hkey
      obtain rfl := Except.ok.inj hret
      obtain ⟨rfl, hlength₃⟩ := writeKey_eq_ok h₃
      exact (back_bytes (hlength₃.trans (hlength₂.trans (hlength₁.trans hbuf)))).symm
    · rw [if_neg hleft] at hkey ⊢
      obtain ⟨buf₃, h₃, hret⟩ := bind_eq_ok.mp hkey
      obtain rfl := Except.ok.inj hret
      obtain ⟨rfl, hlength₃⟩ := writeKey_eq_ok h₃
      exact (back_bytes (hlength₃.trans (hlength₂.trans (hlength₁.trans hbuf)))).symm

/-! ### What the keys are -/

/-- There is room for a key that is written from the front. -/
theorem front_inside {key buf : List UInt8} {n : ℤ} (hn : n = key.length) (hbuf : buf.length = 8)
    (hkey : n ≤ 7) : ∃ buf₁ buf₂, writeKey 0 key buf = .ok buf₁ ∧ writeKey n [0] buf₁ = .ok buf₂ ∧
      FilledKey.Inside ⟨buf₂, 0, n + 1⟩ := by
  have h₁ : writeKey 0 key buf = .ok (overwrite buf 0 key) := writeKey_ok le_rfl (by omega)
  obtain ⟨-, hlength₁⟩ := writeKey_eq_ok h₁
  have h₂ : writeKey n [0] (overwrite buf 0 key) = .ok (overwrite (overwrite buf 0 key) n.toNat [0]) :=
    writeKey_ok (by omega) (by rw [List.length_singleton]; omega)
  obtain ⟨-, hlength₂⟩ := writeKey_eq_ok h₂
  refine ⟨_, _, h₁, h₂, hlength₂.trans (hlength₁.trans hbuf), le_rfl, ?_, ?_⟩
  · show 0 ≤ n + 1
    omega
  · show 0 + (n + 1) ≤ 8
    omega

/-- A key of one or two digits. -/
theorem fillChecked_short {buf : List UInt8} (hbuf : buf.length = 8) {idx : ℕ} (h : idx < 100) :
    ∃ k, fillChecked buf idx = .ok k ∧ k.Inside := by
  rw [fillChecked]
  split_ifs with hten hhundred
  · obtain ⟨buf₁, buf₂, h₁, h₂, hin⟩ := front_inside
      (show (1 : ℤ) = [UInt8.ofNat ((48 + (idx : ℤ)) % 256).toNat].length from rfl) hbuf (by decide)
    exact ⟨_, bind_eq_ok.mpr ⟨_, h₁, bind_eq_ok.mpr ⟨_, h₂, rfl⟩⟩, hin⟩
  · obtain ⟨buf₁, buf₂, h₁, h₂, hin⟩ := front_inside
      (show (2 : ℤ) = (digits2 idx).length from rfl) hbuf (by decide)
    exact ⟨_, bind_eq_ok.mpr ⟨_, h₁, bind_eq_ok.mpr ⟨_, h₂, rfl⟩⟩, hin⟩
  · omega

/-- **A key of more digits**: `k` pairs of digits come off in the loop. What the key has in their place
is what the buffer held there before, and of one or two digits that are left, only a single one is
written in front. -/
theorem fillChecked_long {buf : List UInt8} (hbuf : buf.length = 8) {idx k : ℕ} (h1 : 1 ≤ k)
    (h2 : k ≤ 2) (hlo : 100 ^ k ≤ idx) (hhi : idx < 100 ^ (k + 1)) :
    ∃ key, fillChecked buf idx = .ok key ∧ key.Inside ∧
      key.bytes = (if idx / 100 ^ k < 10 then arrayKey (idx / 100 ^ k) else [])
        ++ (buf.drop (7 - 2 * k)).take (2 * k) ++ [0] := by
  have h100 : 100 ≤ idx := (Nat.le_self_pow (by omega) 100).trans hlo
  have hwrite : writeKey 7 [0] buf = .ok (overwrite buf 7 [0]) :=
    writeKey_ok (by omega) (by rw [hbuf]; decide)
  obtain ⟨-, hlength₁⟩ := writeKey_eq_ok hwrite
  have htwo : 2 ≤ (overwrite buf 7 [0]).length := by omega
  obtain ⟨buf₂, hloop, hlength₂, hdrop⟩ := fillLoopChecked_eq (n := 5) (k := k) (by omega) htwo 7
    (fun _ => hlo) hhi
  have hbuf₂ : buf₂.length = 8 := hlength₂.trans (hlength₁.trans hbuf)
  -- behind its first two bytes the buffer is as it was, with a NUL byte at its end
  have hback : buf₂.drop (7 - 2 * k) = (buf.drop (7 - 2 * k)).take (2 * k) ++ [0] := by
    have hsplit : 7 - 2 * k = 2 + (5 - 2 * k) := by omega
    have htake : 7 - (7 - 2 * k) = 2 * k := by omega
    have hend : buf.drop 8 = [] := List.drop_of_length_le hbuf.le
    rw [hsplit, ← List.drop_drop, hdrop, List.drop_drop, ← hsplit, overwrite, List.append_assoc,
      List.drop_append_of_le_length (by rw [List.length_take]; omega), List.drop_take, htake,
      List.length_singleton, hend, List.append_nil]
  obtain ⟨left, hleft⟩ : ∃ left, left = idx / 100 ^ k := ⟨_, rfl⟩
  rw [← hleft] at hloop ⊢
  rw [fillChecked, if_neg (by omega), if_neg (by omega)]
  by_cases hten : left < 10
  · have hfirst : writeKey (7 - 2 * (k : ℤ) - 1) [digit left] buf₂
        = .ok (overwrite buf₂ (6 - 2 * k) [digit left]) := by
      rw [writeKey_ok (by omega) (by rw [List.length_singleton]; omega),
        show (7 - 2 * (k : ℤ) - 1).toNat = 6 - 2 * k by omega]
    have hbuf₃ := (writeKey_eq_ok hfirst).2.trans hbuf₂
    refine ⟨_, bind_eq_ok.mpr ⟨_, hwrite, bind_eq_ok.mpr ⟨_, hloop, ?_⟩⟩,
      inside_back hbuf₃ (7 - 2 * (k : ℤ) - 1) (by omega) (by omega), ?_⟩
    · dsimp only
      rw [if_pos (by exact_mod_cast hten)]
      exact bind_eq_ok.mpr ⟨_, hfirst, rfl⟩
    · rw [back_bytes hbuf₃, show (7 - 2 * (k : ℤ) - 1).toNat = 6 - 2 * k by omega,
        drop_overwrite (by omega), List.length_singleton, show 6 - 2 * k + 1 = 7 - 2 * k by omega,
        hback, if_pos hten, arrayKey_of_lt hten, List.append_assoc]
  · have hpair : writeKey 0 (digits2 left) buf₂ = .ok (overwrite buf₂ 0 (digits2 left)) :=
      writeKey_ok le_rfl (by simp only [digits2, List.length_cons, List.length_nil]; omega)
    have hbuf₃ := (writeKey_eq_ok hpair).2.trans hbuf₂
    refine ⟨_, bind_eq_ok.mpr ⟨_, hwrite, bind_eq_ok.mpr ⟨_, hloop, ?_⟩⟩,
      inside_back hbuf₃ (7 - 2 * (k : ℤ)) (by omega) (by omega), ?_⟩
    · dsimp only
      rw [if_neg (by exact_mod_cast hten)]
      exact bind_eq_ok.mpr ⟨_, hpair, rfl⟩
    · have hpairs : 0 + (digits2 (left : ℤ)).length ≤ 7 - 2 * k := by
        simp only [digits2, List.length_cons, List.length_nil]
        omega
      rw [back_bytes hbuf₃, show (7 - 2 * (k : ℤ)).toNat = 7 - 2 * k by omega,
        drop_overwrite_of_le (by omega) hpairs, hback, if_neg hten, List.nil_append]

/-! ### When a key is right -/

/-- **The key is right**: it is the numeral of the index and a NUL byte, and lies in the buffer. -/
def FillsRight (buf : List UInt8) (idx : ℕ) : Prop :=
  ∃ k, fillChecked buf idx = .ok k ∧ k.Inside ∧ k.length = (arrayKey idx).length + 1 ∧
    k.bytes = arrayKey idx ++ [0]

/-- **The condition on an index and the bytes of the buffer**: the index has one or two digits, or an
odd number of digits of which all but the first are in the buffer already. -/
def Foreseen (buf : List UInt8) (idx : ℕ) : Prop :=
  idx < 100 ∨ (arrayKey idx).length % 2 = 1 ∧
    (buf.drop (8 - (arrayKey idx).length)).take ((arrayKey idx).length - 1) = (arrayKey idx).tail

instance (buf : List UInt8) (idx : ℕ) : Decidable (Foreseen buf idx) :=
  inferInstanceAs (Decidable (_ ∨ _ ∧ _))

/-- **What every key looks like.** -/
theorem exists_key {buf : List UInt8} (hbuf : buf.length = 8) {idx : ℕ} (hidx : idx < 1000000) :
    ∃ k digits, fillChecked buf idx = .ok k ∧ k.Inside ∧ k.bytes = digits ++ [0] ∧
      digits.length ≤ (arrayKey idx).length ∧ (digits = arrayKey idx ↔ Foreseen buf idx) := by
  by_cases hshort : idx < 100
  · obtain ⟨k, hk, hin⟩ := fillChecked_short hbuf hshort
    have hbytes := fillArrayDocKey_of_checked hbuf hk
    rw [fillArrayDocKey_eq hshort] at hbytes
    exact ⟨k, arrayKey idx, hk, hin, hbytes.symm, le_rfl, fun _ => .inl hshort, fun _ => rfl⟩
  obtain ⟨n, h1, h2, hlo, hhi⟩ : ∃ n, 1 ≤ n ∧ n ≤ 2 ∧ 100 ^ n ≤ idx ∧ idx < 100 ^ (n + 1) := by
    by_cases h : idx < 10000
    · exact ⟨1, le_rfl, by omega, by omega, by omega⟩
    · exact ⟨2, by omega, le_rfl, by omega, by omega⟩
  obtain ⟨k, hk, hin, hbytes⟩ := fillChecked_long hbuf h1 h2 hlo hhi
  obtain ⟨pairs, hpairs, hnumeral⟩ := arrayKey_pairs hlo
  have hmiddle : ((buf.drop (7 - 2 * n)).take (2 * n)).length = 2 * n := by
    rw [List.length_take, List.length_drop]
    omega
  obtain ⟨left, hleft⟩ : ∃ left, left = idx / 100 ^ n := ⟨_, rfl⟩
  have hlt : left < 100 := by
    rw [hleft]
    exact Nat.div_lt_of_lt_mul (by rw [← pow_succ]; exact hhi)
  rw [← hleft] at hbytes hnumeral
  refine ⟨k, _, hk, hin, hbytes, ?_, ?_⟩
  · rw [hnumeral, List.length_append, List.length_append, hpairs, hmiddle]
    split_ifs
    · exact le_rfl
    · exact Nat.add_le_add_right (Nat.zero_le _) _
  by_cases hten : left < 10
  · have hone : (arrayKey left).length = 1 := by
      rw [arrayKey_of_lt hten]
      rfl
    have hlength : (arrayKey idx).length = 2 * n + 1 := by
      rw [hnumeral, List.length_append, hone, hpairs, Nat.add_comm]
    have htail : (arrayKey idx).tail = pairs := by
      rw [hnumeral, arrayKey_of_lt hten]
      rfl
    rw [if_pos hten, hnumeral, List.append_cancel_left_eq, Foreseen, hlength, htail,
      show 8 - (2 * n + 1) = 7 - 2 * n by omega, Nat.add_sub_cancel]
    constructor
    · exact fun hmid => .inr ⟨by omega, hmid⟩
    · rintro (h | ⟨-, hmid⟩)
      · exact absurd h hshort
      · exact hmid
  · have htwo : (arrayKey left).length = 2 := by
      rw [arrayKey_step (by omega), arrayKey_of_lt (by omega)]
      rfl
    have hlength : (arrayKey idx).length = 2 * n + 2 := by
      rw [hnumeral, List.length_append, htwo, hpairs, Nat.add_comm]
    rw [if_neg hten, List.nil_append]
    constructor
    · intro heq
      have := congrArg List.length heq
      omega
    · rintro (h | ⟨hodd, -⟩)
      · exact absurd h hshort
      · omega

/-- In a buffer of zeros nothing is foreseen: the digits behind the first one would be NUL bytes. -/
theorem lt_of_foreseen_zeros {idx : ℕ} (h : Foreseen (List.replicate 8 0) idx) : idx < 100 := by
  rcases h with hlt | ⟨-, htail⟩
  · exact hlt
  by_contra hge
  have hlength : 2 ≤ (arrayKey idx).length := by
    rw [arrayKey_step (by omega), arrayKey_step (by omega)]
    simp
  cases hdigits : (arrayKey idx).tail with
  | nil =>
      have := congrArg List.length hdigits
      rw [List.length_tail, List.length_nil] at this
      omega
  | cons x digits =>
      rw [hdigits] at htail
      have hx : x ∈ List.replicate 8 (0 : UInt8) :=
        List.mem_of_mem_drop (List.mem_of_mem_take (htail ▸ List.mem_cons_self))
      rw [List.eq_of_mem_replicate hx] at hdigits
      exact zero_notMem_arrayKey idx (List.mem_of_mem_tail (hdigits ▸ List.mem_cons_self))

/-- **When the key of an index is right.** -/
theorem fillsRight_iff {buf : List UInt8} (hbuf : buf.length = 8) {idx : ℕ} (hidx : idx < 1000000) :
    FillsRight buf idx ↔ Foreseen buf idx := by
  obtain ⟨k, digits, hk, hin, hbytes, -, hright⟩ := exists_key hbuf hidx
  rw [← hright]
  constructor
  · rintro ⟨k', hk', -, -, hbytes'⟩
    obtain rfl := Except.ok.inj (hk.symm.trans hk')
    exact List.append_cancel_right (hbytes.symm.trans hbytes')
  · rintro rfl
    refine ⟨k, hk, hin, ?_, hbytes⟩
    rw [← hin.length_bytes, hbytes, List.length_append]
    rfl

/-! ### The keys that a builder stores -/

section Stored

variable {platform : Platform} {b c : BsonBuilder}

/-- Making room leaves the place where the next byte goes. -/
theorem gives_offset (bytes : ℤ) (b : BsonBuilder) :
    Gives (fun p : Bool × BsonBuilder => p.2.offset = b.offset)
      (b.verifyEnoughCapacity platform bytes) := by
  rw [BsonBuilder.verifyEnoughCapacity]
  have hcheck : ∀ c : BsonBuilder, c.offset = b.offset →
      Gives (fun p : Bool × BsonBuilder => p.2.offset = b.offset)
        (if wrap32 (c.currentUsage + bytes) ≤ c.capacity then
          (pure (true, c) : Build (Bool × BsonBuilder))
        else pure (false, { c with errorFlag := true })) :=
    fun c hc => Gives.ite (fun _ => Gives.pure hc) fun _ => Gives.pure hc
  refine Gives.ite (fun _ => Gives.pure rfl) fun _ => Gives.ite (fun _ => ?_) fun _ => hcheck b rfl
  refine Gives.bind (P := fun c => c.offset = b.offset) ?_ hcheck
  rw [BsonBuilder.reallocateTo]
  cases b.container with
  | none => exact Gives.throw _
  | some capacity => exact Gives.ite (fun _ => Gives.throw _) fun _ => Gives.pure rfl

/-- **What is in front of a value is written** where the next byte goes. -/
theorem gives_header (header : List UInt8) (valueSize : ℤ) (b : BsonBuilder) :
    Gives (fun p : Bool × BsonBuilder => p.1 = true → header <+: p.2.buffer.drop b.offset.toNat)
      (b.insertHeader platform header valueSize) := by
  refine (gives_offset _ b).bind fun p hp => ?_
  refine Gives.ite (fun _ => ?_) fun _ => Gives.pure fun h => absurd h Bool.false_ne_true
  refine Gives.bind (P := fun c => header <+: c.buffer.drop b.offset.toNat) ?_
    fun c hc => Gives.pure fun _ => hc
  rw [BsonBuilder.write]
  refine Gives.ite (fun hin => Gives.pure ?_) fun _ => Gives.throw _
  rw [hp] at hin ⊢
  dsimp only
  rw [drop_overwrite (by omega)]
  exact List.prefix_append _ _

/-- Two keys with their NUL bytes at one place are the same when the longer one has no other. -/
theorem key_eq_of_prefix {digits numeral rest : List UInt8} (hnul : 0 ∉ numeral)
    (hle : digits.length ≤ numeral.length) (h : digits ++ [0] <+: rest)
    (h' : numeral ++ [0] <+: rest) : digits = numeral := by
  obtain ⟨t, ht⟩ := List.prefix_of_prefix_length_le h h' (by simpa using hle)
  rcases List.eq_nil_or_concat t with rfl | ⟨t, x, rfl⟩
  · rw [List.append_nil] at ht
    exact List.append_cancel_right ht
  · rw [List.concat_eq_append, ← List.append_assoc] at ht
    obtain ⟨rfl, -⟩ := List.append_inj' ht rfl
    exact absurd (by simp) hnul

/-- **The key that is stored**: the builder has written the type byte and a key for the index of the
element, and the key is the numeral. -/
def StoresRight (b b' : BsonBuilder) (elementType : UInt8) (idx : ℕ) : Prop :=
  header elementType (arrayKey idx) <+: b'.buffer.drop b.offset.toNat

theorem storesRight_iff {b' : BsonBuilder} {elementType : UInt8} {valueSize : ℤ} {idx : ℕ}
    {counters : List ℤ} (hidx : idx < 1000000) (hcounters : b.arrayIdxCounters = (idx : ℤ) :: counters)
    (h : b.verifyCapacityAndInsertArrayKey platform elementType valueSize = .ok (true, b')) :
    StoresRight b b' elementType idx ↔ Foreseen (platform.keyBuffer b) idx := by
  obtain ⟨k, digits, hk, hin, hbytes, hle, hright⟩ := exists_key (platform.length_keyBuffer b) hidx
  have hkey := fillArrayDocKey_of_checked (platform.length_keyBuffer b) hk
  rw [verifyCapacityAndInsertArrayKey, hcounters] at h
  have hstored := gives_header _ _ _ _ h rfl
  rw [hkey, hbytes] at hstored
  obtain ⟨rest, hrest⟩ := hstored
  dsimp only at hrest
  rw [← hright, StoresRight, header, ← hrest, List.cons_append, List.cons_prefix_cons]
  constructor
  · rintro ⟨-, hnumeral⟩
    exact key_eq_of_prefix (zero_notMem_arrayKey idx) hle (List.prefix_append _ _) hnumeral
  · rintro rfl
    exact ⟨rfl, List.prefix_append _ _⟩

end Stored

/-- **When the keys of array elements are right**: for every content of the buffer, those of the first
hundred elements; and for one content, those of the indices that it foresees. -/
theorem arrayKeys_right_iff {idx : ℕ} (hidx : idx < 1000000) :
    ((∀ buf : List UInt8, buf.length = 8 → FillsRight buf idx) ↔ idx < 100) ∧
    (∀ buf : List UInt8, buf.length = 8 → (FillsRight buf idx ↔ Foreseen buf idx)) ∧
    ∀ (platform : Platform) (b b' : BsonBuilder) (elementType : UInt8) (valueSize : ℤ)
      (counters : List ℤ), b.arrayIdxCounters = (idx : ℤ) :: counters →
      b.verifyCapacityAndInsertArrayKey platform elementType valueSize = .ok (true, b') →
      (StoresRight b b' elementType idx ↔ Foreseen (platform.keyBuffer b) idx) := by
  refine ⟨⟨fun h => ?_, fun h buf hbuf => ?_⟩, fun buf hbuf => fillsRight_iff hbuf hidx,
    fun platform b b' elementType valueSize counters hcounters h => storesRight_iff hidx hcounters h⟩
  · have hzeros : (List.replicate 8 (0 : UInt8)).length = 8 := List.length_replicate ..
    exact lt_of_foreseen_zeros ((fillsRight_iff hzeros hidx).mp (h _ hzeros))
  · exact (fillsRight_iff hbuf hidx).mpr (.inl h)

/-- An index of five digits whose last four digits are in the buffer or are not. -/
theorem arrayKeys_right_five :
    FillsRight [0, 0, 0, 50, 51, 52, 53, 0] 12345 ∧ ¬ FillsRight (List.replicate 8 0) 12345 := by
  obtain ⟨-, hfills, -⟩ := arrayKeys_right_iff (by decide : 12345 < 1000000)
  exact ⟨(hfills _ rfl).mpr (by decide), fun h => absurd ((hfills _ rfl).mp h) (by decide)⟩

/-- The first index of three digits, and one of four digits: their digits are at the front of the
buffer, and the keys are what the end of the buffer held. -/
theorem not_fillsRight :
    fillChecked (List.replicate 8 0xCC) 100
        = .ok ⟨[48, 48, 0xCC, 0xCC, 49, 0xCC, 0xCC, 0], 4, 4⟩ ∧
      fillChecked (List.replicate 8 0xCC) 1234
        = .ok ⟨[49, 50, 0xCC, 0xCC, 0xCC, 0xCC, 0xCC, 0], 5, 3⟩ ∧
      ¬ ∀ (idx : ℕ) (buf : List UInt8), idx < 1000000 → buf.length = 8 → FillsRight buf idx := by
  have hthree : fillChecked (List.replicate 8 0xCC) 100
      = .ok ⟨[48, 48, 0xCC, 0xCC, 49, 0xCC, 0xCC, 0], 4, 4⟩ := by decide
  refine ⟨hthree, by decide, fun h => ?_⟩
  obtain ⟨k, hk, -, -, hbytes⟩ := h 100 (List.replicate 8 0xCC) (by decide) rfl
  obtain rfl := Except.ok.inj (hthree.symm.trans hk)
  exact absurd hbytes (by decide)

end ScApi
