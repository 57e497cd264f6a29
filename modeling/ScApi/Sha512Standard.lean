import ScApi.Lib.Framing
import ScApi.Sha512

/-!
# What the hash computes

The standard fills the whole message up, with one bit, zeros and the length of the message, to blocks of
128 bytes. It compresses the blocks one by one, in 80 rounds each, of which every round moves all
variables by one place.

## Main results

* `isRoot_K`, `isRoot_init`: what the constants are.
* `eightRounds_eq`: a turn of the loop is eight rounds of the standard.
* `compress_eq`: the compression of a block.
* `absorbed_add`: what `sha512_add` keeps, for data of any length.
* `hash_standard`: the hash of a message does not depend on how it is cut into pieces, and is that of the
  standard.
-/

open Bytes Buffer

namespace ScApi

namespace Sha512

/-! ### The standard -/

/-- The primes that the constants are made of. Below `21 * 21` a number that is not prime has a divisor
below 21. -/
def primes : List ℕ :=
  (List.range 410).filter fun n => 2 ≤ n ∧ ∀ d ∈ List.range 21, 2 ≤ d → d < n → n % d ≠ 0

/-- A word has the first 64 bits behind the point of the `n`-th root of a number. -/
def IsRoot (n p : ℕ) (x : UInt64) : Prop :=
  ∃ i < 8, (i * 2 ^ 64 + x.toNat) ^ n ≤ p * 2 ^ (64 * n) ∧ p * 2 ^ (64 * n) < (i * 2 ^ 64 + x.toNat + 1) ^ n

instance (n p : ℕ) (x : UInt64) : Decidable (IsRoot n p x) :=
  inferInstanceAs (Decidable (∃ i < 8, _ ∧ _))

/-- A rotation to the right. -/
def rotr (n : ℕ) (x : UInt64) : UInt64 :=
  ⟨x.toBitVec.rotateRight n⟩

/-- The function `Ch`. -/
def ch (x y z : UInt64) : UInt64 :=
  (x &&& y) ^^^ (~~~x &&& z)

/-- The function `Maj`. -/
def maj (x y z : UInt64) : UInt64 :=
  (x &&& y) ^^^ (x &&& z) ^^^ (y &&& z)

/-- The words of a round, from those of the block. -/
def schedule (M : ℕ → UInt64) (t : ℕ) : UInt64 :=
  if t < 16 then
    M t
  else
    (rotr 19 (schedule M (t - 2)) ^^^ rotr 61 (schedule M (t - 2)) ^^^ schedule M (t - 2) >>> 6)
      + schedule M (t - 7)
      + (rotr 1 (schedule M (t - 15)) ^^^ rotr 8 (schedule M (t - 15)) ^^^ schedule M (t - 15) >>> 7)
      + schedule M (t - 16)

/-- One round. -/
def standardRound (W : ℕ → UInt64) (t : ℕ) (v : Words) : Words :=
  let t₁ := v.h + (rotr 14 v.e ^^^ rotr 18 v.e ^^^ rotr 41 v.e) + ch v.e v.f v.g + K.getD t 0 + W t
  let t₂ := (rotr 28 v.a ^^^ rotr 34 v.a ^^^ rotr 39 v.a) + maj v.a v.b v.c
  { a := t₁ + t₂, b := v.a, c := v.b, d := v.c, e := v.d + t₁, f := v.e, g := v.f, h := v.g }

/-- The sum of two states. -/
def Words.add (v w : Words) : Words :=
  ⟨v.a + w.a, v.b + w.b, v.c + w.c, v.d + w.d, v.e + w.e, v.f + w.f, v.g + w.g, v.h + w.h⟩

/-- The word of a block at an index, the first byte being the most significant. -/
def wordAt (block : List UInt8) (t : ℕ) : UInt64 :=
  UInt64.ofNat (ofLe ((block.drop (8 * t)).take 8).reverse)

/-- The compression of a block. -/
def standardCompress (state : Words) (block : List UInt8) : Words :=
  state.add ((List.range 80).foldl (fun v t => standardRound (schedule (wordAt block)) t v) state)

/-- Data are cut into blocks. -/
def blockFraming : Framing UInt8 where
  frame? := fun l => if blockSize ≤ l.length then some blockSize else none
  pos := by
    intro l n h
    rw [Option.ite_none_right_eq_some, Option.some.injEq] at h
    exact h.2 ▸ by decide
  le_length := by
    intro l n h
    rw [Option.ite_none_right_eq_some, Option.some.injEq] at h
    exact h.2 ▸ h.1
  stable := by
    intro l n t h
    rw [Option.ite_none_right_eq_some, Option.some.injEq] at h
    rw [List.length_append, if_pos (h.1.trans (Nat.le_add_right _ _)), h.2]

/-- A message filled up to whole blocks: one bit, as few zeros as possible, and the length in bits. -/
def padded (message : List UInt8) : List UInt8 :=
  message ++ (0x80 :: List.replicate ((239 - message.length % 128) % 128) 0
    ++ (toLe 16 (8 * message.length)).reverse)

/-- The bytes of a state, the first one of a word being the most significant. -/
def Words.bytes (v : Words) : List UInt8 :=
  [v.a, v.b, v.c, v.d, v.e, v.f, v.g, v.h].flatMap fun x => (toLe 8 x.toNat).reverse

/-- The hash of a message. -/
def standardHash (message : List UInt8) : List UInt8 :=
  ((blockFraming.split (padded message)).1.foldl standardCompress (init []).state).bytes

/-! ### The constants -/

/-- **The constants of the rounds** are made of the cube roots of the first eighty primes. -/
theorem isRoot_K : primes.length = 80 ∧ ∀ t < 80, IsRoot 3 (primes.getD t 0) (K.getD t 0) := by
  decide +kernel

/-- **The words of the first state** are made of the square roots of the first eight primes. -/
theorem isRoot_init (buffer : List UInt8) : List.Forall₂ (IsRoot 2) (primes.take 8)
    (let v := (init buffer).state; [v.a, v.b, v.c, v.d, v.e, v.f, v.g, v.h]) := by
  have hprimes : primes.take 8 = [2, 3, 5, 7, 11, 13, 17, 19] := by decide +kernel
  rw [hprimes, init]
  simp only [List.forall₂_cons, List.Forall₂.nil, and_true]
  decide +kernel

/-! ### The functions of a round -/

theorem ch_eq (e f g : UInt64) : g ^^^ (e &&& (f ^^^ g)) = ch e f g := by
  rw [ch, ← UInt64.toBitVec_inj]
  refine BitVec.eq_of_getLsbD_eq fun i hi => ?_
  simp only [UInt64.toBitVec_xor, UInt64.toBitVec_and, UInt64.toBitVec_not, BitVec.getLsbD_xor,
    BitVec.getLsbD_and, BitVec.getLsbD_not, hi, decide_true, Bool.true_and]
  cases e.toBitVec.getLsbD i <;> cases f.toBitVec.getLsbD i <;> cases g.toBitVec.getLsbD i <;> rfl

theorem maj_eq (a b c : UInt64) : ((a ||| b) &&& c) ||| (a &&& b) = maj a b c := by
  rw [maj, ← UInt64.toBitVec_inj]
  refine BitVec.eq_of_getLsbD_eq fun i hi => ?_
  simp only [UInt64.toBitVec_xor, UInt64.toBitVec_and, UInt64.toBitVec_or, BitVec.getLsbD_xor,
    BitVec.getLsbD_and, BitVec.getLsbD_or]
  cases a.toBitVec.getLsbD i <;> cases b.toBitVec.getLsbD i <;> cases c.toBitVec.getLsbD i <;> rfl

/-- **A round of the code** leaves the two variables that a round of the standard changes. -/
theorem standardRound_eq {W : ℕ → UInt64} {words : List UInt64} {t : ℕ} (h : words.getD t 0 = W t)
    (a b c d e f g x : UInt64) : standardRound W t ⟨a, b, c, d, e, f, g, x⟩ =
      ⟨(round words t a b c d e f g x).2, a, b, c, (round words t a b c d e f g x).1, e, f, g⟩ := by
  have hfirst : (round words t a b c d e f g x).1
      = d + (x + (rotr 14 e ^^^ rotr 18 e ^^^ rotr 41 e) + ch e f g + K.getD t 0 + W t) := by
    rw [round, ch_eq, h]
    rfl
  have hsecond : (round words t a b c d e f g x).2
      = x + (rotr 14 e ^^^ rotr 18 e ^^^ rotr 41 e) + ch e f g + K.getD t 0 + W t
        + ((rotr 28 a ^^^ rotr 34 a ^^^ rotr 39 a) + maj a b c) := by
    rw [round, ch_eq, maj_eq, h]
    exact UInt64.add_assoc _ _ _
  rw [hfirst, hsecond, standardRound]

/-- **A turn of the loop is eight rounds**: each round moves all variables by one place, so that after
eight of them they are back. -/
theorem eightRounds_eq {W : ℕ → UInt64} {words : List UInt64} {i : ℕ}
    (h : ∀ j < 8, words.getD (i + j) 0 = W (i + j)) (v : Words) :
    eightRounds words i v
      = ((List.range' i 8).foldl (fun v t => standardRound W t v) v) := by
  obtain ⟨a, b, c, d, e, f, g, x⟩ := v
  have hround : ∀ j < 8, ∀ a b c d e f g x, standardRound W (i + j) ⟨a, b, c, d, e, f, g, x⟩ =
      ⟨(round words (i + j) a b c d e f g x).2, a, b, c, (round words (i + j) a b c d e f g x).1,
        e, f, g⟩ := fun j hj => standardRound_eq (h j hj)
  have hrange : List.range' i 8
      = [i + 0, i + 1, i + 2, i + 3, i + 4, i + 5, i + 6, i + 7] := by
    simp [List.range'_succ]
  rw [hrange, eightRounds]
  simp only [List.foldl_cons, List.foldl_nil]
  obtain ⟨⟨d₁, x₁⟩, h₁⟩ : ∃ p, p = round words (i + 0) a b c d e f g x := ⟨_, rfl⟩
  rw [hround 0 (by decide), ← h₁]
  obtain ⟨⟨c₁, g₁⟩, h₂⟩ : ∃ p, p = round words (i + 1) x₁ a b c d₁ e f g := ⟨_, rfl⟩
  rw [hround 1 (by decide), ← h₂]
  obtain ⟨⟨b₁, f₁⟩, h₃⟩ : ∃ p, p = round words (i + 2) g₁ x₁ a b c₁ d₁ e f := ⟨_, rfl⟩
  rw [hround 2 (by decide), ← h₃]
  obtain ⟨⟨a₁, e₁⟩, h₄⟩ : ∃ p, p = round words (i + 3) f₁ g₁ x₁ a b₁ c₁ d₁ e := ⟨_, rfl⟩
  rw [hround 3 (by decide), ← h₄]
  obtain ⟨⟨x₂, d₂⟩, h₅⟩ : ∃ p, p = round words (i + 4) e₁ f₁ g₁ x₁ a₁ b₁ c₁ d₁ := ⟨_, rfl⟩
  rw [hround 4 (by decide), ← h₅]
  obtain ⟨⟨g₂, c₂⟩, h₆⟩ : ∃ p, p = round words (i + 5) d₂ e₁ f₁ g₁ x₂ a₁ b₁ c₁ := ⟨_, rfl⟩
  rw [hround 5 (by decide), ← h₆]
  obtain ⟨⟨f₂, b₂⟩, h₇⟩ : ∃ p, p = round words (i + 6) c₂ d₂ e₁ f₁ g₂ x₂ a₁ b₁ := ⟨_, rfl⟩
  rw [hround 6 (by decide), ← h₇]
  obtain ⟨⟨e₂, a₂⟩, h₈⟩ : ∃ p, p = round words (i + 7) b₂ c₂ d₂ e₁ f₂ g₂ x₂ a₁ := ⟨_, rfl⟩
  rw [hround 7 (by decide), ← h₈]

/-- The loop over the rounds. -/
theorem roundsLoop_eq {W : ℕ → UInt64} {words : List UInt64} {n i : ℕ}
    (h : ∀ t < i + 8 * n, words.getD t 0 = W t) (v : Words) :
    roundsLoop words n i v = (List.range' i (8 * n)).foldl (fun v t => standardRound W t v) v := by
  induction n generalizing i v with
  | zero => rfl
  | succ n ih =>
      have hsplit : List.range' i (8 * (n + 1)) = List.range' i 8 ++ List.range' (i + 8) (8 * n) := by
        rw [Nat.mul_succ, Nat.add_comm (8 * n), ← List.range'_append_1]
      rw [roundsLoop, ih (fun t ht => h t (by omega)), eightRounds_eq (fun j hj => h (i + j) (by omega)),
        hsplit, List.foldl_append]

/-! ### The words of a round -/

theorem schedule_of_lt {M : ℕ → UInt64} {t : ℕ} (h : t < 16) : schedule M t = M t := by
  rw [schedule, if_pos h]

theorem schedule_of_le {M : ℕ → UInt64} {t : ℕ} (h : 16 ≤ t) :
    schedule M t = schedule M (t - 16) + g0 (schedule M (t - 15)) + schedule M (t - 7)
      + g1 (schedule M (t - 2)) := by
  have hg0 : g0 (schedule M (t - 15)) = rotr 1 (schedule M (t - 15)) ^^^ rotr 8 (schedule M (t - 15))
      ^^^ schedule M (t - 15) >>> 7 := rfl
  have hg1 : g1 (schedule M (t - 2)) = rotr 19 (schedule M (t - 2)) ^^^ rotr 61 (schedule M (t - 2))
      ^^^ schedule M (t - 2) >>> 6 := rfl
  rw [hg0, hg1]
  conv_lhs => rw [schedule, if_neg (by omega)]
  ac_rfl

/-- **The loop that computes the words** of the rounds. -/
theorem getD_extend {M : ℕ → UInt64} {n : ℕ} {words : List UInt64} (hmin : 16 ≤ words.length)
    (h : ∀ t < words.length, words.getD t 0 = schedule M t) :
    ∀ t < words.length + n, (extend n words).getD t 0 = schedule M t := by
  induction n generalizing words with
  | zero => exact h
  | succ n ih =>
      obtain ⟨next, hnext⟩ : ∃ next, next = words.getD (words.length - 16) 0
        + g0 (words.getD (words.length - 15) 0) + words.getD (words.length - 7) 0
        + g1 (words.getD (words.length - 2) 0) := ⟨_, rfl⟩
      have hlast : next = schedule M words.length := by
        rw [hnext, h _ (by omega), h _ (by omega), h _ (by omega), h _ (by omega), schedule_of_le hmin]
      have hlength : (words ++ [next]).length = words.length + 1 := List.length_append
      intro t ht
      rw [extend, ← hnext]
      refine ih (by omega) (fun u hu => ?_) t (by omega)
      by_cases hold : u < words.length
      · rw [List.getD_eq_getElem?_getD, List.getElem?_append_left hold, ← List.getD_eq_getElem?_getD]
        exact h u hold
      · obtain rfl : u = words.length := by omega
        rw [List.getD_eq_getElem?_getD, List.getElem?_concat_length, Option.getD_some, hlast]

/-! ### Bytes of a word -/

/-- One more byte below some others. -/
theorem toNat_or_byte {x y : UInt64} {n k : ℕ} {b : UInt8} (hx : x.toNat = n * 2 ^ (k + 8))
    (hy : y.toNat = b.toNat * 2 ^ k) : (x ||| y).toNat = (256 * n + b.toNat) * 2 ^ k := by
  have hlt : b.toNat * 2 ^ k < 2 ^ (k + 8) := by
    rw [Nat.pow_add, Nat.mul_comm (2 ^ k)]
    exact Nat.mul_lt_mul_of_pos_right b.toNat_lt (Nat.two_pow_pos k)
  rw [UInt64.toNat_or, hx, hy, Nat.mul_comm n, ← Nat.two_pow_add_eq_or_of_lt hlt, Nat.pow_add]
  ring

/-- A byte at its place in a word. -/
theorem toNat_shiftLeft_byte (b : UInt8) {s : UInt64} {k : ℕ} (hs : s.toNat = k) (hk : k ≤ 56) :
    (b.toUInt64 <<< s).toNat = b.toNat * 2 ^ k := by
  have hlt : b.toNat * 2 ^ k < 2 ^ (8 + k) := by
    rw [Nat.pow_add]
    exact Nat.mul_lt_mul_of_pos_right b.toNat_lt (Nat.two_pow_pos k)
  have hpow : 2 ^ (8 + k) ≤ 2 ^ 64 := Nat.pow_le_pow_right (by decide) (by omega)
  have hmod : k % 64 = k := Nat.mod_eq_of_lt (by omega)
  rw [UInt64.toNat_shiftLeft, hs, hmod, UInt8.toNat_toUInt64, Nat.shiftLeft_eq,
    Nat.mod_eq_of_lt (hlt.trans_le hpow)]

/-- **A word is loaded** with its first byte as the most significant one. -/
theorem loadBe64_eq {p : List UInt8} (h : 8 ≤ p.length) :
    loadBe64 p = UInt64.ofNat (ofLe (p.take 8).reverse) := by
  rcases p with _ | ⟨b₀, _ | ⟨b₁, _ | ⟨b₂, _ | ⟨b₃, _ | ⟨b₄, _ | ⟨b₅, _ | ⟨b₆, _ | ⟨b₇, rest⟩⟩⟩⟩⟩⟩⟩⟩
  iterate 8 · simp at h
  have h₀ := toNat_shiftLeft_byte b₀ (s := 56) rfl (by decide)
  have h₁ := toNat_shiftLeft_byte b₁ (s := 48) rfl (by decide)
  have h₂ := toNat_shiftLeft_byte b₂ (s := 40) rfl (by decide)
  have h₃ := toNat_shiftLeft_byte b₃ (s := 32) rfl (by decide)
  have h₄ := toNat_shiftLeft_byte b₄ (s := 24) rfl (by decide)
  have h₅ := toNat_shiftLeft_byte b₅ (s := 16) rfl (by decide)
  have h₆ := toNat_shiftLeft_byte b₆ (s := 8) rfl (by decide)
  have h₇ : b₇.toUInt64.toNat = b₇.toNat * 2 ^ 0 := by rw [UInt8.toNat_toUInt64, pow_zero, mul_one]
  have hword := toNat_or_byte (k := 0) (toNat_or_byte (k := 8) (toNat_or_byte (k := 16)
    (toNat_or_byte (k := 24) (toNat_or_byte (k := 32) (toNat_or_byte (k := 40)
      (toNat_or_byte (k := 48) h₀ h₁) h₂) h₃) h₄) h₅) h₆) h₇
  have l₀ := b₀.toNat_lt
  have l₁ := b₁.toNat_lt
  have l₂ := b₂.toNat_lt
  have l₃ := b₃.toNat_lt
  have l₄ := b₄.toNat_lt
  have l₅ := b₅.toNat_lt
  have l₆ := b₆.toNat_lt
  have l₇ := b₇.toNat_lt
  rw [loadBe64, ← UInt64.toNat_inj, UInt64.toNat_ofNat']
  simp only [List.getD_cons_zero, List.getD_cons_succ, List.take_succ_cons, List.take_zero,
    List.reverse_cons, List.reverse_nil, List.nil_append, List.cons_append, ofLe_cons, ofLe_nil]
  rw [hword]
  omega

/-- **A word is stored** with its most significant byte first. -/
theorem storeBe64_eq (x : UInt64) : storeBe64 x = (toLe 8 x.toNat).reverse := by
  have hbyte : ∀ (s : UInt64) (k : ℕ), s.toNat = k → k < 64 →
      (x >>> s &&& 0xff).toUInt8 = UInt8.ofNat (x.toNat / 2 ^ k) := by
    intro s k hs hk
    rw [← UInt8.toNat_inj, UInt64.toNat_toUInt8, UInt64.toNat_and, UInt64.toNat_shiftRight, hs,
      Nat.mod_eq_of_lt hk, Nat.shiftRight_eq_div_pow, UInt8.toNat_ofNat']
    exact congrArg (· % 2 ^ 8) (Nat.and_two_pow_sub_one_eq_mod _ 8) |>.trans (Nat.mod_mod _ _)
  simp only [storeBe64, toLe, List.reverse_cons, List.reverse_nil, List.nil_append, List.cons_append,
    Nat.div_div_eq_div_mul]
  rw [hbyte 56 56 rfl (by decide), hbyte 48 48 rfl (by decide), hbyte 40 40 rfl (by decide),
    hbyte 32 32 rfl (by decide), hbyte 24 24 rfl (by decide), hbyte 16 16 rfl (by decide),
    hbyte 8 8 rfl (by decide), hbyte 0 0 rfl (by decide), Nat.pow_zero, Nat.div_one]
  rfl

/-! ### Compressing a block -/

theorem getD_loadWords {block : List UInt8} (h : blockSize ≤ block.length) {t : ℕ} (ht : t < 16) :
    (loadWords block).getD t 0 = wordAt block t := by
  rw [blockSize] at h
  rw [loadWords, List.getD_eq_getElem?_getD, List.getElem?_map, List.getElem?_range ht, Option.map_some,
    Option.getD_some, loadBe64_eq (by rw [List.length_drop]; omega), wordAt]

/-- **The compression of a block** is that of the standard. -/
theorem compress_eq (state : Words) {block : List UInt8} (h : blockSize ≤ block.length) :
    compress state block = standardCompress state block := by
  have hlength : (loadWords block).length = 16 := by
    rw [loadWords, List.length_map, List.length_range]
  have hwords : ∀ t < 0 + 8 * 10,
      (extend 64 (loadWords block)).getD t 0 = schedule (wordAt block) t := by
    have hextend := @getD_extend (wordAt block) 64 (loadWords block)
    rw [hlength] at hextend
    refine hextend (le_refl _) fun t ht => ?_
    rw [getD_loadWords h ht, schedule_of_lt ht]
  rw [compress, roundsLoop_eq hwords, standardCompress, List.range_eq_range']
  rfl

/-! ### The data of a message -/

/-- The state behind the whole blocks of a message. -/
def absorb (state : Words) (message : List UInt8) : Words :=
  (blockFraming.split message).1.foldl standardCompress state

theorem split_of_lt {l : List UInt8} (h : l.length < blockSize) : blockFraming.split l = ([], l) :=
  Framing.split_of_none (if_neg (by omega))

theorem split_of_le {l : List UInt8} (h : blockSize ≤ l.length) : blockFraming.split l =
    (l.take blockSize :: (blockFraming.split (l.drop blockSize)).1,
      (blockFraming.split (l.drop blockSize)).2) :=
  Framing.split_of_some (if_pos h)

theorem length_rest (message : List UInt8) : (blockFraming.split message).2.length < blockSize := by
  have h : (if blockSize ≤ (blockFraming.split message).2.length then some blockSize else none) = none :=
    @Framing.frame?_split _ blockFraming message
  by_contra hle
  rw [if_pos (by omega)] at h
  cases h

/-- More data only add blocks. -/
theorem absorb_append (state : Words) (message data : List UInt8) : absorb state (message ++ data)
    = absorb (absorb state message) ((blockFraming.split message).2 ++ data) := by
  rw [absorb, absorb, absorb, Framing.split_append, List.foldl_append]

/-- A whole block in front of some data. -/
theorem absorb_block (state : Words) {block : List UInt8} (h : block.length = blockSize)
    (data : List UInt8) : absorb state (block ++ data) = absorb (standardCompress state block) data := by
  rw [absorb, split_of_le (by rw [List.length_append]; omega), List.foldl_cons, List.take_left' h,
    List.drop_left' h, absorb]

/-- The context has absorbed the blocks of a message, and the bytes behind them wait in the buffer. -/
structure Absorbed (ctx : Context) (message : List UInt8) : Prop where
  state : ctx.state = absorb (init []).state message
  count : ctx.count = UInt64.ofNat (blockFraming.split message).1.length
  length : ctx.buffer.length = blockSize
  buffer : ctx.buffer.take ctx.fill = (blockFraming.split message).2
  fill : ctx.fill = (blockFraming.split message).2.length

theorem absorbed_init {buffer : List UInt8} (h : buffer.length = blockSize) : Absorbed (init buffer) [] := by
  have hsplit : blockFraming.split [] = ([], []) := split_of_lt (by decide)
  refine ⟨?_, ?_, h, ?_, ?_⟩
  · rw [absorb, hsplit]
    rfl
  · rw [hsplit]
    rfl
  · rw [hsplit]
    rfl
  · rw [hsplit]
    rfl

theorem add_ofNat (x : UInt64) (m n : ℕ) :
    x + UInt64.ofNat m + UInt64.ofNat n = x + UInt64.ofNat (m + n) := by
  rw [UInt64.add_assoc, ← UInt64.ofNat_add]

/-- **The loop over whole blocks.** -/
theorem blocksLoop_eq (data : List UInt8) (ctx : Context) : blocksLoop data ctx =
    ((blockFraming.split data).2, { ctx with
      state := absorb ctx.state data
      count := ctx.count + UInt64.ofNat (blockFraming.split data).1.length }) := by
  induction data, ctx using blocksLoop.induct with
  | case1 data ctx h ih =>
      have hblock : (data.take blockSize).length = blockSize := List.length_take_of_le h
      rw [blocksLoop, dif_pos h, ih]
      have hcut : absorb ctx.state data
          = absorb (standardCompress ctx.state (data.take blockSize)) (data.drop blockSize) := by
        rw [← absorb_block _ hblock, List.take_append_drop]
      rw [hcut, split_of_le h, Context.block, compress_eq _ hblock.ge]
      dsimp only
      rw [← UInt64.ofNat_one, add_ofNat, List.length_cons, Nat.add_comm 1]
  | case2 data ctx h =>
      rw [blocksLoop, dif_neg h, absorb, split_of_lt (by omega)]
      simp

/-- **The end of `sha512_add`**, behind whole blocks. -/
theorem absorbed_addBlocks {ctx : Context} {message : List UInt8}
    (hstate : ctx.state = absorb (init []).state message)
    (hcount : ctx.count = UInt64.ofNat (blockFraming.split message).1.length)
    (hlength : ctx.buffer.length = blockSize) (hwhole : (blockFraming.split message).2 = [])
    (data : List UInt8) : Absorbed (addBlocks data ctx) (message ++ data) := by
  have hsplit : blockFraming.split (message ++ data) = ((blockFraming.split message).1
      ++ (blockFraming.split data).1, (blockFraming.split data).2) := by
    rw [Framing.split_append, hwhole, List.nil_append]
  have hrest := length_rest data
  rw [addBlocks, blocksLoop_eq]
  refine ⟨?_, ?_, ?_, ?_, ?_⟩
  · rw [absorb_append, hwhole, List.nil_append, ← hstate]
  · rw [hsplit, List.length_append, UInt64.ofNat_add, ← hcount]
  · dsimp only
    rw [length_overwrite (by omega), hlength]
  · rw [hsplit]
    dsimp only
    rw [overwrite_zero, List.take_left]
  · rw [hsplit]

theorem overwrite_singleton {l : List UInt8} {i : ℕ} (h : i < l.length) (byte : UInt8) :
    l.set i byte = overwrite l i [byte] := by
  rw [List.set_eq_take_append_cons_drop, if_pos h, overwrite, List.append_assoc]
  rfl

/-- **The loop that fills the buffer up.** -/
theorem fillUp_eq (data : List UInt8) {ctx : Context} (hlength : ctx.buffer.length = blockSize)
    (hfill : ctx.fill ≤ blockSize) : fillUp data ctx =
      (data.drop (blockSize - ctx.fill), { ctx with
        buffer := overwrite ctx.buffer ctx.fill (data.take (blockSize - ctx.fill))
        fill := ctx.fill + (data.take (blockSize - ctx.fill)).length }) := by
  induction data generalizing ctx with
  | nil => simp [fillUp]
  | cons byte data ih =>
      by_cases h : ctx.fill < blockSize
      · obtain ⟨n, hn⟩ : ∃ n, blockSize - ctx.fill = n + 1 := ⟨blockSize - ctx.fill - 1, by omega⟩
        have hrest : blockSize - (ctx.fill + 1) = n := by omega
        rw [fillUp, if_pos h, ih (by rw [List.length_set, hlength]) (Nat.succ_le_of_lt h), hrest, hn,
          List.drop_succ_cons, List.take_succ_cons, overwrite_singleton (by omega),
          List.length_cons]
        have htwo := @overwrite_overwrite _ ctx.buffer [byte] (data.take n) ctx.fill (by omega)
        rw [List.length_singleton] at htwo
        rw [htwo, List.singleton_append, Nat.add_right_comm, Nat.add_assoc]
      · have hzero : blockSize - ctx.fill = 0 := by omega
        rw [fillUp, if_neg h, hzero, List.take_zero, List.drop_zero, overwrite_nil, List.length_nil,
          Nat.add_zero]

/-- **`sha512_add`** keeps what the context is, for data of any length. -/
theorem absorbed_add {ctx : Context} {message : List UInt8} (h : Absorbed ctx message)
    (data : List UInt8) : Absorbed (add data ctx) (message ++ data) := by
  obtain ⟨rest, hrest⟩ : ∃ rest, rest = (blockFraming.split message).2 := ⟨_, rfl⟩
  have hlt := length_rest message
  have hfill := h.fill
  have hbuffer := h.buffer
  have hlength := h.length
  rw [← hrest] at hlt hfill hbuffer
  by_cases hempty : 0 < ctx.fill
  · obtain ⟨front, hfront⟩ : ∃ front, front = data.take (blockSize - ctx.fill) := ⟨_, rfl⟩
    have hfrontLength : front.length = min (blockSize - ctx.fill) data.length := by
      rw [hfront, List.length_take]
    -- what is in the buffer then
    have htake : (overwrite ctx.buffer ctx.fill front).take (ctx.fill + front.length) = rest ++ front := by
      rw [overwrite, hbuffer]
      exact List.take_left' (by rw [List.length_append, hfill])
    rw [add, if_pos hempty, fillUp_eq data hlength (by omega), ← hfront]
    dsimp only
    by_cases hshort : ctx.fill + front.length < blockSize
    · rw [if_pos hshort]
      have hall : front = data := by
        rw [hfront]
        exact List.take_of_length_le (by omega)
      have hjoin : blockFraming.split (rest ++ data) = ([], rest ++ data) :=
        split_of_lt (by rw [List.length_append, ← hfill, ← hall]; exact hshort)
      have hsplit : blockFraming.split (message ++ data)
          = ((blockFraming.split message).1, rest ++ data) := by
        rw [Framing.split_append, ← hrest, hjoin, List.append_nil]
      refine ⟨?_, ?_, ?_, ?_, ?_⟩
      · rw [absorb, hsplit, h.state, absorb]
      · rw [hsplit, h.count]
      · dsimp only
        rw [length_overwrite (by omega), hlength]
      · rw [hsplit]
        dsimp only
        rw [htake, hall]
      · rw [hsplit]
        dsimp only
        rw [List.length_append, hfill, hall]
    · rw [if_neg hshort]
      have hfull : ctx.fill + front.length = blockSize := by omega
      have hblock : overwrite ctx.buffer ctx.fill front = rest ++ front := by
        rw [← htake, hfull, List.take_of_length_le (by rw [length_overwrite (by omega)]; omega)]
      have hblockLength : (rest ++ front).length = blockSize := by
        rw [List.length_append, ← hfill, hfull]
      have hjoin : blockFraming.split (rest ++ front) = ([rest ++ front], []) := by
        have hnil : blockFraming.split [] = ([], []) := split_of_lt (by decide)
        rw [split_of_le hblockLength.ge, List.take_of_length_le hblockLength.le,
          List.drop_of_length_le hblockLength.le, hnil]
      have hsplit : blockFraming.split (message ++ front)
          = ((blockFraming.split message).1 ++ [rest ++ front], []) := by
        rw [Framing.split_append, ← hrest, hjoin]
      have hdata : message ++ data = (message ++ front) ++ data.drop (blockSize - ctx.fill) := by
        rw [hfront, List.append_assoc, List.take_append_drop]
      rw [hblock, hdata]
      refine absorbed_addBlocks ?_ ?_ ?_ ?_ _
      · rw [absorb, hsplit, List.foldl_append, ← absorb, ← h.state, Context.block,
          compress_eq _ hblockLength.ge]
        rfl
      · rw [hsplit, List.length_append, UInt64.ofNat_add, ← h.count]
        rfl
      · exact hblockLength
      · rw [hsplit]
  · have hnil : rest = [] := List.eq_nil_of_length_eq_zero (by omega)
    rw [add, if_neg hempty]
    exact absorbed_addBlocks h.state h.count hlength (hrest.symm.trans hnil) data

/-- Data added in pieces. -/
theorem absorbed_foldl (pieces : List (List UInt8)) {ctx : Context} {message : List UInt8}
    (h : Absorbed ctx message) :
    Absorbed (pieces.foldl (fun ctx data => add data ctx) ctx) (message ++ pieces.flatten) := by
  induction pieces generalizing ctx message with
  | nil => rwa [List.flatten_nil, List.append_nil]
  | cons data pieces ih =>
      rw [List.flatten_cons, ← List.append_assoc]
      exact ih (absorbed_add h data)

/-! ### The end of a message -/

theorem toLe_add (v w n : ℕ) : toLe (v + w) n = toLe v n ++ toLe w (n / 256 ^ v) := by
  induction v generalizing n with
  | zero => rw [Nat.zero_add, toLe, List.nil_append, pow_zero, Nat.div_one]
  | succ v ih =>
      rw [Nat.add_right_comm, toLe, ih, toLe, List.cons_append, Nat.div_div_eq_div_mul, pow_succ,
        Nat.mul_comm 256]

theorem toLe_mod (w n : ℕ) : toLe w (n % 256 ^ w) = toLe w n := by
  induction w generalizing n with
  | zero => rfl
  | succ w ih =>
      have hhead : UInt8.ofNat (n % 256 ^ (w + 1)) = UInt8.ofNat n := by
        rw [← UInt8.toNat_inj, UInt8.toNat_ofNat', UInt8.toNat_ofNat']
        exact Nat.mod_mod_of_dvd n ⟨256 ^ w, Nat.pow_succ'⟩
      have htail : n % 256 ^ (w + 1) / 256 = n / 256 % 256 ^ w := by
        rw [Nat.pow_succ', Nat.mod_mul_right_div_self]
      rw [toLe, toLe, hhead, htail, ih]

/-- **The length of a message in bits**, as `sha512_final` computes it from the number of blocks and the
bytes behind them. -/
theorem storeBe64_length {blocks rest : ℕ} (hblocks : blocks < 2 ^ 64) (hrest : rest < 128) :
    storeBe64 (UInt64.ofNat blocks >>> 54)
        ++ storeBe64 ((UInt64.ofNat blocks <<< 7 ||| UInt64.ofNat rest) <<< 3)
      = (toLe 16 (8 * (128 * blocks + rest))).reverse := by
  have hcount : (UInt64.ofNat blocks).toNat = blocks := by
    rw [UInt64.toNat_ofNat', Nat.mod_eq_of_lt hblocks]
  have hhigh : (UInt64.ofNat blocks >>> 54).toNat = 8 * (128 * blocks + rest) / 256 ^ 8 := by
    rw [UInt64.toNat_shiftRight, hcount, Nat.shiftRight_eq_div_pow]
    change blocks / 2 ^ 54 = _
    omega
  have hshifted : (UInt64.ofNat blocks <<< 7).toNat = 2 ^ 7 * (blocks % 2 ^ 57) := by
    rw [UInt64.toNat_shiftLeft, hcount, Nat.shiftLeft_eq]
    change blocks * 2 ^ 7 % 2 ^ 64 = _
    omega
  have hbytes : (UInt64.ofNat blocks <<< 7 ||| UInt64.ofNat rest).toNat
      = 2 ^ 7 * (blocks % 2 ^ 57) + rest := by
    have hofNat : (UInt64.ofNat rest).toNat = rest := by
      rw [UInt64.toNat_ofNat', Nat.mod_eq_of_lt (by omega)]
    rw [UInt64.toNat_or, hshifted, hofNat, ← Nat.two_pow_add_eq_or_of_lt (by omega)]
  have hlow : ((UInt64.ofNat blocks <<< 7 ||| UInt64.ofNat rest) <<< 3).toNat
      = 8 * (128 * blocks + rest) % 256 ^ 8 := by
    rw [UInt64.toNat_shiftLeft, hbytes, Nat.shiftLeft_eq]
    change (2 ^ 7 * (blocks % 2 ^ 57) + rest) * 2 ^ 3 % 2 ^ 64 = _
    omega
  rw [storeBe64_eq, storeBe64_eq, hhigh, hlow, toLe_mod, toLe_add 8 8, List.reverse_append]

/-- The blocks of a message and the bytes behind them make its length. -/
theorem length_split (message : List UInt8) : message.length
    = 128 * (blockFraming.split message).1.length + (blockFraming.split message).2.length := by
  induction message using Framing.frame_induction (F := blockFraming) with
  | hnone l h => rw [Framing.split_of_none h, List.length_nil, Nat.mul_zero, Nat.zero_add]
  | hsome l n h ih =>
      have hn : (if blockSize ≤ l.length then some blockSize else none) = some n := h
      rw [Option.ite_none_right_eq_some, Option.some.injEq, blockSize] at hn
      rw [List.length_drop] at ih
      rw [Framing.split_of_some h, List.length_cons]
      dsimp only
      omega

theorem zeros_eq {n : ℕ} {ctx : Context} (h : ctx.fill + n ≤ ctx.buffer.length) : zeros n ctx =
    { ctx with
      buffer := overwrite ctx.buffer ctx.fill (List.replicate n 0)
      fill := ctx.fill + n } := by
  induction n generalizing ctx with
  | zero => rw [zeros, List.replicate_zero, overwrite_nil, Nat.add_zero]
  | succ n ih =>
      rw [zeros, ih (by
        rw [Context.push]
        dsimp only
        rw [List.length_set]
        omega), Context.push]
      dsimp only
      have htwo := @overwrite_overwrite UInt8 ctx.buffer [0] (List.replicate n 0) ctx.fill (by omega)
      rw [List.length_singleton] at htwo
      rw [overwrite_singleton (by omega), htwo, List.singleton_append, ← List.replicate_succ,
        Nat.add_assoc, Nat.add_comm 1]

/-- A write up to the end. -/
theorem overwrite_end {l new : List UInt8} {i : ℕ} (h : i + new.length = l.length) :
    overwrite l i new = l.take i ++ new := by
  rw [overwrite, h, List.drop_length, List.append_nil]

/-- The two words of the length behind what is filled up to them. -/
theorem overwrite_length {buffer front high low : List UInt8} {i : ℕ} (hlength : buffer.length = blockSize)
    (hfront : i + front.length = blockSize - 16) (hhigh : high.length = 8) (hlow : low.length = 8) :
    overwrite (overwrite (overwrite buffer i front) (blockSize - 16) high) (blockSize - 8) low
      = buffer.take i ++ (front ++ (high ++ low)) := by
  rw [blockSize] at hlength hfront ⊢
  have hhighEnd : 128 - 8 = i + (front ++ high).length := by
    rw [List.length_append]
    omega
  rw [← hfront, overwrite_overwrite (by omega), hhighEnd, overwrite_overwrite (by omega),
    overwrite_end (by simp only [List.length_append]; omega), List.append_assoc]

/-- The bytes of a state. -/
theorem bytes_eq (v : Words) : storeBe64 v.a ++ storeBe64 v.b ++ storeBe64 v.c ++ storeBe64 v.d
    ++ storeBe64 v.e ++ storeBe64 v.f ++ storeBe64 v.g ++ storeBe64 v.h = v.bytes := by
  simp only [storeBe64_eq, Words.bytes, List.flatMap_cons, List.flatMap_nil, List.append_nil,
    List.append_assoc]

/-- One bit behind the data, and zeros behind it. -/
theorem zeros_push {ctx : Context} {n : ℕ} (hlength : ctx.buffer.length = blockSize)
    (hn : ctx.fill + 1 + n ≤ blockSize) : zeros n (ctx.push 0x80) = { ctx with
      buffer := overwrite ctx.buffer ctx.fill (0x80 :: List.replicate n 0)
      fill := ctx.fill + 1 + n } := by
  have hpush : ctx.push 0x80 = { ctx with
      buffer := overwrite ctx.buffer ctx.fill [0x80], fill := ctx.fill + 1 } := by
    rw [Context.push, overwrite_singleton (by omega)]
  have htwo := @overwrite_overwrite UInt8 ctx.buffer [0x80] (List.replicate n 0) ctx.fill (by omega)
  rw [List.length_singleton, List.singleton_append] at htwo
  rw [hpush, zeros_eq (by
    dsimp only
    rw [length_overwrite (by rw [List.length_singleton]; omega)]
    omega)]
  dsimp only
  rw [htwo]

/-- The length fits behind the data. -/
theorem final_of_le {ctx : Context} (hlength : ctx.buffer.length = blockSize)
    (hfill : ctx.fill + 1 ≤ blockSize - 16) : final ctx
      = (compress ctx.state (ctx.buffer.take ctx.fill
          ++ (0x80 :: List.replicate (111 - ctx.fill) (0 : UInt8) ++ (storeBe64 (ctx.count >>> 54)
            ++ storeBe64 ((ctx.count <<< 7 ||| UInt64.ofNat ctx.fill) <<< 3))))).bytes := by
  rw [blockSize] at hfill
  have hnot : ¬ blockSize - 16 < (ctx.push 0x80).fill := by
    rw [Context.push, blockSize]
    dsimp only
    omega
  have hzeros : blockSize - 16 - (ctx.push 0x80).fill = 111 - ctx.fill := by
    rw [Context.push, blockSize]
    dsimp only
    omega
  simp only [final]
  rw [if_neg hnot, hzeros, zeros_push hlength (by rw [blockSize]; omega), bytes_eq]
  dsimp only
  rw [overwrite_length hlength (by
    rw [List.length_cons, List.length_replicate, blockSize]
    omega) rfl rfl]

/-- The length does not fit behind the data. -/
theorem final_of_lt {ctx : Context} (hlength : ctx.buffer.length = blockSize)
    (hfill : blockSize - 16 < ctx.fill + 1) (hlt : ctx.fill < blockSize) : final ctx
      = (compress (compress ctx.state (ctx.buffer.take ctx.fill
          ++ (0x80 :: List.replicate (127 - ctx.fill) 0)))
        (List.replicate 112 (0 : UInt8) ++ (storeBe64 (ctx.count >>> 54)
          ++ storeBe64 ((ctx.count <<< 7 ||| UInt64.ofNat ctx.fill) <<< 3)))).bytes := by
  have hblock : (overwrite ctx.buffer ctx.fill (0x80 :: List.replicate (127 - ctx.fill) 0)).length
      = blockSize := by
    rw [blockSize] at hlength hlt
    rw [length_overwrite (by rw [List.length_cons, List.length_replicate]; omega), hlength, blockSize]
  have hend : overwrite ctx.buffer ctx.fill (0x80 :: List.replicate (127 - ctx.fill) 0)
      = ctx.buffer.take ctx.fill ++ (0x80 :: List.replicate (127 - ctx.fill) 0) := by
    rw [blockSize] at hlength hlt
    exact overwrite_end (by rw [List.length_cons, List.length_replicate]; omega)
  have hzeros : blockSize - (ctx.push 0x80).fill = 127 - ctx.fill := by
    rw [Context.push, blockSize]
    dsimp only
    omega
  simp only [final]
  rw [if_pos (show blockSize - 16 < (ctx.push 0x80).fill from hfill), hzeros,
    zeros_push hlength (by rw [blockSize] at hlt ⊢; omega), bytes_eq]
  dsimp only
  rw [zeros_eq (by dsimp only; rw [hblock]; decide)]
  dsimp only
  rw [overwrite_length hblock (by rw [List.length_replicate]; rfl) rfl rfl, List.take_zero,
    List.nil_append, hend]
  rfl

/-- **`sha512_final`** gives the hash of the message. -/
theorem final_eq {ctx : Context} {message : List UInt8} (h : Absorbed ctx message)
    (hmessage : message.length < 2 ^ 71) : final ctx = standardHash message := by
  obtain ⟨rest, hrest⟩ : ∃ rest, rest = (blockFraming.split message).2 := ⟨_, rfl⟩
  obtain ⟨blocks, hblocks⟩ : ∃ blocks, blocks = (blockFraming.split message).1.length := ⟨_, rfl⟩
  have hlt := length_rest message
  have hlen := length_split message
  have hfill := h.fill
  have hbuffer := h.buffer
  have hlength := h.length
  have hcount := h.count
  rw [← hrest, ← hblocks] at hlen
  rw [← hrest, blockSize] at hlt
  rw [← hrest] at hfill hbuffer
  rw [← hblocks] at hcount
  obtain ⟨high, hhigh⟩ : ∃ high, high = storeBe64 (ctx.count >>> 54) := ⟨_, rfl⟩
  obtain ⟨low, hlow⟩ : ∃ low, low = storeBe64 ((ctx.count <<< 7 ||| UInt64.ofNat ctx.fill) <<< 3) :=
    ⟨_, rfl⟩
  have hhighLength : high.length = 8 := by
    rw [hhigh]
    rfl
  have hlowLength : low.length = 8 := by
    rw [hlow]
    rfl
  have hbits : high ++ low = (toLe 16 (8 * message.length)).reverse := by
    rw [hhigh, hlow, hcount, hfill, hlen]
    exact storeBe64_length (by omega) hlt
  have hhash : standardHash message
      = (absorb ctx.state (rest ++ (0x80 :: List.replicate ((239 - message.length % 128) % 128) 0
        ++ (high ++ low)))).bytes := by
    rw [standardHash, ← absorb, padded, absorb_append, ← hrest, ← h.state, hbits]
  have hmod : message.length % 128 = rest.length := by omega
  have hnil : ∀ state, absorb state [] = state := by
    intro state
    rw [absorb, split_of_lt (by decide)]
    rfl
  rw [hhash, hmod]
  by_cases hfits : ctx.fill + 1 ≤ blockSize - 16
  · have hzeros : (239 - rest.length) % 128 = 111 - ctx.fill := by
      rw [blockSize] at hfits
      omega
    have hblock : (rest ++ (0x80 :: List.replicate (111 - ctx.fill) 0 ++ (high ++ low))).length
        = blockSize := by
      rw [blockSize] at hfits ⊢
      simp only [List.length_append, List.length_cons, List.length_replicate, hhighLength, hlowLength]
      omega
    have hwhole := absorb_block ctx.state hblock []
    rw [List.append_nil, hnil] at hwhole
    rw [final_of_le hlength hfits, ← hhigh, ← hlow, hbuffer, hzeros, hwhole,
      compress_eq _ hblock.ge]
  · have hzeros : (239 - rest.length) % 128 = (127 - ctx.fill) + 112 := by
      rw [blockSize] at hfits
      omega
    have hfirst : (rest ++ (0x80 :: List.replicate (127 - ctx.fill) 0)).length = blockSize := by
      rw [blockSize]
      simp only [List.length_append, List.length_cons, List.length_replicate]
      omega
    have hsecond : (List.replicate 112 0 ++ (high ++ low)).length = blockSize := by
      rw [blockSize]
      simp only [List.length_append, List.length_replicate, hhighLength, hlowLength]
    have hcut : rest ++ (0x80 :: List.replicate ((127 - ctx.fill) + 112) 0 ++ (high ++ low))
        = (rest ++ (0x80 :: List.replicate (127 - ctx.fill) 0))
          ++ ((List.replicate 112 0 ++ (high ++ low)) ++ []) := by
      rw [List.replicate_add]
      simp only [List.append_assoc, List.cons_append, List.append_nil]
    rw [final_of_lt hlength (by omega) (by rw [blockSize]; omega), ← hhigh, ← hlow, hbuffer, hzeros,
      hcut, absorb_block _ hfirst, absorb_block _ hsecond, hnil, compress_eq _ hfirst.ge,
      compress_eq _ hsecond.ge]

/-- **The hash of a message** is that of the standard, however the message is cut into pieces, and
whatever was in the buffer. -/
theorem hash_standard {buffer : List UInt8} {pieces : List (List UInt8)}
    (hbuffer : buffer.length = blockSize) (hlength : pieces.flatten.length < 2 ^ 71) :
    hash buffer pieces = standardHash pieces.flatten :=
  final_eq (absorbed_foldl pieces (absorbed_init hbuffer)) hlength

theorem hash_standard_three :
    hash (List.replicate 128 7) [[97, 98], [], [99]] = standardHash [[97, 98], [], [99]].flatten :=
  hash_standard List.length_replicate (by decide)

end Sha512

end ScApi
