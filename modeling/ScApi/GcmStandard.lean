import ScApi.Ghash

/-!
# What an encryption computes

A key that `SC_API_gcm_setkey` expands multiplies by the block that its cipher makes of zeros. With such
a key, encrypting and decrypting add the cipher's output for successive counters, and the tag is the
cipher's output for the first counter, plus a polynomial in the key: the additional data and the
encrypted data, each filled up to whole blocks, and their lengths in bits.

The loops of the code take the last block as it is, without filling it up, and leave out the
multiplication with the block of the lengths where both are zero.

## Main results

* `element_absorbLoop`: the loop over the additional data.
* `updateLoop_eq`: the loop over the data, in both directions.
* `cryptAndTag_eq`: the output and the tag.
-/

open Bytes BinaryPolynomial

namespace ScApi

namespace Gcm

/-- The key that `SC_API_gcm_setkey` makes of the cipher for it. -/
def Key.ofCipher (cipher : List UInt8 → List UInt8) (length_cipher : ∀ block, (cipher block).length = 16) :
    Key where
  cipher
  mult := gcmMult (setkey (cipher (List.replicate 16 0)))
  length_cipher

/-- Data filled up to whole blocks. -/
def padded (data : List UInt8) : List UInt8 :=
  data ++ List.replicate ((16 - data.length % 16) % 16) 0

/-- The lengths in bits. -/
def lengthBlock (add data : List UInt8) : List UInt8 :=
  (toLe 8 (8 * add.length)).reverse ++ (toLe 8 (8 * data.length)).reverse

/-- The cipher's output for `n` counters from `c` on. -/
def keystream (key : Key) (iv : List UInt8) (c n : ℕ) : List UInt8 :=
  (List.range n).flatMap fun i => key.cipher (iv ++ beBytes (c + i))

/-- The data that are encrypted, of the input and the output. -/
def Mode.encrypted (mode : Mode) (input output : List UInt8) : List UInt8 :=
  match mode with
  | .encrypt => output
  | .decrypt => input

/-- The polynomial in the key that `n` blocks of some data are added to. -/
noncomputable def ghashFrom (key : AdjoinRoot gcmPolynomial) :
    ℕ → AdjoinRoot gcmPolynomial → List UInt8 → AdjoinRoot gcmPolynomial
  | 0, s, _ => s
  | n + 1, s, data => ghashFrom key n ((s + element (data.take 16)) * key) (data.drop 16)

/-- The polynomial in the key whose coefficients are the blocks of some data. -/
noncomputable def ghash (key : AdjoinRoot gcmPolynomial) (data : List UInt8) : AdjoinRoot gcmPolynomial :=
  ghashFrom key (data.length / 16) 0 data

/-! ### Blocks -/

theorem ofBytes_replicate (n : ℕ) : element (List.replicate n 0) = 0 := by
  induction n with
  | zero => rfl
  | succ n ih =>
      rw [element] at ih ⊢
      rw [List.replicate_succ, ofBytes, ih, mul_zero, add_zero]
      exact reflected_zero 8

/-- Zeros behind some data do not change its polynomial. -/
theorem element_append_replicate (data : List UInt8) (n : ℕ) :
    element (data ++ List.replicate n 0) = element data := by
  rw [element, ofBytes_append]
  have hzero := ofBytes_replicate n
  rw [element] at hzero
  rw [hzero, mul_zero, add_zero]
  rfl

theorem ofBytes_zipWith {a b : List UInt8} (h : a.length = b.length) :
    element (xor a b) = element a + element b := by
  induction a generalizing b with
  | nil =>
      obtain rfl := List.eq_nil_of_length_eq_zero h.symm
      exact (add_zero _).symm
  | cons u a ih =>
      cases b with
      | nil => cases h
      | cons v b =>
          have htail := ih (Nat.succ.inj h)
          rw [element, element, element] at htail ⊢
          rw [xor] at htail ⊢
          rw [List.zipWith_cons_cons, ofBytes, ofBytes, ofBytes, htail, UInt8.toNat_xor, reflected_xor]
          ring

/-- **Bytes combined into a block** are added to it. -/
theorem element_xorInto {buf bytes : List UInt8} (h : bytes.length ≤ buf.length) :
    element (xorInto buf bytes) = element buf + element bytes := by
  have htake : (buf.take bytes.length).length = bytes.length := List.length_take_of_le h
  have hlen : (xor (buf.take bytes.length) bytes).length = bytes.length := length_xor htake.ge
  have hsum := ofBytes_zipWith htake
  conv_rhs => rw [← List.take_append_drop bytes.length buf]
  rw [element, element, element] at hsum
  rw [xorInto, element, element, element, ofBytes_append, ofBytes_append, hsum, hlen, htake]
  ring

theorem element_take_padded {data : List UInt8} : element ((padded data).take 16) = element (data.take 16) := by
  rw [padded, List.take_append, List.take_replicate, element_append_replicate]

theorem padded_drop {data : List UInt8} (h : data ≠ []) :
    (padded data).drop 16 = padded (data.drop 16) := by
  have hpos : 0 < data.length := List.length_pos_of_ne_nil h
  rw [padded, padded, List.drop_append, List.drop_replicate, List.length_drop]
  congr 2
  omega

theorem length_padded (data : List UInt8) : 16 ∣ (padded data).length := by
  rw [padded, List.length_append, List.length_replicate]
  omega

/-- The blocks of data that are not empty are one more than those behind the first block. -/
theorem blocks_padded {data : List UInt8} (h : data ≠ []) :
    (padded data).length / 16 = (padded (data.drop 16)).length / 16 + 1 := by
  have hpos : 0 < data.length := List.length_pos_of_ne_nil h
  rw [← padded_drop h, List.length_drop, padded, List.length_append, List.length_replicate]
  omega

theorem ghashFrom_nil (key s : AdjoinRoot gcmPolynomial) :
    ghashFrom key ((padded []).length / 16) s (padded []) = s := rfl

theorem ghashFrom_padded (key s : AdjoinRoot gcmPolynomial) {data : List UInt8} (h : data ≠ []) :
    ghashFrom key ((padded data).length / 16) s (padded data)
      = ghashFrom key ((padded (data.drop 16)).length / 16) ((s + element (data.take 16)) * key)
          (padded (data.drop 16)) := by
  rw [blocks_padded h, ghashFrom, element_take_padded, padded_drop h]

/-- **Data one after another.** -/
theorem ghashFrom_append (key : AdjoinRoot gcmPolynomial) {n : ℕ} (m : ℕ) (s : AdjoinRoot gcmPolynomial)
    {data : List UInt8} (h : data.length = 16 * n) (rest : List UInt8) :
    ghashFrom key (n + m) s (data ++ rest) = ghashFrom key m (ghashFrom key n s data) rest := by
  induction n generalizing s data with
  | zero =>
      obtain rfl := List.eq_nil_of_length_eq_zero h
      rw [Nat.zero_add, ghashFrom, List.nil_append]
  | succ n ih =>
      have hlong : 16 ≤ data.length := by omega
      have hdrop : (data.drop 16).length = 16 * n := by
        rw [List.length_drop]
        omega
      rw [Nat.add_right_comm, ghashFrom, ghashFrom, List.take_append_of_le_length hlong,
        List.drop_append_of_le_length hlong, ih _ hdrop]

/-! ### The loops -/

section

variable {cipher : List UInt8 → List UInt8} {length_cipher : ∀ block, (cipher block).length = 16}

/-- The multiplication with a key that was expanded. -/
theorem element_mult {block : List UInt8} (h : block.length = 16) :
    element ((Key.ofCipher cipher length_cipher).mult block)
      = element block * element (cipher (List.replicate 16 0)) :=
  element_gcmMult (length_cipher _) h

variable (cipher length_cipher) in
theorem length_mult (block : List UInt8) :
    ((Key.ofCipher cipher length_cipher).mult block).length = 16 :=
  length_gcmMult _ _

/-- **The loop over the additional data.** -/
theorem element_absorbLoop (n : ℕ) {buf add : List UInt8} (hn : add.length ≤ n) (hbuf : buf.length = 16) :
    (absorbLoop (Key.ofCipher cipher length_cipher) n buf add).length = 16 ∧
      element (absorbLoop (Key.ofCipher cipher length_cipher) n buf add)
        = ghashFrom (element (cipher (List.replicate 16 0))) ((padded add).length / 16) (element buf)
            (padded add) := by
  induction n generalizing buf add with
  | zero =>
      obtain rfl := List.eq_nil_of_length_eq_zero (Nat.le_zero.mp hn)
      exact ⟨hbuf, rfl⟩
  | succ n ih =>
      rw [absorbLoop]
      split_ifs with hnil
      · rw [hnil]
        exact ⟨hbuf, rfl⟩
      · have hpos : 0 < add.length := List.length_pos_of_ne_nil hnil
        have hchunk : (add.take 16).length ≤ buf.length := by
          rw [hbuf, List.length_take]
          exact Nat.min_le_left _ _
        have hmixed : (xorInto buf (add.take 16)).length = 16 := (length_xorInto hchunk).trans hbuf
        have hdrop : (add.drop 16).length ≤ n := by
          rw [List.length_drop]
          omega
        obtain ⟨hlen, hloop⟩ := ih hdrop
          (length_mult cipher length_cipher (xorInto buf (add.take 16)))
        refine ⟨hlen, ?_⟩
        rw [hloop, element_mult hmixed, element_xorInto hchunk, ghashFrom_padded _ _ hnil]

/-- The counter is the last word of a block. -/
theorem nextCounter_append {iv : List UInt8} (hiv : iv.length = 12) (c : ℕ) :
    nextCounter (iv ++ beBytes c) = iv ++ beBytes (c + 1) := by
  rw [nextCounter, List.take_left' hiv, List.drop_left' hiv, beBytes, List.reverse_reverse,
    Counter.increment_toLe, beBytes]

theorem keystream_succ (key : Key) (iv : List UInt8) (c n : ℕ) :
    keystream key iv c (n + 1) = key.cipher (iv ++ beBytes c) ++ keystream key iv (c + 1) n := by
  rw [keystream, List.range_succ_eq_map, List.flatMap_cons, List.flatMap_map, Nat.add_zero, keystream]
  simp only [Nat.succ_eq_add_one, Nat.add_assoc, Nat.add_comm 1]

/-- The exclusive or with bytes in two parts. -/
theorem xor_append (a b l : List UInt8) : xor (a ++ b) l = xor a (l.take a.length) ++ xor b (l.drop a.length) := by
  induction a generalizing l with
  | nil => rfl
  | cons u a ih =>
      cases l with
      | nil => simp [xor]
      | cons v l =>
          have htail := ih l
          simp only [xor] at htail ⊢
          rw [List.cons_append, List.zipWith_cons_cons, htail, List.length_cons, List.take_succ_cons,
            List.zipWith_cons_cons, List.drop_succ_cons, List.cons_append]

/-- The state that the loop over some data ends in. -/
structure Updated (mode : Mode) (iv : List UInt8) (c n : ℕ) (ctx : Context) (input : List UInt8)
    (r : List UInt8 × Context) : Prop where
  output : r.1 = xor (keystream ctx.key iv c n) input
  key : r.2.key = ctx.key
  len : r.2.len = ctx.len
  addLen : r.2.addLen = ctx.addLen
  baseEctr : r.2.baseEctr = ctx.baseEctr
  length_buf : r.2.buf.length = 16
  buf : element r.2.buf
    = ghashFrom (element (ctx.key.cipher (List.replicate 16 0)))
        ((padded (mode.encrypted input r.1)).length / 16) (element ctx.buf)
        (padded (mode.encrypted input r.1))

theorem updated_nil {mode : Mode} {iv : List UInt8} {c : ℕ} {ctx : Context} (hbuf : ctx.buf.length = 16)
    {input : List UInt8} (h : input = []) :
    Updated mode iv c ((input.length + 15) / 16) ctx input ([], ctx) := by
  subst h
  refine ⟨rfl, rfl, rfl, rfl, rfl, hbuf, ?_⟩
  have hnone : mode.encrypted [] [] = [] := by
    cases mode <;> rfl
  dsimp only
  rw [hnone, ghashFrom_nil]

theorem length_encrypted {mode : Mode} {input output : List UInt8} (h : output.length = input.length) :
    (mode.encrypted input output).length = input.length := by
  cases mode with
  | encrypt => exact h
  | decrypt => rfl

/-- The data that are encrypted, in their first block and those behind it. -/
theorem encrypted_cut (mode : Mode) {input output rest : List UInt8}
    (houtput : output.length = (input.take 16).length) (hrest : rest.length = (input.drop 16).length) :
    (mode.encrypted input (output ++ rest)).take 16 = mode.encrypted (input.take 16) output ∧
      (mode.encrypted input (output ++ rest)).drop 16 = mode.encrypted (input.drop 16) rest := by
  cases mode with
  | decrypt => exact ⟨rfl, rfl⟩
  | encrypt =>
      rw [List.length_take] at houtput
      rw [List.length_drop] at hrest
      rcases Nat.lt_or_ge input.length 16 with hshort | hlong
      · obtain rfl := List.eq_nil_of_length_eq_zero (show rest.length = 0 by omega)
        rw [Mode.encrypted, List.append_nil]
        exact ⟨List.take_of_length_le (by omega), List.drop_of_length_le (by omega)⟩
      · have hsixteen : output.length = 16 := by omega
        exact ⟨List.take_left' hsixteen, List.drop_left' hsixteen⟩

/-- **The loop over the data.** -/
theorem updateLoop_eq (n : ℕ) {iv : List UInt8} (hiv : iv.length = 12) (c : ℕ) {ctx : Context}
    (hkey : ctx.key = Key.ofCipher cipher length_cipher) (hy : ctx.y = iv ++ beBytes c)
    (hbuf : ctx.buf.length = 16) {input : List UInt8} (hn : input.length ≤ n) :
    Updated ctx.mode iv (c + 1) ((input.length + 15) / 16) ctx input (updateLoop n ctx input) := by
  induction n generalizing c ctx input with
  | zero => exact updated_nil hbuf (List.eq_nil_of_length_eq_zero (Nat.le_zero.mp hn))
  | succ n ih =>
      rw [updateLoop]
      split_ifs with hnil
      · exact updated_nil hbuf hnil
      have hpos : 0 < input.length := List.length_pos_of_ne_nil hnil
      obtain ⟨output, houtput⟩ : ∃ output, output = xor (ctx.key.cipher (nextCounter ctx.y)) (input.take 16) :=
        ⟨_, rfl⟩
      obtain ⟨next, hnext⟩ : ∃ next : Context, next = { ctx with
        y := nextCounter ctx.y
        buf := ctx.key.mult (xorInto ctx.buf (ctx.mode.encrypted (input.take 16) output)) } := ⟨_, rfl⟩
      obtain ⟨r, hr⟩ : ∃ r, r = updateLoop n next (input.drop 16) := ⟨_, rfl⟩
      have hdrop : (input.drop 16).length ≤ n := by
        rw [List.length_drop]
        omega
      have hstep : Updated next.mode iv (c + 1 + 1) (((input.drop 16).length + 15) / 16) next
          (input.drop 16) r := by
        rw [hr]
        refine ih (c + 1) ?_ ?_ ?_ hdrop
        · rw [hnext]
          exact hkey
        · rw [hnext, ← nextCounter_append hiv, ← hy]
        · rw [hnext, hkey]
          exact length_mult cipher length_cipher _
      have hrest : r.1.length = (input.drop 16).length := hr ▸ length_updateLoop n next hdrop
      have hlength : output.length = (input.take 16).length :=
        houtput ▸ length_xor (length_take_le_cipher _ _ _)
      have hgoal : Updated ctx.mode iv (c + 1) ((input.length + 15) / 16) ctx input
          (output ++ r.1, r.2) := by
        have hmode : next.mode = ctx.mode := hnext ▸ rfl
        have hnextKey : next.key = ctx.key := hnext ▸ rfl
        obtain ⟨htake, hcut⟩ := encrypted_cut ctx.mode hlength hrest
        rw [hmode] at hstep
        refine ⟨?_, hstep.key.trans hnextKey, hstep.len.trans (hnext ▸ rfl),
          hstep.addLen.trans (hnext ▸ rfl), hstep.baseEctr.trans (hnext ▸ rfl), hstep.length_buf, ?_⟩
        · have hblocks : (input.length + 15) / 16 = ((input.drop 16).length + 15) / 16 + 1 := by
            rw [List.length_drop]
            omega
          have hcipher : (ctx.key.cipher (iv ++ beBytes (c + 1))).length = 16 := ctx.key.length_cipher _
          dsimp only
          rw [hblocks, keystream_succ, xor_append, hcipher, hstep.output, hnextKey, houtput, hy,
            nextCounter_append hiv]
        · have hne : ctx.mode.encrypted input (output ++ r.1) ≠ [] := fun hempty => by
            rw [hempty, List.take_nil] at htake
            have hzero := congrArg List.length htake
            rw [List.length_nil, length_encrypted hlength, List.length_take] at hzero
            omega
          have hchunk : (ctx.mode.encrypted (input.take 16) output).length ≤ ctx.buf.length := by
            rw [length_encrypted hlength, hbuf, List.length_take]
            exact Nat.min_le_left _ _
          have hmixed := (length_xorInto hchunk).trans hbuf
          have hbuf' : element next.buf
              = (element ctx.buf + element (ctx.mode.encrypted (input.take 16) output))
                * element (ctx.key.cipher (List.replicate 16 0)) := by
            rw [hnext, hkey, element_mult hmixed, element_xorInto hchunk]
            rfl
          dsimp only
          rw [ghashFrom_padded _ _ hne, htake, hcut, hstep.buf, hnextKey, hbuf']
      rw [hr, hnext, houtput] at hgoal
      exact hgoal

/-! ### The tag -/

/-- A number of 64 bits, in two words. -/
theorem toLe_eight (n : ℕ) : (toLe 8 n).reverse = beBytes (n / 4294967296) ++ beBytes n := by
  simp [beBytes, toLe, Nat.div_div_eq_div_mul]

theorem length_lengthBlock (add data : List UInt8) : (lengthBlock add data).length = 16 := by
  rw [lengthBlock, List.length_append, List.length_reverse, List.length_reverse, length_toLe, length_toLe]

/-- The last block of the data that the tag is made of. -/
theorem ghash_lengths (key : AdjoinRoot gcmPolynomial) (add data lengths : List UInt8)
    (h : lengths.length = 16) :
    ghash key (padded add ++ padded data ++ lengths)
      = (ghashFrom key ((padded data).length / 16)
          (ghashFrom key ((padded add).length / 16) 0 (padded add)) (padded data) + element lengths) * key := by
  have hadd := Nat.mul_div_cancel' (length_padded add)
  have hdata := Nat.mul_div_cancel' (length_padded data)
  have hblocks : (padded add ++ padded data ++ lengths).length / 16
      = (padded add).length / 16 + ((padded data).length / 16 + 1) := by
    rw [List.length_append, List.length_append, h]
    omega
  rw [ghash, hblocks, List.append_assoc, ghashFrom_append key _ 0 hadd.symm,
    ghashFrom_append key 1 _ hdata.symm, ghashFrom, ghashFrom, List.take_of_length_le h.le]

theorem xor_replicate {a : List UInt8} {n : ℕ} (h : a.length ≤ n) : xor a (List.replicate n 0) = a := by
  induction a generalizing n with
  | nil => rfl
  | cons u a ih =>
      cases n with
      | zero => cases h
      | succ n =>
          have htail := ih (Nat.le_of_succ_le_succ h)
          rw [xor] at htail ⊢
          rw [List.replicate_succ, List.zipWith_cons_cons, htail, UInt8.xor_zero]

theorem xorInto_take {a b : List UInt8} {n : ℕ} (hn : n ≤ 16) (ha : a.length = 16) (hb : b.length = 16) :
    xorInto (a.take n) (b.take n) = (xor a b).take n := by
  have hlen : ∀ l : List UInt8, l.length = 16 → (l.take n).length = n := fun l hl =>
    List.length_take_of_le (hl ▸ hn)
  rw [xorInto, hlen b hb, List.take_take, Nat.min_self, List.drop_of_length_le (hlen a ha).le,
    List.append_nil, xor, xor, List.take_zipWith]

/-- **The tag** of a context after all its data. -/
theorem finish_eq {ctx : Context} (hkey : ctx.key = Key.ofCipher cipher length_cipher)
    (hbuf : ctx.buf.length = 16) (hctr : ctx.baseEctr.length = 16) {add data : List UInt8}
    (hadd : ctx.addLen = add.length) (hdata : ctx.len = data.length) (haddLt : add.length < 2 ^ 29)
    (hdataLt : data.length < 2 ^ 29)
    (hzero : add = [] → data = [] → element ctx.buf = 0) {tagLen : ℕ} (htag : tagLen ≤ 16) :
    ∃ s : List UInt8, s.length = 16 ∧
      element s = (element ctx.buf + element (lengthBlock add data)) * element (cipher (List.replicate 16 0)) ∧
      finish ctx tagLen = (xor ctx.baseEctr s).take tagLen := by
  -- the products are within their 32 bits
  have hbits : ∀ n < 2 ^ 29, n * 8 % 4294967296 = 8 * n := fun n hn => by omega
  rw [finish, hadd, hdata, hbits _ haddLt, hbits _ hdataLt]
  split_ifs with hlen
  · obtain ⟨s, hs⟩ : ∃ s, s = ctx.key.mult (xor ctx.buf (lengthBlock add data)) := ⟨_, rfl⟩
    have hblock := length_lengthBlock add data
    have hmixed : (xor ctx.buf (lengthBlock add data)).length = 16 :=
      (length_xor (by rw [hbuf, hblock])).trans hblock
    have hwork : beBytes (8 * add.length / 4294967296) ++ beBytes (8 * add.length)
        ++ beBytes (8 * data.length / 4294967296) ++ beBytes (8 * data.length)
        = lengthBlock add data := by
      rw [lengthBlock, toLe_eight, toLe_eight, List.append_assoc (_ ++ _)]
    have hslen : s.length = 16 := by
      rw [hs, hkey]
      exact length_mult cipher length_cipher _
    refine ⟨s, hslen, ?_, ?_⟩
    · rw [hs, hkey, element_mult hmixed, ofBytes_zipWith (hbuf.trans hblock.symm)]
    · rw [hwork]
      dsimp only
      rw [← hs, xorInto_take htag hctr hslen]
  · -- without any data the product with the block of the lengths is left out
    have hnone : add = [] ∧ data = [] := by
      constructor <;> refine List.eq_nil_of_length_eq_zero ?_ <;> omega
    obtain ⟨rfl, rfl⟩ := hnone
    refine ⟨List.replicate 16 0, List.length_replicate, ?_, ?_⟩
    · have hlengths : element (lengthBlock [] []) = 0 := ofBytes_replicate 16
      rw [ofBytes_replicate, hzero rfl rfl, hlengths, add_zero, zero_mul]
    · rw [xor_replicate hctr.le]

/-- **What an encryption computes**, or a decryption. -/
theorem cryptAndTag_eq {ctx : Context} (hkey : ctx.key = Key.ofCipher cipher length_cipher) (mode : Mode)
    {iv add input : List UInt8} (hiv : iv.length = 12) (hadd : add.length < 2 ^ 29)
    (hinput : input.length < 2 ^ 29) {tagLen : ℕ} (htag : tagLen ≤ 16) :
    ∃ s : List UInt8, s.length = 16 ∧
      (cryptAndTag ctx mode iv add input tagLen).1
        = xor (keystream ctx.key iv 2 ((input.length + 15) / 16)) input ∧
      element s = ghash (element (cipher (List.replicate 16 0)))
        (padded add ++ padded (mode.encrypted input (cryptAndTag ctx mode iv add input tagLen).1)
          ++ lengthBlock add input) ∧
      (cryptAndTag ctx mode iv add input tagLen).2
        = (xor (cipher (iv ++ beBytes 1)) s).take tagLen := by
  obtain ⟨begun, hbegun⟩ : ∃ begun : Context, begun = { start ctx mode iv add with
    len := ((start ctx mode iv add).len + input.length) % 4294967296 } := ⟨_, rfl⟩
  have hbegunKey : begun.key = ctx.key := hbegun ▸ rfl
  have habsorb := @element_absorbLoop cipher length_cipher add.length (List.replicate 16 0) add le_rfl
    List.length_replicate
  have hbuf : begun.buf = absorbLoop ctx.key add.length (List.replicate 16 0) add := hbegun ▸ rfl
  rw [← hkey, ← hbuf, ofBytes_replicate] at habsorb
  have hy : begun.y = iv ++ beBytes 1 := hbegun ▸ rfl
  have hloop := updateLoop_eq input.length hiv 1 (hbegunKey.trans hkey) hy habsorb.1 (le_refl input.length)
  obtain ⟨r, hr⟩ : ∃ r, r = updateLoop input.length begun input := ⟨_, rfl⟩
  have hmode : begun.mode = mode := hbegun ▸ rfl
  rw [← hr, hmode] at hloop
  have hresult : cryptAndTag ctx mode iv add input tagLen = (r.1, finish r.2 tagLen) := by
    rw [hr, hbegun]
    rfl
  have hlen : r.1.length = input.length := hr ▸ length_updateLoop _ _ le_rfl
  have hencrypted : (mode.encrypted input r.1).length = input.length := length_encrypted hlen
  have hbase : r.2.baseEctr = cipher (iv ++ beBytes 1) := by
    rw [hloop.baseEctr, hbegun]
    change ctx.key.cipher (iv ++ beBytes 1) = _
    rw [hkey]
    rfl
  have hctr : r.2.baseEctr.length = 16 := by
    rw [hbase]
    exact length_cipher _
  have haddLen : r.2.addLen = add.length := by
    rw [hloop.addLen, hbegun]
    exact Nat.mod_eq_of_lt (hadd.trans (by decide))
  have hdataLen : r.2.len = input.length := by
    rw [hloop.len, hbegun]
    refine (Nat.mod_eq_of_lt ?_).trans (Nat.zero_add _)
    exact (Nat.zero_add _).trans_lt (hinput.trans (by decide))
  have hbufs := hloop.buf
  rw [habsorb.2, hbegunKey, hkey] at hbufs
  have hzero : add = [] → input = [] → element r.2.buf = 0 := fun haddNil hinputNil => by
    have hnone : mode.encrypted input r.1 = [] :=
      List.eq_nil_of_length_eq_zero (hencrypted.trans (hinputNil ▸ rfl))
    rw [hbufs, haddNil, hnone, ghashFrom_nil, ghashFrom_nil]
  obtain ⟨s, hslen, hs, htagged⟩ := finish_eq ((hloop.key.trans hbegunKey).trans hkey) hloop.length_buf
    hctr haddLen hdataLen hadd hinput hzero htag
  refine ⟨s, hslen, ?_, ?_, ?_⟩
  · rw [hresult, hloop.output, hbegunKey]
  · rw [hs, ghash_lengths _ _ _ _ (length_lengthBlock add input), hbufs, hresult]
    rfl
  · rw [hresult, htagged, hbase]

theorem cryptAndTag_eq_rotated :
    ∃ s : List UInt8, s.length = 16 ∧
      (cryptAndTag
          { key := Key.ofCipher (fun block => List.ofFn fun i : Fin 16 => block.getD (15 - i) 0 + 1)
              fun _ => List.length_ofFn } .decrypt (List.replicate 12 1) [2, 3] [4, 5, 6] 12).2
        = (xor (List.ofFn fun i : Fin 16 => (List.replicate 12 1 ++ beBytes 1).getD (15 - i) 0 + 1) s).take 12 := by
  obtain ⟨s, hlen, -, -, htag⟩ := @cryptAndTag_eq _ _
    { key := Key.ofCipher (fun block => List.ofFn fun i : Fin 16 => block.getD (15 - i) 0 + 1)
        fun _ => List.length_ofFn } rfl .decrypt (List.replicate 12 1) [2, 3] [4, 5, 6] rfl (by decide)
    (by decide) 12 (by decide)
  exact ⟨s, hlen, htag⟩

end

end Gcm

end ScApi
