import Mathlib.Data.List.Zip
import ScApi.Lib.Counter

/-!
# The GCM mode of a block cipher

The vendored GCM as far as an encryption uses it: it starts with an IV of 12 bytes and some additional
data, encrypts by the cipher's output for a counter behind the IV, and mixes the additional data and
the encrypted data into a tag. The cipher and the multiplication that mixes are those of a key.

## Main results

* `updateLoop_decrypt`: decrypting what was encrypted goes through the same states.
* `authDecrypt_cryptAndTag`: what was encrypted is decrypted, and its tag is accepted.
-/

open Bytes

namespace ScApi

namespace Gcm

/-- What a key is expanded to: `aes_ctx` as the function that it is used for, and the tables of
`SC_API_gcm_mult`. -/
structure Key where
  cipher : List UInt8 → List UInt8
  mult : List UInt8 → List UInt8
  length_cipher : ∀ block, (cipher block).length = 16

/-- The direction of a context. -/
inductive Mode where
  | encrypt
  | decrypt
  deriving DecidableEq, Repr

/-- A `gcm_context`. -/
structure Context where
  key : Key
  mode : Mode := .encrypt
  len : ℕ := 0
  addLen : ℕ := 0
  baseEctr : List UInt8 := []
  y : List UInt8 := []
  buf : List UInt8 := []

/-- Bytes combined by exclusive or, as many as both have. -/
def xor (a b : List UInt8) : List UInt8 :=
  List.zipWith (· ^^^ ·) a b

/-- Bytes combined into the front of a buffer. -/
def xorInto (buf bytes : List UInt8) : List UInt8 :=
  xor (buf.take bytes.length) bytes ++ buf.drop bytes.length

/-- `PUT_UINT32_BE`. -/
def beBytes (n : ℕ) : List UInt8 :=
  (toLe 4 n).reverse

/-- The counter, in the last four bytes, with the most significant one first. -/
def nextCounter (y : List UInt8) : List UInt8 :=
  y.take 12 ++ (Counter.increment (y.drop 12).reverse).reverse

/-- The loop over the additional data. Each turn takes a byte at least. -/
def absorbLoop (key : Key) : ℕ → List UInt8 → List UInt8 → List UInt8
  | 0, buf, _ => buf
  | n + 1, buf, add =>
      if add = [] then buf
      else absorbLoop key n (key.mult (xorInto buf (add.take 16))) (add.drop 16)

/-- `SC_API_gcm_start` with an IV of 12 bytes. -/
def start (ctx : Context) (mode : Mode) (iv add : List UInt8) : Context :=
  let y := iv ++ [0, 0, 0, 1]
  { ctx with
    mode
    len := 0
    addLen := add.length % 4294967296
    y
    baseEctr := ctx.key.cipher y
    buf := absorbLoop ctx.key add.length (List.replicate 16 0) add }

/-- The loop of `SC_API_gcm_update`, with its output. Each turn takes a byte at least. -/
def updateLoop : ℕ → Context → List UInt8 → List UInt8 × Context
  | 0, ctx, _ => ([], ctx)
  | n + 1, ctx, input =>
      if input = [] then ([], ctx)
      else
        let y := nextCounter ctx.y
        let chunk := input.take 16
        let output := xor (ctx.key.cipher y) chunk
        let mixed := match ctx.mode with
          | .encrypt => output
          | .decrypt => chunk
        let ctx := { ctx with y, buf := ctx.key.mult (xorInto ctx.buf mixed) }
        let (rest, ctx) := updateLoop n ctx (input.drop 16)
        (output ++ rest, ctx)

/-- `SC_API_gcm_update`. -/
def update (ctx : Context) (input : List UInt8) : List UInt8 × Context :=
  updateLoop input.length { ctx with len := (ctx.len + input.length) % 4294967296 } input

/-- `SC_API_gcm_finish`. The lengths in bits are products of 32 bits. -/
def finish (ctx : Context) (tagLen : ℕ) : List UInt8 :=
  let tag := ctx.baseEctr.take tagLen
  let origLen := ctx.len * 8 % 4294967296
  let origAddLen := ctx.addLen * 8 % 4294967296
  if origLen ≠ 0 ∨ origAddLen ≠ 0 then
    let work := beBytes (origAddLen / 4294967296) ++ beBytes origAddLen
      ++ beBytes (origLen / 4294967296) ++ beBytes origLen
    let buf := ctx.key.mult (xor ctx.buf work)
    xorInto tag (buf.take tagLen)
  else
    tag

/-- `SC_API_gcm_crypt_and_tag`. -/
def cryptAndTag (ctx : Context) (mode : Mode) (iv add input : List UInt8) (tagLen : ℕ) :
    List UInt8 × List UInt8 :=
  let (output, ctx) := update (start ctx mode iv add) input
  (output, finish ctx tagLen)

/-- `SC_API_gcm_auth_decrypt`; `none` for an authentication failure. -/
def authDecrypt (ctx : Context) (iv add input tag : List UInt8) : Option (List UInt8) :=
  let (output, checkTag) := cryptAndTag ctx .decrypt iv add input tag.length
  if tag = checkTag then some output else none

/-! ### Decrypting -/

theorem xor_xor {a b : List UInt8} (h : b.length ≤ a.length) : xor a (xor a b) = b := by
  induction a generalizing b with
  | nil =>
      obtain rfl := List.eq_nil_of_length_eq_zero (Nat.le_zero.mp h)
      rfl
  | cons x a ih =>
      cases b with
      | nil => rfl
      | cons z b =>
          have hbyte : x ^^^ (x ^^^ z) = z := by
            rw [← UInt8.xor_assoc, UInt8.xor_self, UInt8.zero_xor]
          have htail := ih (Nat.le_of_succ_le_succ h)
          rw [xor, xor] at htail ⊢
          rw [List.zipWith_cons_cons, List.zipWith_cons_cons, hbyte, htail]

theorem length_xor {a b : List UInt8} (h : b.length ≤ a.length) : (xor a b).length = b.length := by
  rw [xor, List.length_zipWith, Nat.min_eq_right h]

theorem length_take_le_cipher (key : Key) (y input : List UInt8) :
    (input.take 16).length ≤ (key.cipher y).length := by
  rw [key.length_cipher, List.length_take]
  exact Nat.min_le_left _ _

theorem length_updateLoop (n : ℕ) (ctx : Context) {input : List UInt8} (h : input.length ≤ n) :
    (updateLoop n ctx input).1.length = input.length := by
  induction n generalizing ctx input with
  | zero =>
      obtain rfl := List.eq_nil_of_length_eq_zero (Nat.le_zero.mp h)
      rfl
  | succ n ih =>
      rw [updateLoop]
      split_ifs with hnil
      · rw [hnil]
      · have hlen : input.length ≠ 0 := fun hzero => hnil (List.eq_nil_of_length_eq_zero hzero)
        dsimp only
        rw [List.length_append, length_xor (length_take_le_cipher _ _ _),
          ih _ (by rw [List.length_drop]; omega), List.length_take, List.length_drop]
        omega

/-- **Decrypting what was encrypted** gives it back, and ends in the same state. -/
theorem updateLoop_decrypt (n : ℕ) (ctx : Context) {input : List UInt8} (h : input.length ≤ n) :
    updateLoop n { ctx with mode := .decrypt } (updateLoop n { ctx with mode := .encrypt } input).1
      = (input, { (updateLoop n { ctx with mode := .encrypt } input).2 with mode := .decrypt }) := by
  induction n generalizing ctx input with
  | zero =>
      obtain rfl := List.eq_nil_of_length_eq_zero (Nat.le_zero.mp h)
      rfl
  | succ n ih =>
      by_cases hnil : input = []
      · rw [hnil]
        rfl
      have hlen : input.length ≠ 0 := fun hzero => hnil (List.eq_nil_of_length_eq_zero hzero)
      -- the output of this turn, and what the next one starts with
      obtain ⟨y, hy⟩ : ∃ y, y = nextCounter ctx.y := ⟨_, rfl⟩
      obtain ⟨output, houtput⟩ : ∃ output, output = xor (ctx.key.cipher y) (input.take 16) :=
        ⟨_, rfl⟩
      obtain ⟨next, hnext⟩ : ∃ next : Context,
        next = { ctx with y, buf := ctx.key.mult (xorInto ctx.buf output) } := ⟨_, rfl⟩
      have hdrop : (input.drop 16).length ≤ n := by
        rw [List.length_drop]
        omega
      have hrest := length_updateLoop n { next with mode := .encrypt } hdrop
      have ih := ih next hdrop
      obtain ⟨⟨rest, last⟩, hloop⟩ : ∃ r, r = updateLoop n { next with mode := .encrypt }
        (input.drop 16) := ⟨_, rfl⟩
      rw [← hloop] at hrest ih
      dsimp only at hrest ih
      have henc : updateLoop (n + 1) { ctx with mode := .encrypt } input = (output ++ rest, last) := by
        rw [updateLoop, if_neg hnil]
        dsimp only
        rw [← hy, ← houtput]
        have hctx : ({ next with mode := .encrypt } : Context)
          = { ctx with mode := .encrypt, y, buf := ctx.key.mult (xorInto ctx.buf output) } := by
          rw [hnext]
        rw [← hctx, ← hloop]
      have houtlen : output.length = (input.take 16).length := by
        rw [houtput, length_xor (length_take_le_cipher _ _ _)]
      have hsplit : (output ++ rest).take 16 = output ∧ (output ++ rest).drop 16 = rest := by
        rw [List.length_take] at houtlen
        rw [List.length_drop] at hrest
        rcases Nat.lt_or_ge input.length 16 with hshort | hlong
        · obtain rfl := List.eq_nil_of_length_eq_zero (show rest.length = 0 by omega)
          rw [List.append_nil]
          exact ⟨List.take_of_length_le (by omega), List.drop_of_length_le (by omega)⟩
        · have hsixteen : output.length = 16 := by omega
          exact ⟨List.take_left' hsixteen, List.drop_left' hsixteen⟩
      have hne : output ++ rest ≠ [] := by
        intro heq
        have hzero := congrArg List.length heq
        rw [List.length_append, houtlen, hrest, List.length_take, List.length_drop,
          List.length_nil] at hzero
        omega
      have hback : xor (ctx.key.cipher y) output = input.take 16 := by
        rw [houtput, xor_xor (length_take_le_cipher _ _ _)]
      rw [henc, updateLoop, if_neg hne]
      dsimp only
      rw [← hy, hsplit.1, hsplit.2, hback]
      have hctx : ({ next with mode := .decrypt } : Context)
        = { ctx with mode := .decrypt, y, buf := ctx.key.mult (xorInto ctx.buf output) } := by
        rw [hnext]
      rw [← hctx, ih]
      dsimp only
      rw [List.take_append_drop]

theorem length_xorInto {buf bytes : List UInt8} (h : bytes.length ≤ buf.length) :
    (xorInto buf bytes).length = buf.length := by
  rw [xorInto, List.length_append, length_xor (by rw [List.length_take_of_le h]), List.length_drop]
  omega

theorem length_finish {ctx : Context} {tagLen : ℕ} (h : tagLen ≤ ctx.baseEctr.length) :
    (finish ctx tagLen).length = tagLen := by
  have htag := List.length_take_of_le h
  rw [finish]
  split_ifs
  · rw [length_xorInto (by rw [List.length_take, htag]; exact Nat.min_le_left _ _), htag]
  · exact htag

theorem baseEctr_updateLoop (n : ℕ) (ctx : Context) (input : List UInt8) :
    (updateLoop n ctx input).2.baseEctr = ctx.baseEctr := by
  induction n generalizing ctx input with
  | zero => rfl
  | succ n ih =>
      rw [updateLoop]
      split_ifs
      · rfl
      · exact ih _ _

theorem length_cryptAndTag (ctx : Context) (mode : Mode) (iv add input : List UInt8) {tagLen : ℕ}
    (htag : tagLen ≤ 16) :
    (cryptAndTag ctx mode iv add input tagLen).1.length = input.length ∧
      (cryptAndTag ctx mode iv add input tagLen).2.length = tagLen := by
  have hctr : (update (start ctx mode iv add) input).2.baseEctr
      = ctx.key.cipher (iv ++ [0, 0, 0, 1]) := baseEctr_updateLoop _ _ _
  have hle : tagLen ≤ (update (start ctx mode iv add) input).2.baseEctr.length := by
    rw [hctr, ctx.key.length_cipher]
    exact htag
  exact ⟨length_updateLoop _ _ le_rfl, length_finish hle⟩

/-- Only the key of a context is used to start with. -/
theorem authDecrypt_congr {ctx ctx' : Context} (h : ctx.key = ctx'.key) (iv add input tag : List UInt8) :
    authDecrypt ctx iv add input tag = authDecrypt ctx' iv add input tag := by
  have hstart : start ctx .decrypt iv add = start ctx' .decrypt iv add := by
    rw [start, start, h]
  rw [authDecrypt, authDecrypt, cryptAndTag, cryptAndTag, hstart]

/-- **What was encrypted is decrypted**, and its tag is accepted. -/
theorem authDecrypt_cryptAndTag (ctx : Context) (iv add input : List UInt8) {tagLen : ℕ}
    (htag : tagLen ≤ 16) :
    authDecrypt ctx iv add (cryptAndTag ctx .encrypt iv add input tagLen).1
      (cryptAndTag ctx .encrypt iv add input tagLen).2 = some input := by
  obtain ⟨houtput, htagLen⟩ := length_cryptAndTag ctx .encrypt iv add input htag
  obtain ⟨begun, hbegun⟩ : ∃ begun : Context, begun =
    { start ctx .encrypt iv add with len := (0 + input.length) % 4294967296 } := ⟨_, rfl⟩
  have hloop := updateLoop_decrypt input.length begun le_rfl
  obtain ⟨encrypted, hencrypted⟩ : ∃ r, r = updateLoop input.length { begun with mode := .encrypt }
    input := ⟨_, rfl⟩
  have hresult : cryptAndTag ctx .encrypt iv add input tagLen
      = (encrypted.1, finish encrypted.2 tagLen) := by
    rw [hencrypted, hbegun]
    rfl
  rw [← hencrypted] at hloop
  rw [hresult] at houtput htagLen ⊢
  dsimp only at houtput htagLen ⊢
  have hback : cryptAndTag ctx .decrypt iv add encrypted.1 tagLen
      = (input, finish encrypted.2 tagLen) := by
    rw [cryptAndTag, update, houtput]
    have hsame : ({ start ctx .decrypt iv add with
        len := ((start ctx .decrypt iv add).len + input.length) % 4294967296 } : Context)
          = { begun with mode := .decrypt } := by
      rw [hbegun]
      rfl
    rw [hsame, hloop]
    rfl
  rw [authDecrypt, htagLen, hback]
  exact if_pos rfl

end Gcm

end ScApi
