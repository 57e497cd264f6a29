import ScApi.Lib.Buffer
import ScApi.Lib.Bytes

/-!
# The SHA-512 hash

`sha512_add` takes the data of a message in pieces. Data that do not fill a block wait in a buffer, and
whole blocks are compressed where they lie. `sha512_final` fills the last block up with the length of the
message.

A compression runs eight rounds in a turn, each with the variables in other places, so that no variable
has to be moved.
-/

open Bytes Buffer

namespace ScApi

namespace Sha512

/-- `SHA512_BLOCK_SIZE`. -/
def blockSize : ℕ := 128

/-- The constants `K` of the rounds. -/
def K : List UInt64 :=
  [0x428a2f98d728ae22, 0x7137449123ef65cd, 0xb5c0fbcfec4d3b2f, 0xe9b5dba58189dbbc,
   0x3956c25bf348b538, 0x59f111f1b605d019, 0x923f82a4af194f9b, 0xab1c5ed5da6d8118,
   0xd807aa98a3030242, 0x12835b0145706fbe, 0x243185be4ee4b28c, 0x550c7dc3d5ffb4e2,
   0x72be5d74f27b896f, 0x80deb1fe3b1696b1, 0x9bdc06a725c71235, 0xc19bf174cf692694,
   0xe49b69c19ef14ad2, 0xefbe4786384f25e3, 0x0fc19dc68b8cd5b5, 0x240ca1cc77ac9c65,
   0x2de92c6f592b0275, 0x4a7484aa6ea6e483, 0x5cb0a9dcbd41fbd4, 0x76f988da831153b5,
   0x983e5152ee66dfab, 0xa831c66d2db43210, 0xb00327c898fb213f, 0xbf597fc7beef0ee4,
   0xc6e00bf33da88fc2, 0xd5a79147930aa725, 0x06ca6351e003826f, 0x142929670a0e6e70,
   0x27b70a8546d22ffc, 0x2e1b21385c26c926, 0x4d2c6dfc5ac42aed, 0x53380d139d95b3df,
   0x650a73548baf63de, 0x766a0abb3c77b2a8, 0x81c2c92e47edaee6, 0x92722c851482353b,
   0xa2bfe8a14cf10364, 0xa81a664bbc423001, 0xc24b8b70d0f89791, 0xc76c51a30654be30,
   0xd192e819d6ef5218, 0xd69906245565a910, 0xf40e35855771202a, 0x106aa07032bbd1b8,
   0x19a4c116b8d2d0c8, 0x1e376c085141ab53, 0x2748774cdf8eeb99, 0x34b0bcb5e19b48a8,
   0x391c0cb3c5c95a63, 0x4ed8aa4ae3418acb, 0x5b9cca4f7763e373, 0x682e6ff3d6b2b8a3,
   0x748f82ee5defb2fc, 0x78a5636f43172f60, 0x84c87814a1f0ab72, 0x8cc702081a6439ec,
   0x90befffa23631e28, 0xa4506cebde82bde9, 0xbef9a3f7b2c67915, 0xc67178f2e372532b,
   0xca273eceea26619c, 0xd186b8c721c0c207, 0xeada7dd6cde0eb1e, 0xf57d4f7fee6ed178,
   0x06f067aa72176fba, 0x0a637dc5a2c898a6, 0x113f9804bef90dae, 0x1b710b35131c471b,
   0x28db77f523047d84, 0x32caab7b40c72493, 0x3c9ebe0a15c9bebc, 0x431d67c49c100d4c,
   0x4cc5d4becb3e42b6, 0x597f299cfc657e2a, 0x5fcb6fab3ad6faec, 0x6c44198c4a475817]

/-- `ROR`. -/
def ror (x n : UInt64) : UInt64 :=
  x >>> n ||| x <<< (64 - n)

/-- `S0`. -/
def s0 (x : UInt64) : UInt64 :=
  ror x 28 ^^^ ror x 34 ^^^ ror x 39

/-- `S1`. -/
def s1 (x : UInt64) : UInt64 :=
  ror x 14 ^^^ ror x 18 ^^^ ror x 41

/-- `G0`. -/
def g0 (x : UInt64) : UInt64 :=
  ror x 1 ^^^ ror x 8 ^^^ x >>> 7

/-- `G1`. -/
def g1 (x : UInt64) : UInt64 :=
  ror x 19 ^^^ ror x 61 ^^^ x >>> 6

/-- The words of a state, and the variables of `compress`. -/
structure Words where
  a : UInt64
  b : UInt64
  c : UInt64
  d : UInt64
  e : UInt64
  f : UInt64
  g : UInt64
  h : UInt64
  deriving DecidableEq, Repr

/-- `store_be64`. -/
def storeBe64 (x : UInt64) : List UInt8 :=
  [(x >>> 56 &&& 0xff).toUInt8, (x >>> 48 &&& 0xff).toUInt8, (x >>> 40 &&& 0xff).toUInt8,
    (x >>> 32 &&& 0xff).toUInt8, (x >>> 24 &&& 0xff).toUInt8, (x >>> 16 &&& 0xff).toUInt8,
    (x >>> 8 &&& 0xff).toUInt8, (x >>> 0 &&& 0xff).toUInt8]

/-- `load_be64`. -/
def loadBe64 (p : List UInt8) : UInt64 :=
  (p.getD 0 0).toUInt64 <<< 56 ||| (p.getD 1 0).toUInt64 <<< 48 ||| (p.getD 2 0).toUInt64 <<< 40
    ||| (p.getD 3 0).toUInt64 <<< 32 ||| (p.getD 4 0).toUInt64 <<< 24 ||| (p.getD 5 0).toUInt64 <<< 16
    ||| (p.getD 6 0).toUInt64 <<< 8 ||| (p.getD 7 0).toUInt64

/-! ### Compressing a block -/

/-- `ROUND`, with what it leaves in its `d` and `h`. -/
def round (W : List UInt64) (i : ℕ) (a b c d e f g h : UInt64) : UInt64 × UInt64 :=
  let t := h + s1 e + (g ^^^ (e &&& (f ^^^ g))) + K.getD i 0 + W.getD i 0
  (d + t, t + s0 a + (((a ||| b) &&& c) ||| (a &&& b)))

/-- The loop that computes the words behind the block, with the turns that are left. -/
def extend : ℕ → List UInt64 → List UInt64
  | 0, W => W
  | n + 1, W =>
      let i := W.length
      extend n (W ++ [W.getD (i - 16) 0 + g0 (W.getD (i - 15) 0) + W.getD (i - 7) 0
        + g1 (W.getD (i - 2) 0)])

/-- Eight rounds from `i` on. -/
def eightRounds (W : List UInt64) (i : ℕ) (v : Words) : Words :=
  let ⟨a, b, c, d, e, f, g, h⟩ := v
  let (d, h) := round W (i + 0) a b c d e f g h
  let (c, g) := round W (i + 1) h a b c d e f g
  let (b, f) := round W (i + 2) g h a b c d e f
  let (a, e) := round W (i + 3) f g h a b c d e
  let (h, d) := round W (i + 4) e f g h a b c d
  let (g, c) := round W (i + 5) d e f g h a b c
  let (f, b) := round W (i + 6) c d e f g h a b
  let (e, a) := round W (i + 7) b c d e f g h a
  ⟨a, b, c, d, e, f, g, h⟩

/-- The loop over the rounds, with the turns that are left. -/
def roundsLoop (W : List UInt64) : ℕ → ℕ → Words → Words
  | 0, _, v => v
  | n + 1, i, v => roundsLoop W n (i + 8) (eightRounds W i v)

/-- The words of a block. -/
def loadWords (buf : List UInt8) : List UInt64 :=
  (List.range 16).map fun i => loadBe64 (buf.drop (8 * i))

/-- `compress`. -/
def compress (state : Words) (buf : List UInt8) : Words :=
  let W := extend 64 (loadWords buf)
  let v := roundsLoop W 10 0 state
  ⟨state.a + v.a, state.b + v.b, state.c + v.c, state.d + v.d, state.e + v.e, state.f + v.f,
    state.g + v.g, state.h + v.h⟩

/-! ### The data of a message -/

/-- A `struct sha512`. -/
structure Context where
  state : Words
  count : UInt64
  buffer : List UInt8
  fill : ℕ

/-- `sha512_init`, on a struct with anything in its buffer. -/
def init (buffer : List UInt8) : Context where
  fill := 0
  count := 0
  buffer
  state :=
    ⟨0x6a09e667f3bcc908, 0xbb67ae8584caa73b, 0x3c6ef372fe94f82b, 0xa54ff53a5f1d36f1,
      0x510e527fade682d1, 0x9b05688c2b3e6c1f, 0x1f83d9abfb41bd6b, 0x5be0cd19137e2179⟩

/-- The loop that fills the buffer up, with the data that are left. -/
def fillUp : List UInt8 → Context → List UInt8 × Context
  | [], ctx => ([], ctx)
  | byte :: data, ctx =>
      if ctx.fill < blockSize then
        fillUp data { ctx with buffer := ctx.buffer.set ctx.fill byte, fill := ctx.fill + 1 }
      else
        (byte :: data, ctx)

/-- One more block. -/
def Context.block (ctx : Context) (buf : List UInt8) : Context :=
  { ctx with state := compress ctx.state buf, count := ctx.count + 1 }

/-- The loop over whole blocks, with the data that are left. -/
def blocksLoop (data : List UInt8) (ctx : Context) : List UInt8 × Context :=
  if _h : blockSize ≤ data.length then
    blocksLoop (data.drop blockSize) (ctx.block (data.take blockSize))
  else
    (data, ctx)
termination_by data.length
decreasing_by
  rw [List.length_drop]
  have : 0 < blockSize := by decide
  omega

/-- The end of `sha512_add`, with an empty buffer. -/
def addBlocks (data : List UInt8) (ctx : Context) : Context :=
  let (data, ctx) := blocksLoop data ctx
  { ctx with buffer := overwrite ctx.buffer 0 data, fill := data.length }

/-- `sha512_add`. -/
def add (data : List UInt8) (ctx : Context) : Context :=
  if 0 < ctx.fill then
    let (data, ctx) := fillUp data ctx
    if ctx.fill < blockSize then ctx else addBlocks data (ctx.block ctx.buffer)
  else
    addBlocks data ctx

/-- `ctx->buffer[ctx->fill++] = byte`. -/
def Context.push (byte : UInt8) (ctx : Context) : Context :=
  { ctx with buffer := ctx.buffer.set ctx.fill byte, fill := ctx.fill + 1 }

/-- A loop that fills the buffer up with `n` zeros. -/
def zeros : ℕ → Context → Context
  | 0, ctx => ctx
  | n + 1, ctx => zeros n (ctx.push 0)

/-- `sha512_final`: the bytes that it writes to `out`. -/
def final (ctx : Context) : List UInt8 :=
  let rest := ctx.fill
  let ctx := ctx.push 0x80
  let ctx :=
    if blockSize - 16 < ctx.fill then
      let ctx := zeros (blockSize - ctx.fill) ctx
      { ctx with state := compress ctx.state ctx.buffer, fill := 0 }
    else
      ctx
  let ctx := zeros (blockSize - 16 - ctx.fill) ctx
  let buffer := overwrite ctx.buffer (blockSize - 16) (storeBe64 (ctx.count >>> 54))
  let buffer := overwrite buffer (blockSize - 8)
    (storeBe64 ((ctx.count <<< 7 ||| UInt64.ofNat rest) <<< 3))
  let state := compress ctx.state buffer
  storeBe64 state.a ++ storeBe64 state.b ++ storeBe64 state.c ++ storeBe64 state.d
    ++ storeBe64 state.e ++ storeBe64 state.f ++ storeBe64 state.g ++ storeBe64 state.h

/-- The hash of data that are added in pieces. -/
def hash (buffer : List UInt8) (pieces : List (List UInt8)) : List UInt8 :=
  final (pieces.foldl (fun ctx data => add data ctx) (init buffer))

end Sha512

end ScApi
