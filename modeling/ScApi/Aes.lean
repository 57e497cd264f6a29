import ScApi.Lib.BinaryPolynomial

/-!
# The AES cipher

`SC_API_aes_init_keygen_tables` computes logarithms of the bytes to fill the substitution box, and from it
four tables of words that a round looks up and adds. `SC_API_aes_setkey` expands a key of 16, 24 or 32
bytes to words, and `SC_API_aes_cipher` runs the rounds with them, two in a turn.

A word has the bytes of a column, the first one being the least significant.
-/

open Bytes

namespace ScApi

namespace Aes

/-! ### The tables -/

/-- `XTIME`. -/
def xtime (x : ℕ) : ℕ :=
  x <<< 1 ^^^ if x &&& 0x80 ≠ 0 then 0x1B else 0x00

/-- `MIX`. -/
def mix (x y : ℕ) : ℕ × ℕ :=
  let y := (y <<< 1 ||| y >>> 7) &&& 0xFF
  (x ^^^ y, y)

/-- `ROTL8`. -/
def rotl8 (x : UInt32) : UInt32 :=
  (x <<< 8 &&& (0xFFFFFFFF : UInt32)) ||| x >>> 24

/-- The loop that fills `pow` and `log`, with the turns that are left. -/
def powLogLoop : ℕ → ℕ → List UInt8 → List UInt8 → List UInt8 × List UInt8
  | 0, _, pow, log => (pow, log)
  | n + 1, x, pow, log =>
      let i := 255 - n
      powLogLoop n ((x ^^^ xtime x) &&& 0xFF) (pow.set i (UInt8.ofNat x)) (log.set x (UInt8.ofNat i))

/-- The loop that fills `RCON`. -/
def rconLoop : ℕ → ℕ → List UInt32
  | 0, _ => []
  | n + 1, x => UInt32.ofNat x :: rconLoop n (xtime x &&& 0xFF)

/-- What is put into `FSb` for `x = y`, which is an entry of `pow`. -/
def substitute (x : ℕ) : UInt8 :=
  let (x, y) := mix x x
  let (x, y) := mix x y
  let (x, y) := mix x y
  let (x, _) := mix x y
  UInt8.ofNat (x ^^^ 0x63)

/-- The entry of `FT0` for `x`, which is an entry of `FSb`. -/
def forward (x : UInt8) : UInt32 :=
  let y := xtime x.toNat &&& 0xFF
  let z := (y ^^^ x.toNat) &&& 0xFF
  UInt32.ofNat y ^^^ x.toUInt32 <<< 8 ^^^ x.toUInt32 <<< 16 ^^^ UInt32.ofNat z <<< 24

/-- The static tables. -/
structure Tables where
  rcon : List UInt32
  fsb : List UInt8
  ft0 : List UInt32
  ft1 : List UInt32
  ft2 : List UInt32
  ft3 : List UInt32

/-- `SC_API_aes_init_keygen_tables`. -/
def initKeygenTables : Tables :=
  let (pow, log) := powLogLoop 256 1 (List.replicate 256 0) (List.replicate 256 0)
  let fsb := (List.range 256).map fun i =>
    if i = 0 then 0x63 else substitute (pow.getD (255 - (log.getD i 0).toNat) 0).toNat
  let ft0 := fsb.map forward
  let ft1 := ft0.map rotl8
  let ft2 := ft1.map rotl8
  let ft3 := ft2.map rotl8
  { rcon := rconLoop 10 1, fsb, ft0, ft1, ft2, ft3 }

/-! ### The key -/

/-- An `aes_context` for encryption: the number of rounds, and the words of the expanded key. -/
structure Context where
  rounds : ℕ
  rk : List UInt32

/-- `GET_UINT32_LE`. -/
def getUint32Le (b : List UInt8) (i : ℕ) : UInt32 :=
  (b.getD i 0).toUInt32 ||| (b.getD (i + 1) 0).toUInt32 <<< 8 ||| (b.getD (i + 2) 0).toUInt32 <<< 16
    ||| (b.getD (i + 3) 0).toUInt32 <<< 24

/-- `PUT_UINT32_LE`. -/
def putUint32Le (n : UInt32) : List UInt8 :=
  [n.toUInt8, (n >>> 8).toUInt8, (n >>> 16).toUInt8, (n >>> 24).toUInt8]

namespace Tables

variable (t : Tables)

/-- The entry of `FSb` for a byte of a word. -/
def sub (w : UInt32) (shift : UInt32) : UInt32 :=
  (t.fsb.getD ((w >>> shift) &&& 0xFF).toNat 0).toUInt32

/-- Four entries of `FSb`, for the bytes of a word from the second one on. -/
def subRotated (w : UInt32) : UInt32 :=
  t.sub w 8 ^^^ t.sub w 16 <<< 8 ^^^ t.sub w 24 <<< 16 ^^^ t.sub w 0 <<< 24

/-- Four entries of `FSb`, for the bytes of a word. -/
def subPlain (w : UInt32) : UInt32 :=
  t.sub w 0 ^^^ t.sub w 8 <<< 8 ^^^ t.sub w 16 <<< 16 ^^^ t.sub w 24 <<< 24

/-- A turn with `RK` at the word `4 * i`, for ten rounds. -/
def expand10 (rk : List UInt32) (i : ℕ) : List UInt32 :=
  let RK (j : ℕ) := rk.getD (4 * i + j) 0
  let rk4 := RK 0 ^^^ t.rcon.getD i 0 ^^^ t.subRotated (RK 3)
  let rk5 := RK 1 ^^^ rk4
  let rk6 := RK 2 ^^^ rk5
  let rk7 := RK 3 ^^^ rk6
  rk ++ [rk4, rk5, rk6, rk7]

/-- A turn with `RK` at the word `6 * i`, for twelve rounds. -/
def expand12 (rk : List UInt32) (i : ℕ) : List UInt32 :=
  let RK (j : ℕ) := rk.getD (6 * i + j) 0
  let rk6 := RK 0 ^^^ t.rcon.getD i 0 ^^^ t.subRotated (RK 5)
  let rk7 := RK 1 ^^^ rk6
  let rk8 := RK 2 ^^^ rk7
  let rk9 := RK 3 ^^^ rk8
  let rk10 := RK 4 ^^^ rk9
  let rk11 := RK 5 ^^^ rk10
  rk ++ [rk6, rk7, rk8, rk9, rk10, rk11]

/-- A turn with `RK` at the word `8 * i`, for fourteen rounds. -/
def expand14 (rk : List UInt32) (i : ℕ) : List UInt32 :=
  let RK (j : ℕ) := rk.getD (8 * i + j) 0
  let rk8 := RK 0 ^^^ t.rcon.getD i 0 ^^^ t.subRotated (RK 7)
  let rk9 := RK 1 ^^^ rk8
  let rk10 := RK 2 ^^^ rk9
  let rk11 := RK 3 ^^^ rk10
  let rk12 := RK 4 ^^^ t.subPlain rk11
  let rk13 := RK 5 ^^^ rk12
  let rk14 := RK 6 ^^^ rk13
  let rk15 := RK 7 ^^^ rk14
  rk ++ [rk8, rk9, rk10, rk11, rk12, rk13, rk14, rk15]

/-- `SC_API_aes_set_encryption_key`, with the size of the key in bytes. -/
def setEncryptionKey (rounds : ℕ) (key : List UInt8) (keysize : ℕ) : Option Context :=
  let rk := (List.range (keysize >>> 2)).map fun i => getUint32Le key (i <<< 2)
  match rounds with
  | 10 => some { rounds, rk := (List.range 10).foldl t.expand10 rk }
  | 12 => some { rounds, rk := (List.range 8).foldl t.expand12 rk }
  | 14 => some { rounds, rk := (List.range 7).foldl t.expand14 rk }
  | _ => none

end Tables

/-- `SC_API_aes_setkey`, with the tables if they were initialized. -/
def setkey (tables : Option Tables) (key : List UInt8) (keysize : ℕ) : Option Context :=
  tables.bind fun t =>
    match keysize with
    | 16 => t.setEncryptionKey 10 key keysize
    | 24 => t.setEncryptionKey 12 key keysize
    | 32 => t.setEncryptionKey 14 key keysize
    | _ => none

/-! ### The cipher -/

/-- The words `X0` to `X3`, or `Y0` to `Y3`. -/
structure Words where
  w0 : UInt32
  w1 : UInt32
  w2 : UInt32
  w3 : UInt32

namespace Tables

variable (t : Tables)

/-- A word that `AES_FROUND` computes, from the round key and four words. -/
def froundWord (rk y0 y1 y2 y3 : UInt32) : UInt32 :=
  rk ^^^ t.ft0.getD (y0 &&& 0xFF).toNat 0 ^^^ t.ft1.getD ((y1 >>> 8) &&& 0xFF).toNat 0
    ^^^ t.ft2.getD ((y2 >>> 16) &&& 0xFF).toNat 0 ^^^ t.ft3.getD ((y3 >>> 24) &&& 0xFF).toNat 0

/-- `AES_FROUND`, with `RK` at a word. -/
def fround (rk : List UInt32) (RK : ℕ) (y : Words) : Words :=
  ⟨t.froundWord (rk.getD RK 0) y.w0 y.w1 y.w2 y.w3, t.froundWord (rk.getD (RK + 1) 0) y.w1 y.w2 y.w3 y.w0,
    t.froundWord (rk.getD (RK + 2) 0) y.w2 y.w3 y.w0 y.w1, t.froundWord (rk.getD (RK + 3) 0) y.w3 y.w0 y.w1 y.w2⟩

/-- The loop of `SC_API_aes_cipher`, which runs two rounds in a turn. -/
def froundLoop (rk : List UInt32) : ℕ → ℕ → Words → ℕ × Words
  | 0, RK, x => (RK, x)
  | n + 1, RK, x =>
      let y := t.fround rk RK x
      froundLoop rk n (RK + 8) (t.fround rk (RK + 4) y)

/-- A word of the last round. -/
def lastWord (rk y0 y1 y2 y3 : UInt32) : UInt32 :=
  rk ^^^ t.sub y0 0 ^^^ t.sub y1 8 <<< 8 ^^^ t.sub y2 16 <<< 16 ^^^ t.sub y3 24 <<< 24

/-- The last round. -/
def lastRound (rk : List UInt32) (RK : ℕ) (y : Words) : Words :=
  ⟨t.lastWord (rk.getD RK 0) y.w0 y.w1 y.w2 y.w3, t.lastWord (rk.getD (RK + 1) 0) y.w1 y.w2 y.w3 y.w0,
    t.lastWord (rk.getD (RK + 2) 0) y.w2 y.w3 y.w0 y.w1, t.lastWord (rk.getD (RK + 3) 0) y.w3 y.w0 y.w1 y.w2⟩

/-- `SC_API_aes_cipher`. -/
def cipher (ctx : Context) (input : List UInt8) : List UInt8 :=
  let x : Words := ⟨getUint32Le input 0 ^^^ ctx.rk.getD 0 0, getUint32Le input 4 ^^^ ctx.rk.getD 1 0,
    getUint32Le input 8 ^^^ ctx.rk.getD 2 0, getUint32Le input 12 ^^^ ctx.rk.getD 3 0⟩
  let (RK, x) := t.froundLoop ctx.rk (ctx.rounds >>> 1 - 1) 4 x
  let y := t.fround ctx.rk RK x
  let x := t.lastRound ctx.rk (RK + 4) y
  putUint32Le x.w0 ++ putUint32Le x.w1 ++ putUint32Le x.w2 ++ putUint32Le x.w3

end Tables

end Aes

end ScApi
