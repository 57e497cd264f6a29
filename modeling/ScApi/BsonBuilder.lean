import ScApi.Lib.Bson
import ScApi.Lib.Buffer

/-!
# The BSON builder

`BsonBuilder` writes a document into a buffer of fixed size or into a vector that it lets grow. It
keeps the place of the next byte, and the bytes it has used or promised: a terminator for each open
document, and a footer that stays free behind the document. This module models the class, one
definition for each member function.

The buffer is the list of the bytes that may be written. A write outside stops the run, and so does
taking from an empty stack. Positions are 32-bit integers, so increments wrap around. Assertions are
modelled as in a release build, where `assert` does nothing.

What the program leaves to its platform is a parameter: how far a vector grows, and what an array's
key buffer holds before it is filled.
-/

open Bytes Buffer

namespace ScApi

/-- Why the builder stops. -/
inductive BuilderStop where
  | outOfBounds (index : ℤ)
  | nullPointer
  | emptyStack
  | lengthError
  deriving DecidableEq, Repr

/-- A computation of the builder. -/
abbrev Build (α : Type) := Except BuilderStop α

/-- The state of a `BsonBuilder`. The back of a stack is its first element. `buffer` is what
`buffer_ptr_` points to, and `container` is the capacity of the vector that it belongs to. -/
structure BsonBuilder where
  documentSizeOffsets : List ℤ := []
  arrayIdxCounters : List ℤ := []
  buffer : List UInt8 := []
  offset : ℤ := 0
  currentUsage : ℤ := 0
  capacity : ℤ := 0
  container : Option ℕ := none
  docIsArrayBits : UInt64 := 0
  depth : ℤ := 0
  startOffset : ℤ := 0
  errorFlag : Bool := false
  reallocate : Bool := false
  deriving DecidableEq, Repr

/-- What the program leaves to its platform. -/
structure Platform where
  /-- The capacity after a vector of a capacity had to make room for more elements. -/
  grow : ℕ → ℕ → ℕ
  le_grow : ∀ c n, n ≤ grow c n
  /-- The bytes of `key_buffer` before it is filled. -/
  keyBuffer : BsonBuilder → List UInt8
  length_keyBuffer : ∀ b, (keyBuffer b).length = 8

/-- A platform whose vectors take the room they were asked for and no more. -/
def Platform.tight : Platform where
  grow _ n := n
  le_grow _ _ := le_rfl
  keyBuffer _ := List.replicate 8 0
  length_keyBuffer _ := rfl

namespace BsonBuilder

/-! ### Starting a document -/

/-- `BsonBuilder::reserveMainDocumentHeader`. -/
def reserveMainDocumentHeader (b : BsonBuilder) : BsonBuilder :=
  { b with offset := wrap32 (b.offset + 4), currentUsage := wrap32 (b.currentUsage + 5) }

/-- `BsonBuilder::initialize` with a buffer of its own size. -/
def initializeBuffer (buffer : List UInt8) (b : BsonBuilder) : BsonBuilder :=
  reserveMainDocumentHeader { b with
    buffer
    offset := 0
    currentUsage := 0
    capacity := wrap32 buffer.length
    container := none
    startOffset := 0 }

/-- `BsonBuilder::initialize` with a vector of some content and capacity. The sums of the sizes are
32-bit numbers. -/
def initializeVector (content : List UInt8) (capacity startOffset reservedExtraFooter : ℕ)
    (platform : Platform) (b : BsonBuilder) : BsonBuilder :=
  let needed := (5 + startOffset + reservedExtraFooter) % 4294967296
  let newSize := (10 + startOffset + reservedExtraFooter) % 4294967296
  let small := content.length < needed
  let buffer := if small then resize 0 content newSize else content
  let capacity := if small ∧ capacity < newSize then platform.grow capacity newSize else capacity
  { reserveMainDocumentHeader { b with
      buffer
      container := some capacity
      capacity := wrap32 buffer.length
      startOffset := wrap32 startOffset
      offset := wrap32 startOffset
      currentUsage := wrap32 (wrap32 startOffset + wrap32 reservedExtraFooter) } with
    reallocate := true }

/-! ### Space -/

/-- Bytes are written from an index of the buffer on. -/
def write (i : ℤ) (bytes : List UInt8) (b : BsonBuilder) : Build BsonBuilder :=
  if 0 ≤ i ∧ i + bytes.length ≤ b.buffer.length then
    pure { b with buffer := overwrite b.buffer i.toNat bytes }
  else
    throw (.outOfBounds i)

/-- `reallocate_`: the vector is given room for the bytes, and then takes all its capacity. -/
def reallocateTo (platform : Platform) (minRequiredBytes : ℤ) (b : BsonBuilder) :
    Build BsonBuilder :=
  match b.container with
  | none => throw .nullPointer
  | some capacity =>
      if minRequiredBytes < 0 then
        -- converted to `size_t` it is more than any vector can hold
        throw .lengthError
      else
        let capacity := if minRequiredBytes.toNat ≤ capacity then capacity
          else platform.grow capacity minRequiredBytes.toNat
        pure { b with
          buffer := resize 0 b.buffer capacity
          container := some capacity
          capacity := wrap32 capacity }

/-- `BsonBuilder::verifyEnoughCapacity`. -/
def verifyEnoughCapacity (platform : Platform) (bytes : ℤ) (b : BsonBuilder) :
    Build (Bool × BsonBuilder) :=
  if wrap32 (b.currentUsage + bytes) ≤ b.capacity then
    pure (true, b)
  else do
    let b ← if b.reallocate then b.reallocateTo platform (wrap32 (b.currentUsage + bytes))
      else pure b
    if wrap32 (b.currentUsage + bytes) ≤ b.capacity then
      pure (true, b)
    else
      pure (false, { b with errorFlag := true })

/-- The common part of the two functions below: what is in front of a value is written, when there is
room for it and for the value. -/
def insertHeader (platform : Platform) (header : List UInt8) (valueSize : ℤ) (b : BsonBuilder) :
    Build (Bool × BsonBuilder) := do
  let bytes := wrap32 (valueSize + header.length)
  let (enough, b) ← b.verifyEnoughCapacity platform bytes
  if enough then do
    let b ← b.write b.offset header
    pure (true, { b with
      offset := wrap32 (b.offset + header.length)
      currentUsage := wrap32 (b.currentUsage + bytes) })
  else
    pure (false, b)

/-- `BsonBuilder::verifyCapacityAndInsertKey`. -/
def verifyCapacityAndInsertKey (platform : Platform) (elementType : UInt8) (name : List UInt8)
    (valueSize : ℤ) (b : BsonBuilder) : Build (Bool × BsonBuilder) :=
  b.insertHeader platform (elementType :: (name ++ [0])) valueSize

/-- A digit. -/
def digit (n : ℤ) : UInt8 :=
  UInt8.ofNat (48 + n % 10).toNat

/-- `digits2`. -/
def digits2 (n : ℤ) : List UInt8 :=
  [digit (n / 10), digit n]

/-- The loop of `fillArrayDocKey`. The digits go to the front of the buffer, not to `out`. -/
def fillLoop : ℕ → List UInt8 → ℤ → ℤ → List UInt8 × ℤ × ℤ
  | 0, buf, out, idx => (buf, out, idx)
  | n + 1, buf, out, idx =>
      if 100 ≤ idx then
        fillLoop n (overwrite buf 0 (digits2 (idx % 100))) (out - 2) (idx / 100)
      else
        (buf, out, idx)

/-- `fillArrayDocKey`: the key of an element with its NUL byte. A 32-bit index has ten digits, so the
loop is left after four turns; `out` stays in the buffer for less than a million elements. -/
def fillArrayDocKey (buf : List UInt8) (idx : ℤ) : List UInt8 :=
  if idx < 10 then
    [UInt8.ofNat ((48 + idx) % 256).toNat, 0]
  else if idx < 100 then
    digits2 idx ++ [0]
  else
    let (buf, out, idx) := fillLoop 5 (overwrite buf 7 [0]) 7 idx
    if idx < 10 then
      (overwrite buf (out - 1).toNat [digit idx]).drop (out - 1).toNat
    else
      (overwrite buf 0 (digits2 idx)).drop out.toNat

/-- `BsonBuilder::verifyCapacityAndInsertArrayKey`. The counter of the array is taken even when there
is no room. -/
def verifyCapacityAndInsertArrayKey (platform : Platform) (elementType : UInt8) (valueSize : ℤ)
    (b : BsonBuilder) : Build (Bool × BsonBuilder) :=
  match b.arrayIdxCounters with
  | [] => throw .emptyStack
  | idx :: counters =>
      let key := fillArrayDocKey (platform.keyBuffer b) idx
      { b with arrayIdxCounters := wrap32 (idx + 1) :: counters }.insertHeader platform
        (elementType :: key) valueSize

/-! ### Adding values -/

/-- The value behind an element's key. -/
def writeValue (value : List UInt8) (b : BsonBuilder) : Build BsonBuilder := do
  let b ← b.write b.offset value
  pure { b with offset := wrap32 (b.offset + value.length) }

/-- The common part of the overloads of `docAddElement` and `arrayAddElement`: a value behind a key
that `insert` makes. -/
def addElement (insert : BsonBuilder → Build (Bool × BsonBuilder)) (value : List UInt8)
    (b : BsonBuilder) : Build (Bool × BsonBuilder) := do
  let (inserted, b) ← insert b
  if inserted then do
    let b ← b.writeValue value
    pure (true, b)
  else
    pure (false, b)

/-- The overloads for strings. Their sizes are 32-bit numbers. -/
def addString (insert : ℤ → BsonBuilder → Build (Bool × BsonBuilder)) (value : List UInt8)
    (b : BsonBuilder) : Build (Bool × BsonBuilder) := do
  let stringDataSize := wrap32 (wrap32 value.length + 1)
  let valueSize := wrap32 (stringDataSize + 4)
  let (inserted, b) ← insert valueSize b
  if inserted then do
    let b ← b.write b.offset (ofI32 stringDataSize ++ value)
    let offset := wrap32 (b.offset + valueSize)
    let b ← b.write (offset - 1) [0]
    pure (true, { b with offset })
  else
    pure (false, b)

/-- The overloads for bytes and their number. -/
def addBytes (insert : ℤ → BsonBuilder → Build (Bool × BsonBuilder)) (bytes : List UInt8)
    (byteCount : ℤ) (subtype : UInt8) (b : BsonBuilder) : Build (Bool × BsonBuilder) :=
  if byteCount < 0 then
    pure (false, b)
  else do
    let valueSize := wrap32 (byteCount + 5)
    let (inserted, b) ← insert valueSize b
    if inserted then do
      let b ← b.write b.offset (ofI32 byteCount ++ subtype :: bytes.take byteCount.toNat)
      pure (true, { b with offset := wrap32 (b.offset + valueSize) })
    else
      pure (false, b)

section Members

variable (platform : Platform)

/-- The overload of `docAddElement` for bytes and their number. -/
def docAddBytes (name bytes : List UInt8) (byteCount : ℤ) (subtype : UInt8) :
    BsonBuilder → Build (Bool × BsonBuilder) :=
  addBytes (verifyCapacityAndInsertKey platform 0x05 name) bytes byteCount subtype

/-- The overloads of `BsonBuilder::docAddElement` for values. A vector of bytes is passed on with its
size. -/
def docAddElement (name : List UInt8) : Bson.Leaf → BsonBuilder → Build (Bool × BsonBuilder)
  | .bool value => addElement (verifyCapacityAndInsertKey platform 0x08 name 1)
      [if value then 0x01 else 0x00]
  | .double value => addElement (verifyCapacityAndInsertKey platform 0x01 name 8)
      (toLe 8 value.toNat)
  | .i32 value => addElement (verifyCapacityAndInsertKey platform 0x10 name 4)
      (toLe 4 value.toNat)
  | .i64 value => addElement (verifyCapacityAndInsertKey platform 0x12 name 8)
      (toLe 8 value.toNat)
  | .null => verifyCapacityAndInsertKey platform 0x0A name 0
  | .string value => addString (verifyCapacityAndInsertKey platform 0x02 name) value
  | .binary data subtype => docAddBytes platform name data (wrap32 data.length) subtype

/-- The overload of `arrayAddElement` for bytes and their number. -/
def arrayAddBytes (bytes : List UInt8) (byteCount : ℤ) (subtype : UInt8) :
    BsonBuilder → Build (Bool × BsonBuilder) :=
  addBytes (verifyCapacityAndInsertArrayKey platform 0x05) bytes byteCount subtype

/-- The overloads of `BsonBuilder::arrayAddElement` for values. The one for bools writes the bytes the
other way round than its twin. -/
def arrayAddElement : Bson.Leaf → BsonBuilder → Build (Bool × BsonBuilder)
  | .bool value => addElement (verifyCapacityAndInsertArrayKey platform 0x08 1)
      [if value then 0x00 else 0x01]
  | .double value => addElement (verifyCapacityAndInsertArrayKey platform 0x01 8)
      (toLe 8 value.toNat)
  | .i32 value => addElement (verifyCapacityAndInsertArrayKey platform 0x10 4)
      (toLe 4 value.toNat)
  | .i64 value => addElement (verifyCapacityAndInsertArrayKey platform 0x12 8)
      (toLe 8 value.toNat)
  | .string value => addString (verifyCapacityAndInsertArrayKey platform 0x02) value
  | .null => verifyCapacityAndInsertArrayKey platform 0x0A 0
  | .binary data subtype => arrayAddBytes platform data (wrap32 data.length) subtype

/-- `BsonBuilder::docAddSubDoc`. -/
def docAddSubDoc (name subDocument : List UInt8) (b : BsonBuilder) : Build (Bool × BsonBuilder) :=
  let docSize := toI32 (subDocument.take 4)
  if docSize < 0 then
    pure (false, b)
  else
    addElement (verifyCapacityAndInsertKey platform 0x03 name docSize)
      (subDocument.take docSize.toNat) b

/-! ### Containers -/

/-- What the functions below do when there is room: a container is open, and its first bytes are left
for its size. -/
def openContainer (kind : Bson.Kind) (b : BsonBuilder) : BsonBuilder :=
  let depth := wrap32 (b.depth + 1)
  -- the processor takes the distance of a shift modulo 64
  let bit : UInt64 := 1 <<< UInt64.ofNat (depth % 64).toNat
  { b with
    documentSizeOffsets := b.offset :: b.documentSizeOffsets
    arrayIdxCounters := match kind with
      | .doc => b.arrayIdxCounters
      | .array => 0 :: b.arrayIdxCounters
    offset := wrap32 (b.offset + 4)
    depth
    docIsArrayBits := match kind with
      | .doc => b.docIsArrayBits &&& ~~~bit
      | .array => b.docIsArrayBits ||| bit }

/-- The common part of the functions that begin a container. -/
def beginContainer (insert : BsonBuilder → Build (Bool × BsonBuilder)) (kind : Bson.Kind)
    (b : BsonBuilder) : Build (Bool × BsonBuilder) := do
  let (inserted, b) ← insert b
  if inserted then
    pure (true, b.openContainer kind)
  else
    pure (false, b)

/-- `BsonBuilder::docBeginSubDoc` with a name. -/
def docBeginSubDoc (name : List UInt8) : BsonBuilder → Build (Bool × BsonBuilder) :=
  beginContainer (verifyCapacityAndInsertKey platform 0x03 name 5) .doc

/-- `BsonBuilder::docBeginSubArray`. -/
def docBeginSubArray (name : List UInt8) : BsonBuilder → Build (Bool × BsonBuilder) :=
  beginContainer (verifyCapacityAndInsertKey platform 0x04 name 5) .array

/-- `BsonBuilder::arrayBeginSubDoc`. -/
def arrayBeginSubDoc : BsonBuilder → Build (Bool × BsonBuilder) :=
  beginContainer (verifyCapacityAndInsertArrayKey platform 0x03 5) .doc

/-- `BsonBuilder::arrayBeginSubArray`. -/
def arrayBeginSubArray : BsonBuilder → Build (Bool × BsonBuilder) :=
  beginContainer (verifyCapacityAndInsertArrayKey platform 0x04 5) .array

/-- `BsonBuilder::docBeginSubDoc` with a name and a document to go on from. A document that is too
short would be copied with a negative size. -/
def docBeginSubDocFrom (name subDocument : List UInt8) (b : BsonBuilder) :
    Build (Bool × BsonBuilder) := do
  let subDocSize := toI32 (subDocument.take 4)
  let (inserted, b) ← b.verifyCapacityAndInsertKey platform 0x03 name subDocSize
  if inserted then
    let b := b.openContainer .doc
    if subDocSize < 5 then
      throw (.outOfBounds b.offset)
    else do
      let b ← b.write b.offset ((subDocument.drop 4).take (subDocSize - 5).toNat)
      pure (true, { b with offset := wrap32 (b.offset + (subDocSize - 5)) })
  else
    pure (false, b)

end Members

/-- What `endDocument` and `endArray` have in common: the terminator and the size of a container. -/
def closeContainer (startOffset : ℤ) (b : BsonBuilder) : Build BsonBuilder := do
  let b ← b.write b.offset [0]
  let offset := wrap32 (b.offset + 1)
  let b ← b.write startOffset (ofI32 (wrap32 (offset - startOffset)))
  pure { b with offset }

/-- `BsonBuilder::endDocument`. -/
def endDocument (b : BsonBuilder) : Build BsonBuilder :=
  match b.documentSizeOffsets with
  | [] => throw .emptyStack
  | startOffset :: documentSizeOffsets => do
      let b ← { b with documentSizeOffsets }.closeContainer startOffset
      pure { b with depth := wrap32 (b.depth - 1) }

/-- `BsonBuilder::endArray`. -/
def endArray (b : BsonBuilder) : Build BsonBuilder :=
  match b.documentSizeOffsets, b.arrayIdxCounters with
  | startOffset :: documentSizeOffsets, _ :: arrayIdxCounters => do
      let b ← { b with documentSizeOffsets, arrayIdxCounters }.closeContainer startOffset
      pure { b with depth := wrap32 (b.depth - 1) }
  | _, _ => throw .emptyStack

/-- `BsonBuilder::finish`: the place and the size of the document, or `none` for the null pointer. -/
def finish (b : BsonBuilder) : Build (Option (ℤ × ℤ) × BsonBuilder) :=
  if b.depth ≠ 0 ∨ b.errorFlag then
    pure (none, b)
  else do
    let b ← b.closeContainer b.startOffset
    pure (some (b.startOffset, wrap32 (b.offset - b.startOffset)), b)

end BsonBuilder

end ScApi
