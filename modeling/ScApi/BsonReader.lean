import ScApi.Lib.BoundedRead

/-!
# The BSON reader

`BsonReader` walks a BSON document in place: it keeps a byte offset into the buffer, the end
of the document it is in, and a stack of the enclosing documents. This module models the
class, one definition for each member function.

The buffer pointer is modelled by the bytes that may be read from it (`mem`), which can be
more than the size the reader was given: a packet is read in the middle of a receive buffer.
A read outside these bytes stops the run (`Stop.outOfBounds`). Offsets are 32-bit integers,
so an increment that the bounds checks do not keep small wraps around.

Assertions are modelled as in a release build, where `assert` does nothing.
-/

open Bytes BoundedRead

namespace ScApi

/-- `BsonReader::ElementType`. -/
inductive ElementType where
  | elementDouble
  | elementStr
  | elementDoc
  | elementArray
  | elementBinary
  | elementBool
  | elementNull
  | elementI32
  | elementI64
  | elementEnd
  | elementUnsupported
  | elementFormatError
  | elementInternalDocBegin
  deriving DecidableEq, Repr

namespace ElementType

/-- The enumerator's value. -/
def value : ElementType → ℤ
  | elementDouble => 0x01
  | elementStr => 0x02
  | elementDoc => 0x03
  | elementArray => 0x04
  | elementBinary => 0x05
  | elementBool => 0x08
  | elementNull => 0x0A
  | elementI32 => 0x10
  | elementI64 => 0x12
  | elementEnd => 0x00
  | elementUnsupported => -1
  | elementFormatError => -2
  | elementInternalDocBegin => -3

/-- The type that `next` makes of an element's type byte. -/
def ofByte (b : UInt8) : ElementType :=
  match b.toNat with
  | 0x00 => elementEnd
  | 0x01 => elementDouble
  | 0x02 => elementStr
  | 0x03 => elementDoc
  | 0x04 => elementArray
  | 0x05 => elementBinary
  | 0x08 => elementBool
  | 0x0A => elementNull
  | 0x10 => elementI32
  | 0x12 => elementI64
  | _ => elementUnsupported

/-- The types that stop the iteration: `next` returns them again without reading. -/
def ended : ElementType → Bool
  | elementEnd | elementFormatError | elementUnsupported => true
  | _ => false

/-- `BsonReader::isError`. -/
def isError (t : ElementType) : Bool :=
  t ≠ elementInternalDocBegin ∧ t.value < 0

/-- `BsonReader::isEndOrError`. -/
def isEndOrError (t : ElementType) : Bool :=
  t ≠ elementInternalDocBegin ∧ t.value ≤ 0

/-- Documents and arrays, the elements that `beginSub` enters. -/
def isContainer (t : ElementType) : Bool :=
  t = elementDoc ∨ t = elementArray

end ElementType

open ElementType

/-- `BsonReader::ElementOffset`. -/
structure ElementOffset where
  offset : ℤ
  arrIndex : ℤ
  deriving DecidableEq, Repr

/-- `BsonReader::DocState`: an enclosing document while a sub document is read. -/
structure DocState where
  beginOffset : ℤ
  endOffset : ℤ
  arrIndex : ℤ
  deriving DecidableEq, Repr

/-- `k_max_subdocs`, the size of `doc_layers_`. -/
def kMaxSubdocs : ℕ := 16

/-- The state of a `BsonReader`. The used part of `doc_layers_`, up to `last_doc_layer_`, is a
stack with the innermost enclosing document first; `key_` is kept as the bytes it views. -/
structure BsonReader where
  docLayers : List DocState
  size : ℕ
  elementStartOffset : ℤ
  bufOffset : ℤ
  arrIndex : ℤ
  curDocBegin : ℤ
  curDocEnd : ℤ
  curType : ElementType
  key : List UInt8
  deriving DecidableEq, Repr

/-- A pointer into the buffer with a length, as the accessors return it. -/
structure Span where
  offset : ℤ
  length : ℕ
  deriving DecidableEq, Repr

/-- The integer part of a double with the given bit pattern, towards zero. The patterns without a
finite value have the largest exponent and give a number no 32-bit integer reaches. -/
def truncateDouble (bits : ℕ) : ℤ :=
  let exponent := bits / 2 ^ 52 % 2048
  let significand := 2 ^ 52 + bits % 2 ^ 52
  let magnitude : ℕ :=
    if exponent < 1023 then 0
    else if exponent ≤ 1075 then significand / 2 ^ (1075 - exponent)
    else significand * 2 ^ (exponent - 1075)
  if bits / 2 ^ 63 % 2 = 1 then -magnitude else magnitude

/-- Conversion of a double to `int32_t`. The standard leaves a value outside the range open; the
processor's conversion gives the smallest integer there. -/
def i32OfDouble (bits : ℕ) : ℤ :=
  let n := truncateDouble bits
  if -2147483648 ≤ n ∧ n < 2147483648 then n else -2147483648

/-- Conversion of a signed 32-bit integer to `size_t`. -/
def toSizeT (n : ℤ) : ℕ :=
  (n % 18446744073709551616).toNat

namespace BsonReader

/-- The default member initializers. -/
def fresh : BsonReader where
  docLayers := []
  size := 0
  elementStartOffset := 0
  bufOffset := 0
  arrIndex := -2
  curDocBegin := 0
  curDocEnd := 0
  curType := elementDoc
  key := []

/-- The state of a reader whose buffer was rejected by a constructor. -/
def rejected (size : ℕ) : BsonReader :=
  { fresh with size, curType := elementFormatError }

/-- The state of a reader whose constructor accepted a document of `docSize` bytes. -/
def accepted (size : ℕ) (docSize : ℤ) : BsonReader :=
  { fresh with
    size
    curType := elementInternalDocBegin
    bufOffset := 4
    curDocBegin := 4
    curDocEnd := docSize }

/-- `BsonReader::getTotalDocumentSize`. -/
def getTotalDocumentSize (mem : List UInt8) : Read ℤ :=
  i32At mem 0

/-- `BsonReader::BsonReader(buffer)`; the null pointer is `none`. -/
def ofBuffer : Option (List UInt8) → Read BsonReader
  | none => pure (rejected 0)
  | some mem => do
      let docSize ← getTotalDocumentSize mem
      if toSizeT docSize < 5 then
        pure (rejected (toSizeT docSize))
      else
        -- `size_` was converted from the 32-bit size and is converted back here
        pure (accepted (toSizeT docSize) docSize)

/-- `BsonReader::BsonReader(buffer, size)`; the null pointer is `none`. -/
def ofBufferSize : Option (List UInt8) → ℕ → Read BsonReader
  | none, size => pure (rejected size)
  | some mem, size =>
      if size < 5 then
        pure (rejected size)
      else do
        let docSize ← i32At mem 0
        if docSize < 0 ∨ size < toSizeT docSize then
          pure (rejected size)
        else
          pure (accepted size docSize)

/-- `BsonReader::error`. -/
def error (r : BsonReader) : Bool :=
  r.curType ≠ elementInternalDocBegin ∧ r.curType.value < 0

/-- `BsonReader::atEnd`. -/
def atEnd (r : BsonReader) : Bool :=
  r.curType.value = 0 ∨ r.error

/-! ### Reading the next element -/

/-- The number of bytes that the value at `bufOffset` takes: what the first switch of `next` adds
to `buf_offset_`, and `value_size` in `rawElement`. A reader before its first element has no
value to skip. -/
def storedSize (mem : List UInt8) (bufOffset : ℤ) : ElementType → Read ℤ
  | elementDouble | elementI64 => pure 8
  | elementI32 => pure 4
  | elementBool => pure 1
  | elementStr => do
      let byteCount ← i32At mem bufOffset
      pure (wrap32 (byteCount + 4))
  | elementBinary => do
      let byteCount ← i32At mem bufOffset
      pure (wrap32 (byteCount + 5))
  | elementDoc | elementArray => i32At mem bufOffset
  | elementNull | elementEnd | elementUnsupported | elementFormatError
  | elementInternalDocBegin => pure 0

/-- The first switch of `next`: the offset behind the current value. -/
def skipValue (mem : List UInt8) (r : BsonReader) : Read ℤ := do
  let count ← storedSize mem r.bufOffset r.curType
  pure (wrap32 (r.bufOffset + count))

/-- `BsonReader::readKey`. The loop stops at `cur_doc_end_`, so its increments do not wrap. -/
def readKey (mem : List UInt8) (r : BsonReader) : Read (Bool × BsonReader) := do
  match ← findNul mem (r.curDocEnd - r.bufOffset).toNat r.bufOffset with
  | some nul => pure (true, { r with key := slice mem r.bufOffset nul, bufOffset := nul + 1 })
  | none => pure (false, { r with bufOffset := max r.bufOffset r.curDocEnd })

/-- The last switch of `next`: the number of bytes the value at `bufOffset` must have. -/
def valueSize (mem : List UInt8) (bufOffset : ℤ) : ElementType → Read ℤ
  | elementDouble | elementI64 => pure 9
  | elementI32 => pure 4
  | elementBool => pure 1
  | elementStr => do
      let byteCount ← i32At mem bufOffset
      pure (wrap32 (byteCount + 4))
  | elementBinary => do
      let byteCount ← i32At mem bufOffset
      pure (wrap32 (byteCount + 5))
  | elementDoc | elementArray => i32At mem bufOffset
  | elementNull => pure 0
  | elementEnd | elementUnsupported | elementFormatError | elementInternalDocBegin => pure (-1)

/-- The array index after one more element. -/
def nextArrIndex (arrIndex : ℤ) : ℤ :=
  if -1 ≤ arrIndex then wrap32 (arrIndex + 1) else arrIndex

/-- The part of `next` behind the first switch: read the element that starts at `start`. -/
def readElement (mem : List UInt8) (start : ℤ) (r : BsonReader) :
    Read (ElementType × BsonReader) := do
  let typeByte ← byteAt mem start
  let t := ElementType.ofByte typeByte
  let r := { r with elementStartOffset := start, bufOffset := wrap32 (start + 1) }
  if t = elementEnd then
    pure (elementEnd, { r with curType := elementEnd })
  else
    match ← r.readKey mem with
    | (false, r) => pure (elementFormatError, { r with curType := elementFormatError })
    | (true, r) => do
        let need ← valueSize mem r.bufOffset t
        if need < 0 ∨ r.curDocEnd < r.bufOffset + need then
          pure (elementFormatError, { r with curType := elementFormatError })
        else
          pure (t, { r with curType := t, arrIndex := nextArrIndex r.arrIndex })

/-- `BsonReader::next`. -/
def next (mem : List UInt8) (r : BsonReader) : Read (ElementType × BsonReader) :=
  if r.curType.ended then
    pure (r.curType, r)
  else do
    let start ← r.skipValue mem
    r.readElement mem start

/-! ### Moving within the document -/

/-- `BsonReader::elementOffset`. -/
def elementOffset (r : BsonReader) : ElementOffset :=
  ⟨r.elementStartOffset, r.arrIndex⟩

/-- `BsonReader::seekBegin`. -/
def seekBegin (r : BsonReader) : BsonReader :=
  { r with
    bufOffset := r.curDocBegin
    curType := elementInternalDocBegin
    arrIndex := if -2 < r.arrIndex then -1 else r.arrIndex }

/-- `BsonReader::seek`. -/
def seek (mem : List UInt8) (o : ElementOffset) (r : BsonReader) :
    Read (ElementType × BsonReader) :=
  if r.curDocBegin ≤ o.offset ∧ o.offset < r.curDocEnd then
    next mem
      { r with curType := elementInternalDocBegin, bufOffset := o.offset, arrIndex := o.arrIndex }
  else
    pure (elementUnsupported, r)

/-- The search loop of `seekKey`, `seekNextKey` and `seekIndex`: call `next` until an element
is `found` or the document ends. `t` is the result of the last `next`. -/
def scan (mem : List UInt8) (found : BsonReader → Bool) :
    ℕ → ElementType → BsonReader → Read (ElementType × BsonReader)
  | 0, _, _ => throw .outOfFuel
  | n + 1, t, r =>
      if 0 < t.value then
        if found r then
          pure (t, r)
        else do
          let (t, r) ← r.next mem
          scan mem found n t r
      else
        pure (t, r)

/-- The common end of `seekKey`, `seekNextKey` and `seekIndex`: search from here, and go back to
`offset` when the document ended first. Every element starts before `cur_doc_end_`, and each
starts behind the one before, which bounds the number of iterations. -/
def searchFrom (mem : List UInt8) (found : BsonReader → Bool) (offset : ElementOffset)
    (r : BsonReader) : Read (ElementType × BsonReader) := do
  let (t, r) ← r.next mem
  let (t, r) ← scan mem found (r.curDocEnd.toNat + 2) t r
  if t = elementEnd then do
    let (_, r) ← r.seek mem offset
    pure (t, r)
  else
    pure (t, r)

/-- `BsonReader::seekKey`. -/
def seekKey (mem : List UInt8) (searchKey : List UInt8) (r : BsonReader) :
    Read (ElementType × BsonReader) :=
  searchFrom mem (fun r => r.key = searchKey) r.elementOffset r.seekBegin

/-- `BsonReader::seekNextKey`. -/
def seekNextKey (mem : List UInt8) (searchKey : List UInt8) (r : BsonReader) :
    Read (ElementType × BsonReader) :=
  searchFrom mem (fun r => r.key = searchKey) r.elementOffset r

/-- `BsonReader::seekIndex`. -/
def seekIndex (mem : List UInt8) (index : ℤ) (r : BsonReader) :
    Read (ElementType × BsonReader) :=
  if index < 0 ∨ r.arrIndex = -2 then
    pure (elementEnd, r)
  else
    searchFrom mem (fun r => r.arrIndex = index) r.elementOffset
      (if index < r.arrIndex then r.seekBegin else r)

/-! ### Sub documents -/

/-- `BsonReader::beginSub`. -/
def beginSub (mem : List UInt8) (r : BsonReader) : Read (Bool × BsonReader) :=
  if ¬ r.curType.isContainer then
    pure (false, r)
  else if r.docLayers.length = kMaxSubdocs then
    pure (false, r)
  else do
    let docSize ← i32At mem r.bufOffset
    pure (true, { r with
      docLayers := ⟨r.curDocBegin, r.curDocEnd, r.arrIndex⟩ :: r.docLayers
      curDocEnd := wrap32 (r.bufOffset + docSize)
      bufOffset := wrap32 (r.bufOffset + 4)
      curDocBegin := wrap32 (r.bufOffset + 4)
      arrIndex := if r.curType = elementArray then -1 else -2
      curType := elementInternalDocBegin })

/-- `BsonReader::endSub`. `cur_doc_begin_` stays that of the sub document. -/
def endSub (r : BsonReader) : Bool × BsonReader :=
  match r.docLayers with
  | [] => (false, r)
  | state :: layers =>
      (true, { r with
        docLayers := layers
        bufOffset := r.curDocEnd
        curDocEnd := state.endOffset
        arrIndex := state.arrIndex
        curType := elementInternalDocBegin })

/-! ### Validation -/

/-- What one turn of the loop of `validate` decides: leave the loop with a result, or go on at a
nesting depth. -/
inductive Turn where
  | leave (valid : Bool)
  | again (depth : ℕ)
  deriving DecidableEq, Repr

/-- One turn of the loop of the member function `BsonReader::validate`; `depth` counts the sub
documents entered. -/
def validateTurn (mem : List UInt8) (depth : ℕ) (r : BsonReader) : Read (Turn × BsonReader) := do
  let (e, r) ← r.next mem
  if e = elementFormatError then
    pure (.leave false, r)
  else if e = elementEnd then
    match depth with
    | 0 => pure (.leave true, r)
    | depth + 1 =>
        let (ended, r) := r.endSub
        pure (if ended then .again depth else .leave false, r)
  else if e.isContainer then do
    let (begun, r) ← r.beginSub mem
    pure (if begun then .again (depth + 1) else .leave false, r)
  else
    pure (.again depth, r)

/-- The loop of the member function `BsonReader::validate`. -/
def validateLoop (mem : List UInt8) : ℕ → ℕ → BsonReader → Read (Bool × BsonReader)
  | 0, _, _ => throw .outOfFuel
  | n + 1, depth, r => do
      match ← validateTurn mem depth r with
      | (.leave valid, r) => pure (valid, r)
      | (.again depth, r) => validateLoop mem n depth r

/-- The member function `BsonReader::validate`. No byte is the start of two elements, and every
sub document ends once, which bounds the number of iterations. -/
def validateHere (mem : List UInt8) (r : BsonReader) : Read (Bool × BsonReader) :=
  validateLoop mem (2 * r.curDocEnd.toNat + 2) 0 r

/-- The static function `BsonReader::validate`. -/
def validate (mem : List UInt8) (s : ℕ) : Read Bool :=
  if s < 5 then
    pure false
  else do
    let docSize ← getTotalDocumentSize mem
    if s < toSizeT docSize then
      pure false
    else do
      let r ← ofBufferSize (some mem) s
      let (valid, _) ← r.validateHere mem
      pure valid

/-! ### Values of the current element -/

/-- `BsonReader::stringValue`. -/
def stringValue (mem : List UInt8) (r : BsonReader) : Read Span := do
  let byteSize ← i32At mem r.bufOffset
  pure ⟨r.bufOffset + 4, toSizeT (wrap32 (byteSize - 1))⟩

/-- `BsonReader::binaryValue`. -/
def binaryValue (mem : List UInt8) (r : BsonReader) : Read Span := do
  let byteSize ← i32At mem r.bufOffset
  pure ⟨r.bufOffset + 5, toSizeT byteSize⟩

/-- `BsonReader::subdocument`; `none` is the null pointer. -/
def subdocument (mem : List UInt8) (r : BsonReader) : Read (Option Span) :=
  if r.curType.isContainer then do
    let size ← i32At mem r.bufOffset
    pure (some ⟨r.bufOffset, toSizeT size⟩)
  else
    pure none

/-- `BsonReader::rawElement`; `none` is the null pointer. -/
def rawElement (mem : List UInt8) (r : BsonReader) : Read (Option Span) :=
  match r.curType with
  | elementEnd => pure (some ⟨r.elementStartOffset, 1⟩)
  | elementUnsupported | elementFormatError | elementInternalDocBegin => pure none
  | _ => do
      let count ← storedSize mem r.bufOffset r.curType
      pure (some ⟨r.elementStartOffset,
        toSizeT (wrap32 (wrap32 (r.bufOffset - r.elementStartOffset) + count))⟩)

/-- `BsonReader::boolValue`. -/
def boolValue (mem : List UInt8) (r : BsonReader) : Read Bool := do
  let b ← byteAt mem r.bufOffset
  pure (b = 0x01)

/-- `BsonReader::binaryType`. -/
def binaryType (mem : List UInt8) (r : BsonReader) : Read UInt8 :=
  byteAt mem (r.bufOffset + 4)

/-- `BsonReader::int32Value`. -/
def int32Value (mem : List UInt8) (r : BsonReader) : Read ℤ :=
  i32At mem r.bufOffset

/-- `BsonReader::int64Value`. -/
def int64Value (mem : List UInt8) (r : BsonReader) : Read ℤ := do
  let bytes ← bytesAt mem r.bufOffset 8
  pure (toI64 bytes)

/-- `BsonReader::doubleValue`, as its bit pattern. -/
def doubleValue (mem : List UInt8) (r : BsonReader) : Read ℕ := do
  let bytes ← bytesAt mem r.bufOffset 8
  pure (ofLe bytes)

/-- The overload of `BsonReader::tryGetValue` for `int32_t`. -/
def tryGetI32 (mem : List UInt8) (r : BsonReader) : Read (Option ℤ) :=
  match r.curType with
  | elementI32 => do
      let v ← r.int32Value mem
      pure (some v)
  | elementI64 => do
      let v ← r.int64Value mem
      pure (some (wrap32 v))
  | elementDouble => do
      let v ← r.doubleValue mem
      pure (some (i32OfDouble v))
  | _ => pure none

/-- `BsonReader::tryFindAndGet` for `int32_t`. -/
def tryFindAndGetI32 (mem : List UInt8) (searchKey : List UInt8) (r : BsonReader) :
    Read (Option ℤ × BsonReader) := do
  let (t, r) ← r.seekKey mem searchKey
  if t.isEndOrError then
    pure (none, r)
  else do
    let v ← r.tryGetI32 mem
    pure (v, r)

/-- `BsonReader::tryFindAndGet` for `std::string_view`. -/
def tryFindAndGetString (mem : List UInt8) (searchKey : List UInt8) (r : BsonReader) :
    Read (Option Span × BsonReader) := do
  let (t, r) ← r.seekKey mem searchKey
  if t.isEndOrError ∨ r.curType ≠ elementStr then
    pure (none, r)
  else do
    let v ← r.stringValue mem
    pure (some v, r)

end BsonReader

end ScApi
