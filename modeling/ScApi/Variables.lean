import ScApi.Lib.BoundedRead
import ScApi.Types

/-!
# Variables in shared memory

Two blocks of shared memory hold the variables: one has a table of definitions, which only grows, the
other one the values. `VariableProvider` copies the definitions that it has not processed yet and
keeps those whose values it takes to lie in the block of the values. It stops where the program would
read outside the block of the definitions, divide by zero or store past the last chunk.

A pointer to a value is its offset in the block of the values.
-/

open Bytes BoundedRead

namespace ScApi

/-! ### The provider -/

/-- Why the provider stops. -/
inductive ProviderStop where
  | read (stop : Stop)
  | divisionByZero
  | chunkOutOfBounds (chunk : ℕ)
  deriving DecidableEq, Repr

/-- A computation of the provider. -/
abbrev Provide (α : Type) := Except ProviderStop α

/-- A read as a part of such a computation. -/
def reading {α : Type} (x : Read α) : Provide α :=
  x.mapError .read

/-- The `uint32_t` at an index of a block. -/
def u32At (block : List UInt8) (i : ℕ) : Read ℕ := do
  let bytes ← bytesAt block i 4
  pure (ofLe bytes)

theorem u32At_eq_ok_iff {block : List UInt8} {i n : ℕ} :
    u32At block i = .ok n ↔ i + 4 ≤ block.length ∧ n = ofLe ((block.drop i).take 4) := by
  constructor
  · intro h
    obtain ⟨bytes, hbytes, hn⟩ := bind_eq_ok.mp h
    obtain ⟨-, hle, rfl⟩ := bytesAt_eq_ok_iff.mp hbytes
    exact ⟨by exact_mod_cast hle, (Except.ok.inj hn).symm⟩
  · rintro ⟨hle, rfl⟩
    exact bind_eq_ok.mpr ⟨_, bytesAt_eq_ok_iff.mpr ⟨by omega, by exact_mod_cast hle, rfl⟩, rfl⟩

/-- `sizeof(SC_API_PROTOCOL_VariableDefinition_t)`. -/
def variableDefinitionSize : ℕ := 64

/-- An `SC_API_PROTOCOL_VariableDefinition_t`. -/
structure RawDefinition where
  flags : ℕ
  type : DataType
  valueOffset : ℕ
  deviceSessionId : UInt16
  name : List UInt8
  deriving DecidableEq, Repr

/-- The struct with the given bytes. -/
def RawDefinition.ofBytes (bytes : List UInt8) : RawDefinition where
  flags := ofLe (bytes.take 4)
  type := {
    type := UInt16.ofNat (ofLe ((bytes.drop 4).take 2))
    variantData := UInt16.ofNat (ofLe ((bytes.drop 6).take 2)) }
  valueOffset := ofLe ((bytes.drop 8).take 4)
  deviceSessionId := UInt16.ofNat (ofLe ((bytes.drop 12).take 2))
  name := (bytes.drop 14).take 50

/-- A `VariableDefCopy`, with its name up to the NUL byte that is written over the last one. -/
structure VariableDefCopy where
  valuePtr : ℕ
  type : DataType
  flags : ℕ
  deviceSessionId : UInt16
  name : List UInt8
  deriving DecidableEq, Repr

/-- The copy of a definition. -/
def VariableDefCopy.of (valuesStart : ℕ) (raw : RawDefinition) : VariableDefCopy where
  valuePtr := valuesStart + raw.valueOffset
  type := raw.type
  flags := raw.flags
  deviceSessionId := raw.deviceSessionId
  name := (raw.name.take 49).takeWhile (· ≠ 0)

/-- A `VariableDefChunk`. The entries of its chunks are one list, and `def_count` is its length; a
pointer to an entry is its index. -/
structure VariableDefChunk where
  variableValuesMaxDataSize : ℕ := 0
  defs : List VariableDefCopy := []
  processedDefCount : ℕ := 0
  searchMap : List ℕ := []
  deriving DecidableEq, Repr

/-- `k_definitions_in_chunk`. -/
def definitionsInChunk : ℕ := 1024

/-- `k_chunk_count`. -/
def chunkCount : ℕ := 32

/-- `VariableDefChunk::searchMapSortCmp`. -/
def searchMapSortCmp (a b : VariableDefCopy) : Bool :=
  if a.deviceSessionId < b.deviceSessionId then
    true
  else if a.deviceSessionId > b.deviceSessionId then
    false
  else
    a.name < b.name

/-- The search map with the last entry inserted where `std::lower_bound` finds it. -/
def insertLast (defs : List VariableDefCopy) (var : VariableDefCopy) (searchMap : List ℕ) : List ℕ :=
  let isBefore := fun i => (defs[i]?).any (searchMapSortCmp · var)
  searchMap.takeWhile isBefore ++ defs.length :: searchMap.dropWhile isBefore

/-- A `VariableProvider`. The pointers into the blocks are offsets; `variableDefHeader` is null until
a block was accepted. -/
structure VariableProvider where
  defChunk : Option VariableDefChunk := none
  variableDefHeader : Option ℕ := none
  variableDefsStart : ℕ := 0
  variableValuesStart : ℕ := 0
  variableDefSize : ℕ := 0
  maxVariableDefCount : ℕ := 0
  deriving DecidableEq, Repr

namespace VariableProvider

/-- `copy_definition`. -/
def copyDefinition (valuesStart : ℕ) (raw : RawDefinition) (chunk : VariableDefChunk) :
    Provide VariableDefChunk :=
  let index := chunk.defs.length / definitionsInChunk
  if chunkCount ≤ index then
    throw (.chunkOutOfBounds index)
  else
    let copy := VariableDefCopy.of valuesStart raw
    if raw.valueOffset + copy.type.valueByteSize > chunk.variableValuesMaxDataSize then
      pure chunk
    else
      pure { chunk with
        defs := chunk.defs ++ [copy]
        searchMap := insertLast chunk.defs copy chunk.searchMap }

/-- The loop of `refreshDefinitions` over `n` more definitions. -/
def processDefinitions (defBlock : List UInt8) (p : VariableProvider) :
    ℕ → VariableDefChunk → Provide VariableDefChunk
  | 0, chunk => pure chunk
  | n + 1, chunk => do
      let i := chunk.processedDefCount
      let bytes ← reading (bytesAt defBlock (p.variableDefsStart + p.variableDefSize * i : ℕ)
        variableDefinitionSize)
      let chunk := { chunk with processedDefCount := i + 1 }
      let chunk ← copyDefinition p.variableValuesStart (.ofBytes bytes) chunk
      processDefinitions defBlock p n chunk

/-- `VariableProvider::refreshDefinitions`: whether there are new definitions, and the state it
leaves. -/
def refreshDefinitions (defBlock : List UInt8) (p : VariableProvider) :
    Provide (Bool × VariableProvider) := do
  match p.variableDefHeader, p.defChunk with
  | some header, some chunk => do
      let count ← reading (u32At defBlock (header + 20))
      let count := min count p.maxVariableDefCount
      let n := count - chunk.processedDefCount
      let chunk' ← processDefinitions defBlock p n chunk
      pure (chunk.processedDefCount < count, { p with defChunk := some chunk' })
  | _, _ => throw (.read .nullPointer)

/-- `VariableProvider::updateDefinitions`. -/
def updateDefinitions (defBlock : List UInt8) (p : VariableProvider) :
    Provide (Bool × VariableProvider) :=
  p.refreshDefinitions defBlock

/-- `VariableProvider::initialize`. The bound for the values is taken from the size of the block of
the definitions. -/
def initializeProvider (defBlock valueBlock : List UInt8) (p : VariableProvider) :
    Provide VariableProvider := do
  let defSize ← reading (u32At defBlock 16)
  let defOffset ← reading (u32At defBlock 12)
  let dataOffset ← reading (u32At valueBlock 12)
  if defOffset ≥ defBlock.length ∨ dataOffset ≥ valueBlock.length then
    pure { p with defChunk := none, variableDefSize := defSize }
  else if defSize = 0 then
    throw .divisionByZero
  else do
    let chunk := { variableValuesMaxDataSize :=
      (((defBlock.length : ℤ) - dataOffset) % 4294967296).toNat }
    let p := { p with
      defChunk := some chunk
      variableDefHeader := some 0
      variableDefsStart := defOffset
      variableValuesStart := dataOffset
      variableDefSize := defSize
      maxVariableDefCount := (defBlock.length - defOffset) / defSize % 4294967296 }
    let (_, p) ← p.refreshDefinitions defBlock
    pure p

end VariableProvider

end ScApi
