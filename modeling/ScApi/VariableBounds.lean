import ScApi.Variables

/-!
# Which variables lie in the block of the values

The provider bounds the end of a value, by the size its type gives, with what is left of the block of
the definitions. What a reader touches is bounded by the block of the values. So the provider exposes
the right definitions exactly when these two tests agree on everything that was published.

## Main results

* `processDefinitions_cases`, `refreshDefinitions_cases`: what one refresh adds.
* `valueByteSize_eq_touchedBytes`: the types whose size is what a reader touches.
* `provided`: what a provider holds after any updates.
* `exposed_iff`: when the provider exposes exactly the definitions of the values in the block.
-/

open Bytes BoundedRead

namespace ScApi

/-! ### What a reader touches -/

/-- The size of a value of a base type. -/
def BaseType.readSize (b : BaseType) : ℕ :=
  if b = .boolean then 1 else b.byteSize

/-- The size of the word that a bit is read from; only integers have bits. -/
def BaseType.bitSize (b : BaseType) : ℕ :=
  if b = .f32 ∨ b = .f64 then 0 else b.readSize

/-- The bytes that a reader of a type touches. A string is never synchronized; an array has a
revision counter in front of its elements; other types have no reader. -/
def touchedBytes (t : DataType) : ℕ :=
  if t.baseType = .cstring then
    t.arraySize
  else if t.variant = 0 then
    t.baseType.readSize
  else if t.isBit then
    t.baseType.bitSize
  else if t.isArray ∧ t.baseType.readSize ≠ 0 then
    8 + t.baseType.readSize * t.arraySize
  else
    0

theorem BaseType.ofCode_of_le {n : ℕ} (h : 256 ≤ n) : BaseType.ofCode n = .unnamed n := by
  rw [BaseType.ofCode]
  all_goals omega

/-- **The size of a type is what its reader touches**, for numbers and for arrays of numbers. -/
theorem valueByteSize_eq_touchedBytes {t : DataType} (hvariant : t.variant = 0 ∨ t.isArray)
    (hbase : t.baseType.byteSize ≠ 0 ∨ t.baseType = .cstring) :
    t.valueByteSize = touchedBytes t := by
  have hdiv := Nat.div_add_mod t.type.toNat 256
  rcases hvariant with hvariant | harray
  · -- the whole code is the base type
    rw [DataType.variant] at hvariant
    have hcode : BaseType.ofCode t.type.toNat = t.baseType := by
      rw [DataType.baseType]
      congr 1
      omega
    rw [DataType.valueByteSize, hcode, touchedBytes, DataType.variant, if_pos hvariant]
    cases hb : t.baseType <;> simp_all [BaseType.byteSize, BaseType.readSize]
  · have hvariant : t.type.toNat / 256 = 1 := of_decide_eq_true harray
    have hcode : BaseType.ofCode t.type.toNat = .unnamed t.type.toNat :=
      BaseType.ofCode_of_le (by omega)
    have hnot : ¬t.variant = 0 := by
      rw [DataType.variant]
      omega
    have hbit : t.isBit = false := by
      rw [DataType.isBit, DataType.variant, hvariant]
      rfl
    rw [DataType.valueByteSize, hcode, touchedBytes, if_neg hnot, hbit]
    cases hb : t.baseType <;> simp_all [BaseType.byteSize, BaseType.readSize, Nat.add_comm]

namespace VariableProvider

/-! ### What is published -/

/-- The number of definitions in a block, as far as the provider reads them. -/
def publishedCount (defBlock : List UInt8) (p : VariableProvider) : ℕ :=
  min (ofLe ((defBlock.drop 20).take 4)) p.maxVariableDefCount

/-- The definitions of a block from index `i` on. -/
def publishedFrom (defBlock : List UInt8) (p : VariableProvider) (i : ℕ) : List RawDefinition :=
  (List.range' i (publishedCount defBlock p - i)).map fun k =>
    .ofBytes ((defBlock.drop (p.variableDefsStart + p.variableDefSize * k)).take
      variableDefinitionSize)

/-- How many definitions the provider has processed. -/
def processed (p : VariableProvider) : ℕ :=
  p.defChunk.elim 0 (·.processedDefCount)

/-- The definitions that the provider exposes. -/
def exposed (p : VariableProvider) : List VariableDefCopy :=
  p.defChunk.elim [] (·.defs)

/-- The test by which a definition is exposed. -/
def fits (limit : ℕ) (raw : RawDefinition) : Bool :=
  raw.valueOffset + raw.type.valueByteSize ≤ limit

theorem reading_eq_ok_iff {α : Type} {x : Read α} {a : α} : reading x = .ok a ↔ x = .ok a := by
  cases x <;> simp [reading, Except.mapError]

/-- A `uint32_t` that was read. -/
theorem eq_of_u32At {block : List UInt8} {i n : ℕ} (h : u32At block i = .ok n) :
    n = ofLe ((block.drop i).take 4) :=
  (u32At_eq_ok_iff.mp h).2

/-- What copying one definition adds. -/
theorem copyDefinition_cases {valuesStart : ℕ} {raw : RawDefinition}
    {chunk chunk' : VariableDefChunk} (h : copyDefinition valuesStart raw chunk = .ok chunk') :
    chunk'.processedDefCount = chunk.processedDefCount ∧
      chunk'.variableValuesMaxDataSize = chunk.variableValuesMaxDataSize ∧
      chunk'.defs = chunk.defs ++ ([raw].filter (fits chunk.variableValuesMaxDataSize)).map
        (VariableDefCopy.of valuesStart) := by
  rw [copyDefinition] at h
  dsimp only at h
  split_ifs at h with hchunk hlarge
  · have hfits : fits chunk.variableValuesMaxDataSize raw = false :=
      decide_eq_false (not_le.mpr hlarge)
    obtain rfl := Except.ok.inj h
    refine ⟨rfl, rfl, ?_⟩
    rw [List.filter_cons_of_neg (by rw [hfits]; decide), List.filter_nil, List.map_nil,
      List.append_nil]
  · have hfits : fits chunk.variableValuesMaxDataSize raw = true :=
      decide_eq_true (not_lt.mp hlarge)
    obtain rfl := Except.ok.inj h
    refine ⟨rfl, rfl, ?_⟩
    rw [List.filter_cons_of_pos hfits]
    rfl

/-- **What the loop adds.** -/
theorem processDefinitions_cases {defBlock : List UInt8} {p : VariableProvider} {n : ℕ}
    {chunk chunk' : VariableDefChunk}
    (h : processDefinitions defBlock p n chunk = .ok chunk') :
    chunk'.processedDefCount = chunk.processedDefCount + n ∧
      chunk'.variableValuesMaxDataSize = chunk.variableValuesMaxDataSize ∧
      chunk'.defs = chunk.defs ++ (((List.range' chunk.processedDefCount n).map fun k =>
        RawDefinition.ofBytes ((defBlock.drop (p.variableDefsStart + p.variableDefSize * k)).take
          variableDefinitionSize)).filter (fits chunk.variableValuesMaxDataSize)).map
            (VariableDefCopy.of p.variableValuesStart) := by
  induction n generalizing chunk with
  | zero =>
      obtain rfl := Except.ok.inj h
      exact ⟨rfl, rfl, (List.append_nil _).symm⟩
  | succ n ih =>
      rw [processDefinitions] at h
      obtain ⟨bytes, hbytes, h⟩ := bind_eq_ok.mp h
      obtain ⟨-, -, rfl⟩ := bytesAt_eq_ok_iff.mp (reading_eq_ok_iff.mp hbytes)
      obtain ⟨next, hcopy, h⟩ := bind_eq_ok.mp h
      obtain ⟨hprocessed, hlimit, hdefs⟩ := copyDefinition_cases hcopy
      obtain ⟨hprocessed', hlimit', hdefs'⟩ := ih h
      dsimp only at hprocessed hlimit hdefs
      refine ⟨by omega, hlimit'.trans hlimit, ?_⟩
      rw [hdefs', hdefs, hlimit, hprocessed, List.range'_succ, List.map_cons, List.append_assoc,
        ← List.map_append, ← List.filter_append, Int.toNat_natCast]
      rfl

/-- **What a refresh adds.** -/
theorem refreshDefinitions_cases {defBlock : List UInt8} {p p' : VariableProvider} {changed : Bool}
    (hheader : p.variableDefHeader = some 0)
    (h : p.refreshDefinitions defBlock = .ok (changed, p')) :
    ∃ chunk chunk', p.defChunk = some chunk ∧ p' = { p with defChunk := some chunk' } ∧
      chunk'.variableValuesMaxDataSize = chunk.variableValuesMaxDataSize ∧
      chunk'.defs = chunk.defs ++ ((publishedFrom defBlock p chunk.processedDefCount).filter
        (fits chunk.variableValuesMaxDataSize)).map (VariableDefCopy.of p.variableValuesStart) := by
  rw [refreshDefinitions, hheader] at h
  cases hchunk : p.defChunk with
  | none => simp [hchunk] at h
  | some chunk =>
      rw [hchunk] at h
      obtain ⟨count, hcount, h⟩ := bind_eq_ok.mp h
      obtain ⟨chunk', hloop, h⟩ := bind_eq_ok.mp h
      obtain ⟨-, rfl⟩ := Prod.mk.inj (Except.ok.inj h)
      obtain ⟨-, hlimit, hdefs⟩ := processDefinitions_cases hloop
      refine ⟨chunk, chunk', rfl, by rw [hheader], hlimit, ?_⟩
      rw [hdefs, publishedFrom, publishedCount, eq_of_u32At (reading_eq_ok_iff.mp hcount)]

/-! ### Providers -/

/-- The offset of the values that a block of values states. -/
def dataOffset (valueBlock : List UInt8) : ℕ :=
  ofLe ((valueBlock.drop 12).take 4)

/-- The bound that `initializeProvider` computes for the end of a value. -/
def dataLimit (defBlock valueBlock : List UInt8) : ℕ :=
  (((defBlock.length : ℤ) - dataOffset valueBlock) % 4294967296).toNat

/-- A provider that accepted two blocks and was updated from then on, with all definitions that were
published to it. The block of the definitions may have any content at each update. -/
inductive Provides (defBlock valueBlock : List UInt8) :
    List RawDefinition → VariableProvider → Prop
  | start {p₀ p : VariableProvider} (h : p₀.initializeProvider defBlock valueBlock = .ok p)
      (haccepted : p.defChunk ≠ none) :
      Provides defBlock valueBlock (publishedFrom defBlock p 0) p
  | update {published : List RawDefinition} {p p' : VariableProvider} {changed : Bool}
      (later : List UInt8) (hp : Provides defBlock valueBlock published p)
      (h : p.updateDefinitions later = .ok (changed, p')) :
      Provides defBlock valueBlock (published ++ publishedFrom later p p.processed) p'

/-- What a provider holds. -/
structure Provided (defBlock valueBlock : List UInt8) (published : List RawDefinition)
    (p : VariableProvider) : Prop where
  header : p.variableDefHeader = some 0
  valuesStart : p.variableValuesStart = dataOffset valueBlock
  limit : ∀ chunk ∈ p.defChunk, chunk.variableValuesMaxDataSize = dataLimit defBlock valueBlock
  exposed : p.exposed = (published.filter (fits (dataLimit defBlock valueBlock))).map
    (VariableDefCopy.of (dataOffset valueBlock))

/-- A refresh keeps what a provider holds. -/
theorem Provided.refresh {defBlock valueBlock later : List UInt8} {published : List RawDefinition}
    {p p' : VariableProvider} {changed : Bool} (hp : Provided defBlock valueBlock published p)
    (h : p.refreshDefinitions later = .ok (changed, p')) :
    Provided defBlock valueBlock (published ++ publishedFrom later p p.processed) p' := by
  obtain ⟨chunk, chunk', hchunk, rfl, hlimit, hdefs⟩ := refreshDefinitions_cases hp.header h
  have hbound := hp.limit chunk hchunk
  have hexposed := hp.exposed
  rw [VariableProvider.exposed, hchunk, Option.elim_some] at hexposed
  refine ⟨hp.header, hp.valuesStart, ?_, ?_⟩
  · rintro _ ⟨⟩
    exact hlimit.trans hbound
  · rw [VariableProvider.exposed, Option.elim_some, hdefs, hexposed, hbound, hp.valuesStart,
      processed, hchunk, Option.elim_some, List.filter_append, List.map_append]

/-- **What a provider holds after any updates.** -/
theorem provided {defBlock valueBlock : List UInt8} {published : List RawDefinition}
    {p : VariableProvider} (h : Provides defBlock valueBlock published p) :
    Provided defBlock valueBlock published p := by
  induction h with
  | @start p₀ p h haccepted =>
      rw [initializeProvider] at h
      obtain ⟨defSize, hdefSize, h⟩ := bind_eq_ok.mp h
      obtain ⟨defOffset, hdefOffset, h⟩ := bind_eq_ok.mp h
      obtain ⟨offset, hoffset, h⟩ := bind_eq_ok.mp h
      have hdata := eq_of_u32At (reading_eq_ok_iff.mp hoffset)
      split_ifs at h with hrejected hzero
      · obtain rfl := Except.ok.inj h
        exact absurd rfl haccepted
      · obtain ⟨⟨changed, p'⟩, hrefresh, h⟩ := bind_eq_ok.mp h
        obtain rfl := Except.ok.inj h
        -- an accepted provider starts with no definitions
        have hempty : Provided defBlock valueBlock [] {
            defChunk := some { variableValuesMaxDataSize :=
              (((defBlock.length : ℤ) - offset) % 4294967296).toNat }
            variableDefHeader := some 0
            variableDefsStart := defOffset
            variableValuesStart := offset
            variableDefSize := defSize
            maxVariableDefCount := (defBlock.length - defOffset) / defSize % 4294967296 } := by
          refine ⟨rfl, hdata, ?_, rfl⟩
          rintro _ ⟨⟩
          rw [hdata]
          rfl
        have hrefreshed := hempty.refresh hrefresh
        obtain ⟨_, chunk, _, hp, _⟩ := refreshDefinitions_cases hempty.header hrefresh
        rw [hp] at hrefreshed ⊢
        exact hrefreshed
  | update later hp h ih => exact ih.refresh h

/-! ### Values in the block -/

/-- Everything that a reader of the definition touches lies in the block. -/
def Inside (valueBlock : List UInt8) (copy : VariableDefCopy) : Prop :=
  copy.valuePtr + touchedBytes copy.type ≤ valueBlock.length

/-- The test of the provider tells of a definition whether its value lies in the block: the end of
the value, by its type's size, is within the bound taken from the block of the definitions exactly
when what a reader touches ends within the block of the values. -/
def Agrees (defBlock valueBlock : List UInt8) (raw : RawDefinition) : Prop :=
  raw.valueOffset + raw.type.valueByteSize ≤ dataLimit defBlock valueBlock ↔
    dataOffset valueBlock + raw.valueOffset + touchedBytes raw.type ≤ valueBlock.length

/-- **The provider exposes exactly the definitions whose values lie in the block** when its test
agrees on all that was published. -/
theorem exposed_iff {defBlock valueBlock : List UInt8} {published : List RawDefinition}
    {p : VariableProvider} (h : Provides defBlock valueBlock published p) :
    ((∀ copy ∈ p.exposed, Inside valueBlock copy) ∧
      ∀ raw ∈ published, Inside valueBlock (VariableDefCopy.of p.variableValuesStart raw) →
        VariableDefCopy.of p.variableValuesStart raw ∈ p.exposed) ↔
      ∀ raw ∈ published, Agrees defBlock valueBlock raw := by
  have hp := provided h
  have hmem : ∀ copy, copy ∈ p.exposed ↔ ∃ raw ∈ published,
      fits (dataLimit defBlock valueBlock) raw = true ∧
        VariableDefCopy.of (dataOffset valueBlock) raw = copy := by
    intro copy
    rw [hp.exposed, List.mem_map]
    simp only [List.mem_filter, and_assoc]
  rw [hp.valuesStart]
  constructor
  · rintro ⟨hinside, hexposed⟩ raw hraw
    constructor
    · intro hfits
      exact hinside _ ((hmem _).mpr ⟨raw, hraw, decide_eq_true hfits, rfl⟩)
    · intro hin
      obtain ⟨raw', -, hfits, hcopy⟩ := (hmem _).mp (hexposed raw hraw hin)
      -- the test only looks at what the copies share
      have hoffset : raw'.valueOffset = raw.valueOffset :=
        Nat.add_left_cancel (congrArg VariableDefCopy.valuePtr hcopy)
      have htype : raw'.type = raw.type := congrArg VariableDefCopy.type hcopy
      rw [← hoffset, ← htype]
      exact of_decide_eq_true hfits
  · intro hagrees
    constructor
    · intro copy hcopy
      obtain ⟨raw, hraw, hfits, rfl⟩ := (hmem copy).mp hcopy
      exact (hagrees raw hraw).mp (of_decide_eq_true hfits)
    · intro raw hraw hin
      exact (hmem _).mpr ⟨raw, hraw, decide_eq_true ((hagrees raw hraw).mpr hin), rfl⟩

/-- A block with the definition of one `u32` at an offset. -/
def oneDefinition (offset : ℕ) : List UInt8 :=
  toLe 4 1 ++ toLe 4 0 ++ toLe 4 96 ++ toLe 4 32 ++ toLe 4 64 ++ toLe 4 1 ++ toLe 4 0 ++ toLe 4 0
    ++ (toLe 4 0 ++ toLe 2 7 ++ toLe 2 0 ++ toLe 4 offset ++ toLe 2 0 ++ List.replicate 50 0)

/-- A block with `n` bytes of values. -/
def zeroValues (n : ℕ) : List UInt8 :=
  toLe 4 1 ++ toLe 4 0 ++ toLe 4 (24 + n) ++ toLe 4 24 ++ toLe 4 n ++ toLe 4 0
    ++ List.replicate n 0

/-- A provider that was started with these blocks. -/
def oneVariable (offset n : ℕ) : VariableProvider :=
  (({} : VariableProvider).initializeProvider (oneDefinition offset)
    (zeroValues n)).toOption.getD {}

theorem exposed_iff_one :
    (∀ copy ∈ (oneVariable 4 8).exposed, Inside (zeroValues 8) copy) ∧
      ∀ raw ∈ publishedFrom (oneDefinition 4) (oneVariable 4 8) 0,
        Inside (zeroValues 8) (VariableDefCopy.of (oneVariable 4 8).variableValuesStart raw) →
          VariableDefCopy.of (oneVariable 4 8).variableValuesStart raw
            ∈ (oneVariable 4 8).exposed := by
  have hstart : ({} : VariableProvider).initializeProvider (oneDefinition 4) (zeroValues 8)
      = .ok (oneVariable 4 8) := by decide +kernel
  refine (exposed_iff (.start hstart (by decide +kernel))).mpr ?_
  have hone : publishedFrom (oneDefinition 4) (oneVariable 4 8) 0
      = [.ofBytes ((oneDefinition 4).drop 32)] := by decide +kernel
  rw [hone]
  intro raw hraw
  obtain rfl := List.mem_singleton.mp hraw
  refine iff_of_true ?_ ?_ <;> decide +kernel

/-- **A value behind the block is exposed** when the block of the definitions is larger. -/
theorem not_exposed_iff :
    ({} : VariableProvider).initializeProvider (oneDefinition 40) (zeroValues 4)
        = .ok (oneVariable 40 4) ∧
      ∃ copy ∈ (oneVariable 40 4).exposed, ¬Inside (zeroValues 4) copy := by
  refine ⟨by decide +kernel, ⟨64, ⟨7, 0⟩, 0, 0, []⟩, by decide +kernel, ?_⟩
  rw [Inside]
  decide +kernel

/-- The tests agree for numbers and arrays of numbers when the blocks have one size. -/
theorem agrees_of_length_eq {defBlock valueBlock : List UInt8} {raw : RawDefinition}
    (hlength : defBlock.length = valueBlock.length) (hsize : valueBlock.length < 4294967296)
    (hoffset : dataOffset valueBlock ≤ valueBlock.length)
    (hvariant : raw.type.variant = 0 ∨ raw.type.isArray)
    (hbase : raw.type.baseType.byteSize ≠ 0 ∨ raw.type.baseType = .cstring) :
    Agrees defBlock valueBlock raw := by
  rw [Agrees, dataLimit, hlength, valueByteSize_eq_touchedBytes hvariant hbase]
  omega

end VariableProvider

end ScApi
