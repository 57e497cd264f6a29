import ScApi.VariableSnapshots

/-!
# What the variable provider reads and stores

The number of definitions that the provider reads is bounded by how many entries of the stated size
lie in the block. It reads 64 bytes of each of them, whatever size was stated, divides by the stated
size, and stores those that fit in 32 chunks of 1024 entries.

## Main results

* `processDefinitions_ok_iff`, `updateDefinitions_ok_iff`: when a refresh reads inside the block and
  stores in the chunks.
* `reads_inside_iff`: the same for a provider over all its updates.
-/

open Bytes BoundedRead

namespace ScApi

namespace VariableProvider

variable {p p₀ p' : VariableProvider} {defBlock valueBlock : List UInt8} {chunk : VariableDefChunk}

/-- The definition with an index. -/
def definitionAt (defBlock : List UInt8) (p : VariableProvider) (k : ℕ) : RawDefinition :=
  .ofBytes ((defBlock.drop (p.variableDefsStart + p.variableDefSize * k)).take variableDefinitionSize)

/-- The struct that is read for an index lies in the block. -/
def EndsInside (defBlock : List UInt8) (p : VariableProvider) (k : ℕ) : Prop :=
  p.variableDefsStart + p.variableDefSize * k + variableDefinitionSize ≤ defBlock.length

instance (k : ℕ) : Decidable (EndsInside defBlock p k) :=
  inferInstanceAs (Decidable (_ ≤ _))

theorem EndsInside.mono {i k : ℕ} (h : EndsInside defBlock p k) (hi : i ≤ k) :
    EndsInside defBlock p i := by
  have hmul : p.variableDefSize * i ≤ p.variableDefSize * k := Nat.mul_le_mul_left _ hi
  rw [EndsInside] at h ⊢
  omega

/-- How many of `n` definitions from an index on are stored. -/
def fitting (defBlock : List UInt8) (p : VariableProvider) (limit i n : ℕ) : ℕ :=
  (List.range' i n).countP fun k => fits limit (definitionAt defBlock p k)

theorem fitting_succ (limit i n : ℕ) : fitting defBlock p limit i (n + 1)
    = fitting defBlock p limit (i + 1) n
      + ([definitionAt defBlock p i].filter (fits limit)).length := by
  rw [fitting, List.range'_succ, List.countP_cons, ← List.countP_eq_length_filter,
    List.countP_singleton]
  rfl

theorem fitting_le (limit i n : ℕ) : fitting defBlock p limit i n ≤ n := by
  have hle := List.countP_le_length (p := fun k => fits limit (definitionAt defBlock p k))
    (l := List.range' i n)
  rwa [List.length_range'] at hle

/-! ### Refreshes -/

theorem copyDefinition_ok_iff {valuesStart : ℕ} {raw : RawDefinition} :
    (∃ chunk', copyDefinition valuesStart raw chunk = .ok chunk') ↔ chunk.defs.length < 32768 := by
  have hchunks : chunkCount ≤ chunk.defs.length / definitionsInChunk ↔
      ¬chunk.defs.length < 32768 := by
    rw [chunkCount, definitionsInChunk]
    omega
  rw [copyDefinition]
  dsimp only
  split_ifs with hfull hlarge
  · refine iff_of_false ?_ (hchunks.mp hfull)
    rintro ⟨_, ⟨⟩⟩
  · exact iff_of_true ⟨_, rfl⟩ (not_not.mp fun hnot => hfull (hchunks.mpr hnot))
  · exact iff_of_true ⟨_, rfl⟩ (not_not.mp fun hnot => hfull (hchunks.mpr hnot))

theorem bytesAt_ok_iff {block : List UInt8} {i n : ℕ} :
    (∃ bytes, reading (bytesAt block i n) = .ok bytes) ↔ i + n ≤ block.length := by
  constructor
  · rintro ⟨bytes, h⟩
    obtain ⟨-, hle, -⟩ := bytesAt_eq_ok_iff.mp (reading_eq_ok_iff.mp h)
    exact_mod_cast hle
  · intro h
    exact ⟨_, reading_eq_ok_iff.mpr (bytesAt_eq_ok_iff.mpr ⟨by omega, by exact_mod_cast h, rfl⟩)⟩

/-- **When the loop goes to its end**: the last struct lies in the block, and there is room for it if
it has to be stored. -/
theorem processDefinitions_ok_iff {n : ℕ} :
    (∃ chunk', processDefinitions defBlock p n chunk = .ok chunk') ↔ (n ≠ 0 →
      EndsInside defBlock p (chunk.processedDefCount + (n - 1)) ∧
      chunk.defs.length + fitting defBlock p chunk.variableValuesMaxDataSize
        chunk.processedDefCount (n - 1) < 32768) := by
  induction n generalizing chunk with
  | zero => exact iff_of_true ⟨chunk, rfl⟩ fun h => absurd rfl h
  | succ n ih =>
      have hread : (∃ bytes, reading (bytesAt defBlock (p.variableDefsStart
          + p.variableDefSize * chunk.processedDefCount : ℕ) variableDefinitionSize) = .ok bytes) ↔
            EndsInside defBlock p chunk.processedDefCount := bytesAt_ok_iff
      -- what is known of the storage behind the first of the definitions
      have hnext : ∀ {bytes next}, reading (bytesAt defBlock (p.variableDefsStart
          + p.variableDefSize * chunk.processedDefCount : ℕ) variableDefinitionSize) = .ok bytes →
          copyDefinition p.variableValuesStart (.ofBytes bytes)
            { chunk with processedDefCount := chunk.processedDefCount + 1 } = .ok next →
          next.processedDefCount = chunk.processedDefCount + 1 ∧
            ∀ m, next.defs.length + fitting defBlock p next.variableValuesMaxDataSize
              next.processedDefCount m = chunk.defs.length + fitting defBlock p
                chunk.variableValuesMaxDataSize chunk.processedDefCount (m + 1) := by
        intro bytes next hbytes hcopy
        obtain ⟨-, -, rfl⟩ := bytesAt_eq_ok_iff.mp (reading_eq_ok_iff.mp hbytes)
        obtain ⟨hprocessed, hlimit, hdefs⟩ := copyDefinition_cases hcopy
        refine ⟨hprocessed, fun m => ?_⟩
        rw [hprocessed, hlimit, hdefs, List.length_append, List.length_map, fitting_succ,
          definitionAt, Int.toNat_natCast]
        dsimp only
        omega
      rw [Nat.add_sub_cancel, processDefinitions]
      constructor
      · rintro ⟨chunk', h⟩ -
        obtain ⟨bytes, hbytes, h⟩ := bind_eq_ok.mp h
        obtain ⟨next, hcopy, h⟩ := bind_eq_ok.mp h
        obtain ⟨hprocessed, hcount⟩ := hnext hbytes hcopy
        have hlast := ih.mp ⟨chunk', h⟩
        cases n with
        | zero =>
            have hroom := copyDefinition_ok_iff.mp ⟨next, hcopy⟩
            exact ⟨hread.mp ⟨bytes, hbytes⟩, hroom⟩
        | succ n =>
            obtain ⟨hinside, hroom⟩ := hlast n.succ_ne_zero
            rw [Nat.add_sub_cancel, hcount] at hroom
            rw [hprocessed, Nat.add_sub_cancel] at hinside
            exact ⟨Nat.add_right_comm chunk.processedDefCount 1 n ▸ hinside, hroom⟩
      · intro h
        obtain ⟨hinside, hroom⟩ := h n.succ_ne_zero
        obtain ⟨bytes, hbytes⟩ := hread.mpr (hinside.mono (Nat.le_add_right _ _))
        obtain ⟨next, hcopy⟩ : ∃ next, copyDefinition p.variableValuesStart (.ofBytes bytes)
            { chunk with processedDefCount := chunk.processedDefCount + 1 } = .ok next :=
          copyDefinition_ok_iff.mpr (lt_of_le_of_lt (Nat.le_add_right _ _) hroom)
        obtain ⟨hprocessed, hcount⟩ := hnext hbytes hcopy
        obtain ⟨chunk', hloop⟩ : ∃ chunk', processDefinitions defBlock p n next = .ok chunk' := by
          refine ih.mpr fun hn => ?_
          obtain ⟨m, rfl⟩ := Nat.exists_eq_succ_of_ne_zero hn
          rw [Nat.succ_sub_one, hcount, hprocessed]
          exact ⟨Nat.add_right_comm chunk.processedDefCount 1 m ▸ hinside, hroom⟩
        exact ⟨chunk', bind_eq_ok.mpr ⟨bytes, hbytes, bind_eq_ok.mpr ⟨next, hcopy, hloop⟩⟩⟩

theorem u32At_ok_iff {block : List UInt8} {i : ℕ} :
    (∃ n, reading (u32At block i) = .ok n) ↔ i + 4 ≤ block.length := by
  constructor
  · rintro ⟨n, h⟩
    exact (u32At_eq_ok_iff.mp (reading_eq_ok_iff.mp h)).1
  · intro h
    exact ⟨_, reading_eq_ok_iff.mpr (u32At_eq_ok_iff.mpr ⟨h, rfl⟩)⟩

/-- `variable_values_max_data_size`. -/
def limit (p : VariableProvider) : ℕ :=
  p.defChunk.elim 0 (·.variableValuesMaxDataSize)

/-- **What a refresh needs**: the block has its header, and if there are definitions that were not
processed, the struct of the last one lies in the block and there is room for it. -/
def Reads (p : VariableProvider) (defBlock : List UInt8) : Prop :=
  24 ≤ defBlock.length ∧ (p.processed < publishedCount defBlock p →
    EndsInside defBlock p (publishedCount defBlock p - 1) ∧
    p.exposed.length + fitting defBlock p p.limit p.processed
      (publishedCount defBlock p - 1 - p.processed) < 32768)

instance : Decidable (Reads p defBlock) :=
  inferInstanceAs (Decidable (_ ∧ (_ → _)))

/-- **When a refresh reads inside the block** and stores in the chunks. -/
theorem updateDefinitions_ok_iff (hheader : p.variableDefHeader = some 0)
    (hchunk : p.defChunk.isSome) :
    (∃ r, p.updateDefinitions defBlock = .ok r) ↔ Reads p defBlock := by
  obtain ⟨chunk, hchunk⟩ := Option.isSome_iff_exists.mp hchunk
  have hloop := @processDefinitions_ok_iff p defBlock chunk
    (publishedCount defBlock p - chunk.processedDefCount)
  have hcount : ∀ count, reading (u32At defBlock 20) = .ok count →
      min count p.maxVariableDefCount = publishedCount defBlock p := fun count h => by
    rw [publishedCount, eq_of_u32At (reading_eq_ok_iff.mp h)]
  have hlast : chunk.processedDefCount < publishedCount defBlock p → chunk.processedDefCount
      + (publishedCount defBlock p - chunk.processedDefCount - 1) = publishedCount defBlock p - 1 := by
    omega
  rw [Reads, processed, exposed, limit, hchunk, Option.elim_some, Option.elim_some, Option.elim_some,
    updateDefinitions, refreshDefinitions, hheader, hchunk]
  constructor
  · rintro ⟨r, h⟩
    obtain ⟨count, hread, h⟩ := bind_eq_ok.mp h
    obtain ⟨chunk', hrun, -⟩ := bind_eq_ok.mp h
    rw [hcount count hread] at hrun
    refine ⟨u32At_ok_iff.mp ⟨count, hread⟩, fun hlt => ?_⟩
    obtain ⟨hinside, hroom⟩ := hloop.mp ⟨chunk', hrun⟩ (by omega)
    rw [hlast hlt] at hinside
    rw [Nat.sub_right_comm] at hroom
    exact ⟨hinside, hroom⟩
  · rintro ⟨hheader, hmore⟩
    obtain ⟨count, hread⟩ := (@u32At_ok_iff defBlock 20).mpr hheader
    obtain ⟨chunk', hrun⟩ := hloop.mpr fun hne => by
      obtain ⟨hinside, hroom⟩ := hmore (by omega)
      rw [hlast (by omega), Nat.sub_right_comm]
      exact ⟨hinside, hroom⟩
    rw [← hcount count hread] at hrun
    exact ⟨_, bind_eq_ok.mpr ⟨count, hread, bind_eq_ok.mpr ⟨chunk', hrun, rfl⟩⟩⟩

/-! ### Providers -/

/-- **Two blocks that the provider accepts**: they have their headers, and the offsets that these
state lie in the blocks. -/
def Accepts (defBlock valueBlock : List UInt8) : Prop :=
  20 ≤ defBlock.length ∧ 16 ≤ valueBlock.length ∧
    ofLe ((defBlock.drop 12).take 4) < defBlock.length ∧ dataOffset valueBlock < valueBlock.length

instance : Decidable (Accepts defBlock valueBlock) :=
  inferInstanceAs (Decidable (_ ∧ _ ∧ _ ∧ _))

/-- The size of a definition that a block states. -/
def definitionSize (defBlock : List UInt8) : ℕ :=
  ofLe ((defBlock.drop 16).take 4)

/-- The provider before it reads the first definitions of two blocks. -/
def accepted (defBlock valueBlock : List UInt8) : VariableProvider where
  defChunk := some { variableValuesMaxDataSize := dataLimit defBlock valueBlock }
  variableDefHeader := some 0
  variableDefsStart := ofLe ((defBlock.drop 12).take 4)
  variableValuesStart := dataOffset valueBlock
  variableDefSize := definitionSize defBlock
  maxVariableDefCount := (defBlock.length - ofLe ((defBlock.drop 12).take 4))
    / definitionSize defBlock % 4294967296

/-- The provider of two blocks that it accepts. -/
theorem initializeProvider_eq (h : Accepts defBlock valueBlock) :
    p₀.initializeProvider defBlock valueBlock = if definitionSize defBlock = 0 then
        .error .divisionByZero
      else ((accepted defBlock valueBlock).refreshDefinitions defBlock).map Prod.snd := by
  obtain ⟨hdef, hvalue, hdefOffset, hdataOffset⟩ := h
  have hread : ∀ {block : List UInt8} {i : ℕ}, i + 4 ≤ block.length →
      reading (u32At block i) = .ok (ofLe ((block.drop i).take 4)) := by
    intro block i hi
    obtain ⟨n, hn⟩ := u32At_ok_iff.mpr hi
    rw [hn, eq_of_u32At (reading_eq_ok_iff.mp hn)]
  rw [initializeProvider, hread hdef, hread (show 12 + 4 ≤ defBlock.length by omega), hread hvalue]
  change (if _ then _ else _) = _
  rw [if_neg (by rw [not_or]; exact ⟨not_le.mpr hdefOffset, not_le.mpr hdataOffset⟩)]
  by_cases hzero : definitionSize defBlock = 0
  · rw [if_pos hzero]
    exact if_pos hzero
  · rw [if_neg hzero]
    refine (if_neg hzero).trans ?_
    change (accepted defBlock valueBlock).refreshDefinitions defBlock >>= (fun r => pure r.2) = _
    cases (accepted defBlock valueBlock).refreshDefinitions defBlock <;> rfl

/-- What the provider keeps over its updates. -/
theorem started (h : Accepts defBlock valueBlock)
    (hp : p₀.initializeProvider defBlock valueBlock = .ok p) :
    p.variableDefHeader = some 0 ∧ p.defChunk.isSome := by
  rw [initializeProvider_eq h] at hp
  split_ifs at hp with hzero
  cases hrefresh : (accepted defBlock valueBlock).refreshDefinitions defBlock with
  | error stop => rw [hrefresh] at hp; exact nomatch hp
  | ok r =>
      obtain ⟨changed, q⟩ := r
      rw [hrefresh] at hp
      obtain rfl : q = p := Except.ok.inj hp
      obtain ⟨_, chunk', -, rfl, -⟩ := refreshDefinitions_cases (by rfl) hrefresh
      exact ⟨rfl, rfl⟩

theorem updateStep_isSome_iff (hheader : p.variableDefHeader = some 0) (hchunk : p.defChunk.isSome) :
    (∃ q, p.updateStep defBlock = some q) ↔ Reads p defBlock := by
  rw [← updateDefinitions_ok_iff hheader hchunk]
  constructor
  · rintro ⟨q, h⟩
    obtain ⟨changed, h⟩ := updateStep_eq_some.mp h
    exact ⟨(changed, q), h⟩
  · rintro ⟨⟨changed, q⟩, h⟩
    exact ⟨q, updateStep_eq_some.mpr ⟨changed, h⟩⟩

theorem updates_ok_iff (hheader : p.variableDefHeader = some 0) (hchunk : p.defChunk.isSome)
    (later : List (List UInt8)) :
    (∃ q, Runs.exec updateStep p later = some q) ↔ Runs.Meets updateStep Reads p later := by
  induction later generalizing p with
  | nil => exact iff_of_true ⟨p, rfl⟩ trivial
  | cons block later ih =>
      have hnext : ∀ {q}, p.updateStep block = some q →
          q.variableDefHeader = some 0 ∧ q.defChunk.isSome := by
        intro q hq
        obtain ⟨changed, hupdate⟩ := updateStep_eq_some.mp hq
        obtain ⟨_, chunk', -, rfl, -⟩ := refreshDefinitions_cases hheader hupdate
        exact ⟨hheader, rfl⟩
      constructor
      · rintro ⟨r, h⟩
        obtain ⟨q, hq, hrun⟩ := Runs.exec_cons.mp h
        have hreads := (updateStep_isSome_iff hheader hchunk).mp ⟨q, hq⟩
        exact .cons hq hreads ((ih (hnext hq).1 (hnext hq).2).mp ⟨r, hrun⟩)
      · rintro ⟨hreads, hlater⟩
        obtain ⟨q, hq⟩ := (updateStep_isSome_iff hheader hchunk).mpr hreads
        obtain ⟨r, hrun⟩ := (ih (hnext hq).1 (hnext hq).2).mpr (hlater q hq)
        exact ⟨r, Runs.exec_cons.mpr ⟨q, hq, hrun⟩⟩

/-- **When a provider reads inside the block** over all its updates, divides by no zero and stores in
its chunks: the stated size is not zero, and every refresh has what it needs. -/
theorem reads_inside_iff (h : Accepts defBlock valueBlock) (p₀ : VariableProvider)
    (later : List (List UInt8)) :
    (∃ p q, p₀.initializeProvider defBlock valueBlock = .ok p ∧
        Runs.exec updateStep p later = some q) ↔
      definitionSize defBlock ≠ 0 ∧ Reads (accepted defBlock valueBlock) defBlock ∧
        ∀ p, p₀.initializeProvider defBlock valueBlock = .ok p →
          Runs.Meets updateStep Reads p later := by
  have hfirst := @updateDefinitions_ok_iff (accepted defBlock valueBlock) defBlock rfl rfl
  constructor
  · rintro ⟨p, q, hp, hrun⟩
    have hstart := started h hp
    have hmeets := (updates_ok_iff hstart.1 hstart.2 later).mp ⟨q, hrun⟩
    have hsame := hp
    rw [initializeProvider_eq h] at hp
    split_ifs at hp with hzero
    refine ⟨hzero, hfirst.mp ?_, fun p' hp' => ?_⟩
    · rw [updateDefinitions]
      cases hrefresh : (accepted defBlock valueBlock).refreshDefinitions defBlock with
      | error stop =>
          rw [hrefresh] at hp
          cases hp
      | ok r => exact ⟨r, rfl⟩
    · obtain rfl : p = p' := Except.ok.inj (hsame.symm.trans hp')
      exact hmeets
  · rintro ⟨hzero, hreads, hmeets⟩
    obtain ⟨⟨changed, p⟩, hrefresh⟩ := hfirst.mpr hreads
    have hp : p₀.initializeProvider defBlock valueBlock = .ok p := by
      rw [initializeProvider_eq h, if_neg hzero]
      rw [updateDefinitions] at hrefresh
      rw [hrefresh]
      rfl
    have hstart := started h hp
    obtain ⟨q, hrun⟩ := (updates_ok_iff hstart.1 hstart.2 later).mpr (hmeets p hp)
    exact ⟨p, q, hp, hrun⟩

theorem reads_inside_two :
    ∃ p q, ({} : VariableProvider).initializeProvider (twoDefinitions 1) (zeroValues 8) = .ok p ∧
      Runs.exec updateStep p [twoDefinitions 2] = some q := by
  have haccepts : Accepts (twoDefinitions 1) (zeroValues 8) := by decide +kernel
  refine (reads_inside_iff haccepts {} [twoDefinitions 2]).mpr
    ⟨by decide +kernel, by decide +kernel, fun p hp => ?_⟩
  have hone : ({} : VariableProvider).initializeProvider (twoDefinitions 1) (zeroValues 8)
      = .ok oneOfTwo := by decide +kernel
  obtain rfl : oneOfTwo = p := Except.ok.inj (hone.symm.trans hp)
  decide +kernel

/-- A block with one definition that states another size and another count. -/
def misstated (size count : ℕ) : List UInt8 :=
  toLe 4 1 ++ toLe 4 0 ++ toLe 4 96 ++ toLe 4 32 ++ toLe 4 size ++ toLe 4 count ++ toLe 4 0
    ++ toLe 4 0 ++ deviceDefinition 1 0

/-- **Blocks are accepted** that make the provider divide by zero or read outside. -/
theorem not_reads_inside :
    Accepts (misstated 0 1) (zeroValues 8) ∧
      ({} : VariableProvider).initializeProvider (misstated 0 1) (zeroValues 8)
        = .error .divisionByZero ∧
      Accepts (misstated 32 2) (zeroValues 8) ∧
      (({} : VariableProvider).initializeProvider (misstated 32 2) (zeroValues 8)).toOption = none := by
  decide +kernel

end VariableProvider

end ScApi
