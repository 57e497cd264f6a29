import ScApi.Lib.Related
import ScApi.Lib.Runs
import ScApi.Lib.Sorting
import ScApi.VariableReads

/-!
# How the variable definitions are stored

The entries lie in 32 chunks of 1024 slots, which are allocated when they are first needed, so that
an entry never moves. The next free slot is filled before the value is found to lie in the block, so a
definition that is rejected leaves its slot half written, and the next one is written over it. The
search map has pointers to the slots, in the order of devices and names.

This module models the storage with its slots, shows that `VariableDefChunk` is what it stands for, and
follows it through any number of refreshes.

## Main results

* `Represents.refreshDefinitions`: the storage does what the list of entries does.
* `refreshDefinitions_growing`: what is stored after any refreshes on a table that grows.
-/

open Bytes BoundedRead Relating Sorting

namespace ScApi

/-! ### Slots -/

/-- A `VariableDefCopy` where it is stored; a new chunk is filled with zeros. -/
structure VariableSlot where
  valuePtr : Option ℕ := none
  type : DataType := .ofBase .invalid
  flags : ℕ := 0
  deviceSessionId : UInt16 := 0
  name : List UInt8 := List.replicate 50 0
  deriving DecidableEq, Repr

/-- `VariableDefCopy::getName`. -/
def VariableSlot.getName (slot : VariableSlot) : List UInt8 :=
  slot.name.takeWhile (· ≠ 0)

/-- The entry that a slot holds once its value is known. -/
def VariableSlot.entry (slot : VariableSlot) : Option VariableDefCopy :=
  slot.valuePtr.map fun valuePtr =>
    { valuePtr, type := slot.type, flags := slot.flags, deviceSessionId := slot.deviceSessionId,
      name := slot.getName }

/-- A `VariableDefChunk` with its 32 chunks. A pointer to a slot is its number, counted through all
chunks. -/
structure ChunkedDefs where
  variableValuesMaxDataSize : ℕ := 0
  defs : ℕ → Option (ℕ → VariableSlot) := fun _ => none
  defCount : ℕ := 0
  processedDefCount : ℕ := 0
  searchMap : List ℕ := []

namespace ChunkedDefs

/-- `VariableDefChunk::getDefByIdx`; `none` where its assertion fails. -/
def getDefByIdx (s : ChunkedDefs) (idx : ℕ) : Option VariableSlot :=
  (s.defs (idx / definitionsInChunk)).map (· (idx % definitionsInChunk))

/-- The entry with the given number. -/
def entryAt (s : ChunkedDefs) (idx : ℕ) : Option VariableDefCopy :=
  (s.getDefByIdx idx).bind VariableSlot.entry

/-- `VariableDefChunk::searchMapSortCmp`. -/
def searchMapSortCmp (a b : VariableSlot) : Bool :=
  if a.deviceSessionId < b.deviceSessionId then
    true
  else if a.deviceSessionId > b.deviceSessionId then
    false
  else
    a.getName < b.getName

/-- One slot is written. Its chunk is allocated if that was not done before. -/
def store (s : ChunkedDefs) (i : ℕ) (copy : VariableSlot) : ChunkedDefs :=
  let slots := (s.defs (i / definitionsInChunk)).getD fun _ => {}
  let slots := Function.update slots (i % definitionsInChunk) copy
  { s with defs := Function.update s.defs (i / definitionsInChunk) (some slots) }

/-- `copy_definition`: a pointer to the slot, or the null pointer for a definition that is ignored. -/
def copyDefinition (valuesStart : ℕ) (raw : RawDefinition) (s : ChunkedDefs) :
    Provide (Option ℕ × ChunkedDefs) :=
  let chunk := s.defCount / definitionsInChunk
  if chunkCount ≤ chunk then
    throw (.chunkOutOfBounds chunk)
  else
    -- the last byte of the name is overwritten with a NUL
    let copy := { (s.getDefByIdx s.defCount).getD {} with
      deviceSessionId := raw.deviceSessionId
      flags := raw.flags
      name := raw.name.take 49 ++ [0]
      type := raw.type }
    if raw.valueOffset + copy.type.valueByteSize > s.variableValuesMaxDataSize then
      pure (none, s.store s.defCount copy)
    else
      let copy := { copy with valuePtr := some (valuesStart + raw.valueOffset) }
      pure (some s.defCount, { s.store s.defCount copy with defCount := s.defCount + 1 })

/-- The search map with a slot inserted where `std::lower_bound` finds it. -/
def insertSorted (s : ChunkedDefs) (var : ℕ) : List ℕ :=
  let isBefore := fun i => (s.getDefByIdx i).any fun slot =>
    (s.getDefByIdx var).any fun copy => searchMapSortCmp slot copy
  s.searchMap.takeWhile isBefore ++ var :: s.searchMap.dropWhile isBefore

/-- The loop of `refreshDefinitions` over `n` more definitions. -/
def processDefinitions (defBlock : List UInt8) (p : VariableProvider) :
    ℕ → ChunkedDefs → Provide ChunkedDefs
  | 0, s => pure s
  | n + 1, s => do
      let i := s.processedDefCount
      let bytes ← reading (bytesAt defBlock (p.variableDefsStart + p.variableDefSize * i : ℕ)
        variableDefinitionSize)
      let s := { s with processedDefCount := i + 1 }
      let (var, s) ← copyDefinition p.variableValuesStart (.ofBytes bytes) s
      match var with
      | some var => processDefinitions defBlock p n { s with searchMap := s.insertSorted var }
      | none => processDefinitions defBlock p n s

/-- `VariableProvider::refreshDefinitions` of a provider that stores its entries here. -/
def refreshDefinitions (defBlock : List UInt8) (p : VariableProvider) (s : ChunkedDefs) :
    Provide (Bool × ChunkedDefs) := do
  match p.variableDefHeader with
  | none => throw (.read .nullPointer)
  | some header => do
      let count ← reading (u32At defBlock (header + 20))
      let count := min count p.maxVariableDefCount
      let s' ← processDefinitions defBlock p (count - s.processedDefCount) s
      pure (s.processedDefCount < count, s')

/-! ### What the slots stand for -/

/-- The storage stands for a list of entries. -/
structure Represents (s : ChunkedDefs) (chunk : VariableDefChunk) : Prop where
  limit : s.variableValuesMaxDataSize = chunk.variableValuesMaxDataSize
  defCount : s.defCount = chunk.defs.length
  processedDefCount : s.processedDefCount = chunk.processedDefCount
  entryAt : ∀ i < s.defCount, s.entryAt i = chunk.defs[i]?
  searchMap : s.searchMap = chunk.searchMap
  searchMap_lt : ∀ i ∈ s.searchMap, i < s.defCount

variable {s s' : ChunkedDefs} {chunk chunk' : VariableDefChunk} {raw : RawDefinition}
  {p : VariableProvider} {defBlock : List UInt8} {valuesStart : ℕ}

theorem getName_copy (name : List UInt8) :
    (name.take 49 ++ [0]).takeWhile (· ≠ (0 : UInt8)) = (name.take 49).takeWhile (· ≠ 0) := by
  rw [List.takeWhile_append]
  split_ifs with hall
  · rw [List.takeWhile_cons_of_neg (by decide), List.append_nil]
    exact (List.IsPrefix.eq_of_length (List.takeWhile_prefix _) hall).symm
  · rfl

theorem getDefByIdx_store_self (s : ChunkedDefs) (i : ℕ) (copy : VariableSlot) :
    (s.store i copy).getDefByIdx i = some copy := by
  rw [getDefByIdx, store]
  dsimp only
  rw [Function.update_self, Option.map_some, Function.update_self]

/-- Writing one slot leaves the others alone. -/
theorem getDefByIdx_store_of_ne {i j : ℕ} {slot : VariableSlot} (hne : i ≠ j)
    (hi : s.getDefByIdx i = some slot) (copy : VariableSlot) :
    (s.store j copy).getDefByIdx i = some slot := by
  obtain ⟨slots, hslots, rfl⟩ := Option.map_eq_some_iff.mp hi
  have hdivi := Nat.div_add_mod i definitionsInChunk
  have hdivj := Nat.div_add_mod j definitionsInChunk
  rw [getDefByIdx, store]
  dsimp only
  by_cases hchunk : i / definitionsInChunk = j / definitionsInChunk
  · have hidx : i % definitionsInChunk ≠ j % definitionsInChunk := by
      intro heq
      rw [← hdivi, ← hdivj, hchunk, heq] at hne
      exact hne rfl
    rw [hchunk, Function.update_self, Option.map_some, Function.update_of_ne hidx, ← hchunk, hslots,
      Option.getD_some]
  · rw [Function.update_of_ne hchunk, hslots, Option.map_some]

theorem entryAt_store_of_ne {i j : ℕ} {copy : VariableDefCopy} (hne : i ≠ j)
    (hi : s.entryAt i = some copy) (written : VariableSlot) :
    (s.store j written).entryAt i = some copy := by
  obtain ⟨slot, hslot, hentry⟩ := Option.bind_eq_some_iff.mp hi
  rw [entryAt, getDefByIdx_store_of_ne hne hslot, Option.bind_some, hentry]

/-- The entries that there are stay as they are. -/
structure Keeps (s s' : ChunkedDefs) : Prop where
  defCount_le : s.defCount ≤ s'.defCount
  getDefByIdx : ∀ i < s.defCount, s'.getDefByIdx i = s.getDefByIdx i

theorem Keeps.refl (s : ChunkedDefs) : Keeps s s :=
  ⟨le_rfl, fun _ _ => rfl⟩

theorem Keeps.trans {s'' : ChunkedDefs} (h : Keeps s s') (h' : Keeps s' s'') : Keeps s s'' :=
  ⟨h.defCount_le.trans h'.defCount_le, fun i hi =>
    (h'.getDefByIdx i (lt_of_lt_of_le hi h.defCount_le)).trans (h.getDefByIdx i hi)⟩

namespace Represents

theorem exists_slot (h : Represents s chunk) {i : ℕ} (hi : i < s.defCount) :
    ∃ slot copy, s.getDefByIdx i = some slot ∧ slot.entry = some copy ∧ chunk.defs[i]? = some copy := by
  have hentry := h.entryAt i hi
  have hlt : i < chunk.defs.length := h.defCount ▸ hi
  rw [List.getElem?_eq_getElem hlt] at hentry ⊢
  obtain ⟨slot, hslot, hcopy⟩ := Option.bind_eq_some_iff.mp hentry
  exact ⟨slot, _, hslot, hcopy, rfl⟩

theorem keeps_store (h : Represents s chunk) (written : VariableSlot) :
    ∀ i < s.defCount, (s.store s.defCount written).getDefByIdx i = s.getDefByIdx i := by
  intro i hi
  obtain ⟨slot, -, hslot, -⟩ := h.exists_slot hi
  rw [getDefByIdx_store_of_ne hi.ne hslot, hslot]

theorem searchMapSortCmp_entry {a b : VariableSlot} {a' b' : VariableDefCopy}
    (ha : a.entry = some a') (hb : b.entry = some b') :
    ChunkedDefs.searchMapSortCmp a b = ScApi.searchMapSortCmp a' b' := by
  obtain ⟨_, -, rfl⟩ := Option.map_eq_some_iff.mp ha
  obtain ⟨_, -, rfl⟩ := Option.map_eq_some_iff.mp hb
  rfl

theorem takeWhile_congr {α : Type} {l : List α} {f g : α → Bool} (h : ∀ a ∈ l, f a = g a) :
    l.takeWhile f = l.takeWhile g ∧ l.dropWhile f = l.dropWhile g := by
  induction l with
  | nil => exact ⟨rfl, rfl⟩
  | cons a l ih =>
      obtain ⟨htake, hdrop⟩ := ih fun b hb => h b (List.mem_cons_of_mem a hb)
      rw [List.takeWhile_cons, List.takeWhile_cons, List.dropWhile_cons, List.dropWhile_cons,
        h a List.mem_cons_self, htake, hdrop]
      exact ⟨rfl, rfl⟩

/-- **A definition that fits** is added to the entries and to the search map. -/
theorem added (h : Represents s chunk) {slot : VariableSlot} {copy : VariableDefCopy}
    (hslot : slot.entry = some copy) {s' : ChunkedDefs}
    (hs' : s' = { s.store s.defCount slot with defCount := s.defCount + 1 }) :
    Represents { s' with searchMap := s'.insertSorted s.defCount } { chunk with
      defs := chunk.defs ++ [copy]
      searchMap := insertLast chunk.defs copy chunk.searchMap } := by
  have hentry : ∀ i < s.defCount + 1, s'.entryAt i = (chunk.defs ++ [copy])[i]? := by
    intro i hi
    rw [hs']
    rcases Nat.lt_succ_iff_lt_or_eq.mp hi with hlt | rfl
    · obtain ⟨old, entry, hold, hentry, hdef⟩ := h.exists_slot hlt
      rw [List.getElem?_append_left (h.defCount ▸ hlt), hdef]
      have hbefore : s.entryAt i = some entry := by
        rw [ChunkedDefs.entryAt, hold, Option.bind_some, hentry]
      exact entryAt_store_of_ne hlt.ne hbefore slot
    · rw [h.defCount, List.getElem?_concat_length, ← h.defCount]
      have hself := getDefByIdx_store_self s s.defCount slot
      exact (congrArg (Option.bind · VariableSlot.entry) hself).trans hslot
  have hself : s'.getDefByIdx s.defCount = some slot := by
    rw [hs']
    exact getDefByIdx_store_self s s.defCount slot
  have hmap : s'.insertSorted s.defCount = insertLast chunk.defs copy chunk.searchMap := by
    have hsame : ∀ i ∈ chunk.searchMap, ((s'.getDefByIdx i).any fun slot =>
        (s'.getDefByIdx s.defCount).any fun copy => ChunkedDefs.searchMapSortCmp slot copy)
          = (chunk.defs[i]?).any (ScApi.searchMapSortCmp · copy) := by
      intro i hi
      have hlt := h.searchMap_lt i (h.searchMap ▸ hi)
      obtain ⟨old, entry, hold, hentry, hdef⟩ := h.exists_slot hlt
      have hold' : s'.getDefByIdx i = some old := by
        rw [hs']
        exact getDefByIdx_store_of_ne hlt.ne hold slot
      rw [hold', hself, hdef]
      exact searchMapSortCmp_entry hentry hslot
    obtain ⟨htake, hdrop⟩ := takeWhile_congr hsame
    have hsearch : s'.searchMap = chunk.searchMap := by
      rw [hs']
      exact h.searchMap
    rw [insertSorted, insertLast, hsearch, htake, hdrop, h.defCount]
  have hcount : s'.defCount = s.defCount + 1 := by rw [hs']
  refine ⟨?_, ?_, ?_, fun i hi => hentry i (hcount ▸ hi), hmap, fun i hi => ?_⟩
  · rw [hs']
    exact h.limit
  · exact hcount.trans (by rw [h.defCount, List.length_append, List.length_singleton])
  · rw [hs']
    exact h.processedDefCount
  · change i ∈ s'.insertSorted s.defCount at hi
    change i < s'.defCount
    have hsearch : s'.searchMap = s.searchMap := by
      rw [hs']
      rfl
    rw [insertSorted, hsearch] at hi
    rw [hcount]
    rcases List.mem_append.mp hi with hi | hi
    · exact Nat.lt_succ_of_lt (h.searchMap_lt i (List.takeWhile_subset _ hi))
    · rcases List.mem_cons.mp hi with rfl | hi
      · exact Nat.lt_succ_self _
      · exact Nat.lt_succ_of_lt (h.searchMap_lt i (List.dropWhile_subset _ hi))

/-- **A definition that is rejected** leaves the next slot half written and the entries as they are. -/
theorem rejected (h : Represents s chunk) (written : VariableSlot) :
    Represents (s.store s.defCount written) chunk := by
  refine ⟨h.limit, h.defCount, h.processedDefCount, fun i hi => ?_, h.searchMap, h.searchMap_lt⟩
  rw [ChunkedDefs.entryAt, h.keeps_store written i hi]
  exact h.entryAt i hi

/-- What the loop does with the result of `copyDefinition`. -/
def inserted (r : Option ℕ × ChunkedDefs) : ChunkedDefs :=
  match r.1 with
  | some var => { r.2 with searchMap := r.2.insertSorted var }
  | none => r.2

/-- Two computations of which the first one stores what the second one lists, and keeps the entries of
a storage. -/
def Storing {α β : Type} (s : ChunkedDefs) (stored : α → ChunkedDefs) (listed : β → VariableDefChunk)
    (x : Provide α) (y : Provide β) : Prop :=
  Related (fun _ => False) (fun a b => Represents (stored a) (listed b) ∧ Keeps s (stored a)) x y

/-- **Copying a definition** into a slot does what copying it to a list does. -/
theorem copyDefinition (h : Represents s chunk) (valuesStart : ℕ) (raw : RawDefinition) :
    Storing s inserted id (s.copyDefinition valuesStart raw)
      (VariableProvider.copyDefinition valuesStart raw chunk) := by
  rw [ChunkedDefs.copyDefinition, VariableProvider.copyDefinition, ← h.defCount]
  refine Related.ite (fun _ => .error _) fun _ => ?_
  dsimp only
  by_cases hlarge : raw.valueOffset + raw.type.valueByteSize > s.variableValuesMaxDataSize
  · rw [if_pos hlarge, if_pos (h.limit ▸ hlarge)]
    exact .ok ⟨h.rejected _, le_rfl, h.keeps_store _⟩
  · rw [if_neg hlarge, if_neg (h.limit ▸ hlarge)]
    refine .ok ⟨h.added ?_ rfl, Nat.le_succ _, h.keeps_store _⟩
    rw [VariableSlot.entry, Option.map_some, VariableSlot.getName, getName_copy]
    rfl

theorem withProcessed (h : Represents s chunk) (n : ℕ) :
    Represents { s with processedDefCount := n } { chunk with processedDefCount := n } :=
  ⟨h.limit, h.defCount, rfl, h.entryAt, h.searchMap, h.searchMap_lt⟩

/-- **The loop** stores what it lists. -/
theorem processDefinitions (h : Represents s chunk) (defBlock : List UInt8) (p : VariableProvider)
    (n : ℕ) : Storing s id id (s.processDefinitions defBlock p n)
      (p.processDefinitions defBlock n chunk) := by
  induction n generalizing s chunk with
  | zero => exact .ok ⟨h, .refl s⟩
  | succ n ih =>
      rw [ChunkedDefs.processDefinitions, VariableProvider.processDefinitions, h.processedDefCount]
      refine Related.bind (R := Eq) ?_ fun bytes _ heq => ?_
      · cases reading (bytesAt defBlock (p.variableDefsStart
          + p.variableDefSize * chunk.processedDefCount : ℕ) variableDefinitionSize) with
        | error e => exact .error e
        | ok bytes => exact .ok rfl
      obtain rfl := heq
      have hcopy := (h.withProcessed (chunk.processedDefCount + 1)).copyDefinition
        p.variableValuesStart (.ofBytes bytes)
      refine Related.bind hcopy fun r next hr => ?_
      obtain ⟨var, s'⟩ := r
      obtain ⟨hrep, hkeeps⟩ := hr
      have hkept : Keeps s (inserted (var, s')) := ⟨hkeeps.defCount_le, hkeeps.getDefByIdx⟩
      cases var with
      | none => exact (ih hrep).mono fun a b hab => ⟨hab.1, hkept.trans hab.2⟩
      | some var => exact (ih hrep).mono fun a b hab => ⟨hab.1, hkept.trans hab.2⟩

/-- **A refresh** stores what the provider lists, and returns the same. -/
theorem refreshDefinitions (h : Represents s chunk) (hp : p.defChunk = some chunk)
    (defBlock : List UInt8) :
    Related (fun _ => False) (fun r r' => r.1 = r'.1 ∧ Keeps s r.2 ∧
        ∃ chunk', r'.2 = { p with defChunk := some chunk' } ∧ Represents r.2 chunk')
      (s.refreshDefinitions defBlock p) (p.refreshDefinitions defBlock) := by
  rw [ChunkedDefs.refreshDefinitions, VariableProvider.refreshDefinitions, hp]
  cases p.variableDefHeader with
  | none => exact .error _
  | some header =>
      dsimp only
      cases reading (u32At defBlock (header + 20)) with
      | error e => exact .error e
      | ok count =>
          refine Related.bind (R := Eq) (.ok rfl) fun count _ heq => ?_
          obtain rfl := heq
          rw [h.processedDefCount]
          refine Related.bind (h.processDefinitions defBlock p _) fun a b hab => ?_
          exact Related.pure ⟨rfl, hab.2, b, rfl, hab.1⟩

end Represents

end ChunkedDefs

/-! ### The search map -/

theorem searchMapSortCmp_iff {a b : VariableDefCopy} : searchMapSortCmp a b = true ↔
    a.deviceSessionId < b.deviceSessionId ∨
      a.deviceSessionId = b.deviceSessionId ∧ a.name < b.name := by
  rw [searchMapSortCmp]
  split_ifs with hlt hgt
  · exact iff_of_true rfl (.inl hlt)
  · refine iff_of_false not_false ?_
    rintro (h | ⟨h, -⟩)
    · exact hlt h
    · rw [h] at hgt
      exact UInt16.lt_irrefl _ hgt
  · have heq : a.deviceSessionId = b.deviceSessionId :=
      UInt16.le_antisymm (UInt16.not_lt.mp hgt) (UInt16.not_lt.mp hlt)
    rw [decide_eq_true_iff]
    constructor
    · exact fun h => .inr ⟨heq, h⟩
    · rintro (h | ⟨-, h⟩)
      · exact absurd h hlt
      · exact h

theorem searchMapSortCmp_eq_false_iff {a b : VariableDefCopy} : searchMapSortCmp b a = false ↔
    a.deviceSessionId < b.deviceSessionId ∨
      a.deviceSessionId = b.deviceSessionId ∧ a.name ≤ b.name := by
  rw [← Bool.not_eq_true, searchMapSortCmp_iff, not_or, not_and, List.not_lt, UInt16.not_lt]
  constructor
  · rintro ⟨hle, hname⟩
    rcases UInt16.lt_or_eq_of_le hle with hlt | heq
    · exact .inl hlt
    · exact .inr ⟨heq, hname heq.symm⟩
  · rintro (hlt | ⟨heq, hname⟩)
    · exact ⟨UInt16.le_of_lt hlt, fun heq => absurd (heq ▸ hlt) (UInt16.lt_irrefl _)⟩
    · exact ⟨UInt16.le_of_eq heq, fun _ => hname⟩

theorem strictWeak_searchMapSortCmp : StrictWeak searchMapSortCmp where
  asymm a b h := by
    rw [searchMapSortCmp_eq_false_iff]
    rcases searchMapSortCmp_iff.mp h with hlt | ⟨heq, hname⟩
    · exact .inl hlt
    · exact .inr ⟨heq, List.le_of_lt hname⟩
  trans a b c hab hbc := by
    rw [searchMapSortCmp_eq_false_iff] at hab hbc ⊢
    rcases hab with hab | ⟨hab, hname⟩ <;> rcases hbc with hbc | ⟨hbc, hname'⟩
    · exact .inl (UInt16.lt_trans hab hbc)
    · exact .inl (hbc ▸ hab)
    · exact .inl (hab ▸ hbc)
    · exact .inr ⟨hab.trans hbc, List.le_trans hname hname'⟩

/-- The search map of a list of entries. -/
structure Indexed (defs : List VariableDefCopy) (searchMap : List ℕ) : Prop where
  perm : searchMap.Perm (List.range defs.length)
  sorted : searchMap.Pairwise fun i j =>
    ∀ a ∈ defs[i]?, ∀ b ∈ defs[j]?, searchMapSortCmp b a = false

/-- **An entry is inserted** into the search map. -/
theorem Indexed.insertLast {defs : List VariableDefCopy} {searchMap : List ℕ}
    (h : Indexed defs searchMap) (var : VariableDefCopy) :
    Indexed (defs ++ [var]) (insertLast defs var searchMap) := by
  obtain ⟨hperm, hsorted⟩ := h
  have hlt : ∀ i ∈ searchMap, i < defs.length := fun i hi =>
    List.mem_range.mp (hperm.subset hi)
  -- the order of the entries as an order of their numbers
  obtain ⟨before, hbefore⟩ : ∃ before : ℕ → ℕ → Bool, before = fun i j =>
    searchMapSortCmp ((defs ++ [var]).getD i var) ((defs ++ [var]).getD j var) := ⟨_, rfl⟩
  have hstrict : StrictWeak before :=
    hbefore ▸ strictWeak_searchMapSortCmp.comap fun i => (defs ++ [var]).getD i var
  have hentry : ∀ i < defs.length, defs[i]? = some ((defs ++ [var]).getD i var) := by
    intro i hi
    rw [List.getD_eq_getElem?_getD, List.getElem?_append_left hi, List.getElem?_eq_getElem hi,
      Option.getD_some]
  have hlast : (defs ++ [var]).getD defs.length var = var := by
    rw [List.getD_eq_getElem?_getD, List.getElem?_concat_length, Option.getD_some]
  have hsame : ∀ i ∈ searchMap,
      (defs[i]?).any (searchMapSortCmp · var) = before i defs.length := by
    intro i hi
    rw [hentry i (hlt i hi), Option.any_some, hbefore]
    dsimp only
    rw [hlast]
  obtain ⟨htake, hdrop⟩ := ChunkedDefs.Represents.takeWhile_congr hsame
  rw [ScApi.insertLast, htake, hdrop]
  constructor
  · rw [List.length_append, List.length_singleton, List.range_succ]
    refine List.perm_middle.trans ?_
    rw [List.takeWhile_append_dropWhile]
    exact (hperm.cons _).trans (List.perm_append_singleton _ _).symm
  · have hpairs : searchMap.Pairwise fun i j => before j i = false := by
      refine hsorted.imp_of_mem fun hi hj hij => ?_
      rw [hbefore]
      exact hij _ (hentry _ (hlt _ hi)) _ (hentry _ (hlt _ hj))
    refine (hstrict.pairwise_insert hpairs defs.length).imp fun {i j} hij a ha b hb => ?_
    have hvalue : ∀ {k c}, c ∈ (defs ++ [var])[k]? → (defs ++ [var]).getD k var = c := by
      intro k c hc
      rw [List.getD_eq_getElem?_getD, Option.mem_def.mp hc, Option.getD_some]
    rw [hbefore] at hij
    dsimp only at hij
    rwa [hvalue ha, hvalue hb] at hij

/-! ### Tables that grow -/

/-- A definition without its flags, which may change after it was published. -/
def RawDefinition.withoutFlags (raw : RawDefinition) : RawDefinition :=
  { raw with flags := 0 }

namespace ChunkedDefs

open VariableProvider (publishedCount publishedFrom definitionAt EndsInside fitting_le
  processDefinitions_cases processDefinitions_ok_iff u32At_ok_iff eq_of_u32At reading_eq_ok_iff)

variable {s s' : ChunkedDefs} {chunk chunk' : VariableDefChunk} {p : VariableProvider}
  {block : List UInt8} {limit : ℕ} {seen : List RawDefinition}

/-- **Tables that grow**: each one goes on as the next one does, except for flags; its definitions lie
in its block, and there are at most 32768 of them. -/
structure Growing (p : VariableProvider) (tables : List (List UInt8)) : Prop where
  grows : tables.IsChain fun b b' => (publishedFrom b p 0).map RawDefinition.withoutFlags
    <+: (publishedFrom b' p 0).map RawDefinition.withoutFlags
  header : ∀ b ∈ tables, 24 ≤ b.length
  inside : ∀ b ∈ tables, ∀ k < publishedCount b p, EndsInside b p k
  small : ∀ b ∈ tables, publishedCount b p ≤ 32768

/-- What is stored after some definitions were seen. -/
structure Lists (p : VariableProvider) (limit : ℕ) (seen : List RawDefinition)
    (chunk : VariableDefChunk) : Prop where
  maxDataSize : chunk.variableValuesMaxDataSize = limit
  processedDefCount : chunk.processedDefCount = seen.length
  defs : chunk.defs = (seen.filter (VariableProvider.fits limit)).map
    (VariableDefCopy.of p.variableValuesStart)
  indexed : Indexed chunk.defs chunk.searchMap

theorem Indexed.processDefinitions {n : ℕ} (h : Indexed chunk.defs chunk.searchMap)
    (hloop : p.processDefinitions block n chunk = .ok chunk') :
    Indexed chunk'.defs chunk'.searchMap := by
  induction n generalizing chunk with
  | zero =>
      obtain rfl := Except.ok.inj hloop
      exact h
  | succ n ih =>
      rw [VariableProvider.processDefinitions] at hloop
      obtain ⟨bytes, -, hloop⟩ := bind_eq_ok.mp hloop
      obtain ⟨next, hcopy, hloop⟩ := bind_eq_ok.mp hloop
      refine ih ?_ hloop
      rw [VariableProvider.copyDefinition] at hcopy
      dsimp only at hcopy
      split_ifs at hcopy
      · obtain rfl := Except.ok.inj hcopy
        exact h
      · obtain rfl := Except.ok.inj hcopy
        exact h.insertLast _

theorem publishedFrom_eq_drop (i : ℕ) :
    publishedFrom block p i = (publishedFrom block p 0).drop i := by
  rw [publishedFrom, publishedFrom, ← List.map_drop, List.drop_range', Nat.sub_zero, Nat.zero_add,
    Nat.mul_one]

theorem length_publishedFrom (i : ℕ) :
    (publishedFrom block p i).length = publishedCount block p - i := by
  rw [publishedFrom, List.length_map, List.length_range']

/-- **The loop** lists what is published. -/
theorem Lists.processDefinitions (h : Lists p limit seen chunk)
    (hloop : p.processDefinitions block (publishedCount block p - seen.length) chunk = .ok chunk') :
    Lists p limit (seen ++ publishedFrom block p seen.length) chunk' := by
  obtain ⟨hprocessed, hlimit, hdefs⟩ := processDefinitions_cases hloop
  refine ⟨hlimit.trans h.maxDataSize, ?_, ?_, Indexed.processDefinitions h.indexed hloop⟩
  · rw [hprocessed, h.processedDefCount, List.length_append, length_publishedFrom]
  · rw [hdefs, h.defs, h.maxDataSize, h.processedDefCount, List.filter_append, List.map_append]
    rfl

theorem Lists.length_defs_le (h : Lists p limit seen chunk) : chunk.defs.length ≤ seen.length := by
  rw [h.defs, List.length_map]
  exact List.length_filter_le _ _

/-- A storage that holds what was seen. -/
def Stores (p : VariableProvider) (limit : ℕ) (seen : List RawDefinition) (s : ChunkedDefs) : Prop :=
  ∃ chunk, Represents s chunk ∧ Lists p limit seen chunk

/-- **One refresh** goes to its end, and adds what it sees. -/
theorem Stores.refreshDefinitions (h : Stores p limit seen s) (hp : p.variableDefHeader = some 0)
    (hheader : 24 ≤ block.length) (hinside : ∀ k < publishedCount block p, EndsInside block p k)
    (hsmall : publishedCount block p ≤ 32768) :
    ∃ changed s', s.refreshDefinitions block p = .ok (changed, s') ∧
      Stores p limit (seen ++ publishedFrom block p seen.length) s' ∧ Keeps s s' ∧
      (changed = true ↔ s.processedDefCount < s'.processedDefCount) := by
  obtain ⟨chunk, hrep, hlists⟩ := h
  obtain ⟨count, hread⟩ := (@u32At_ok_iff block (0 + 20)).mpr hheader
  have hcount : min count p.maxVariableDefCount = publishedCount block p := by
    rw [publishedCount, eq_of_u32At (reading_eq_ok_iff.mp hread)]
  have hprocessed : s.processedDefCount = seen.length :=
    hrep.processedDefCount.trans hlists.processedDefCount
  obtain ⟨chunk', hloop⟩ : ∃ chunk', p.processDefinitions block
      (publishedCount block p - seen.length) chunk = .ok chunk' := by
    refine processDefinitions_ok_iff.mpr fun hne => ?_
    have hfits := @fitting_le p block chunk.variableValuesMaxDataSize
      chunk.processedDefCount (publishedCount block p - seen.length - 1)
    have hle := hlists.length_defs_le
    have hseen := hlists.processedDefCount
    exact ⟨hinside _ (by omega), by omega⟩
  have hstored := hrep.processDefinitions block p (publishedCount block p - seen.length)
  rw [hloop] at hstored
  obtain ⟨s', hs', hrep', hkeeps⟩ : ∃ s', s.processDefinitions block p
      (publishedCount block p - seen.length) = .ok s' ∧ Represents s' chunk' ∧ Keeps s s' := by
    generalize s.processDefinitions block p (publishedCount block p - seen.length) = x at hstored
    cases hstored with
    | ok hab => exact ⟨_, rfl, hab⟩
    | loose hfalse => exact hfalse.elim
  have hlists' := hlists.processDefinitions hloop
  refine ⟨s.processedDefCount < publishedCount block p, s', ?_, ⟨chunk', hrep', hlists'⟩, hkeeps, ?_⟩
  · rw [ChunkedDefs.refreshDefinitions, hp]
    refine bind_eq_ok.mpr ⟨count, hread, bind_eq_ok.mpr ⟨s', ?_, ?_⟩⟩
    · rw [hcount, hprocessed]
      exact hs'
    · rw [hcount]
      rfl
  · rw [decide_eq_true_iff, hrep'.processedDefCount, hlists'.processedDefCount, List.length_append,
      length_publishedFrom, hprocessed]
    omega

/-- The definitions that refreshes on some tables process, each as it is in the first table that has it:
those of a table behind the ones that were seen before. -/
def seenAfter (p : VariableProvider) (seen : List RawDefinition) (tables : List (List UInt8)) :
    List RawDefinition :=
  tables.foldl (fun seen block => seen ++ publishedFrom block p seen.length) seen

/-- One refresh, which the block of the definitions is given to as it is then. -/
def refreshStep (p : VariableProvider) (s : ChunkedDefs) (block : List UInt8) : Option ChunkedDefs :=
  (s.refreshDefinitions block p).toOption.map Prod.snd

theorem refreshStep_of_ok {changed : Bool} (h : s.refreshDefinitions block p = .ok (changed, s')) :
    refreshStep p s block = some s' := by
  rw [refreshStep, h]
  rfl

/-- What was seen is how a table begins, except for flags. -/
def Sees (p : VariableProvider) (seen : List RawDefinition) (block : List UInt8) : Prop :=
  seen.map RawDefinition.withoutFlags <+: (publishedFrom block p 0).map RawDefinition.withoutFlags

theorem Sees.refreshed (h : Sees p seen block) :
    (seen ++ publishedFrom block p seen.length).map RawDefinition.withoutFlags
      = (publishedFrom block p 0).map RawDefinition.withoutFlags := by
  have hseen := List.prefix_iff_eq_take.mp h
  rw [List.length_map] at hseen
  rw [List.map_append, hseen, publishedFrom_eq_drop seen.length, List.map_drop, List.take_append_drop]

theorem Growing.tail {tables : List (List UInt8)} (h : Growing p (block :: tables)) :
    Growing p tables :=
  ⟨h.grows.tail, fun b hb => h.header b (List.mem_cons_of_mem _ hb),
    fun b hb => h.inside b (List.mem_cons_of_mem _ hb),
    fun b hb => h.small b (List.mem_cons_of_mem _ hb)⟩

/-- **A refresh on the first of some tables that grow.** -/
theorem Growing.refresh {tables : List (List UInt8)} (h : Growing p (block :: tables))
    (hp : p.variableDefHeader = some 0) (hs : Stores p limit seen s) (hsees : Sees p seen block) :
    ∃ changed s', s.refreshDefinitions block p = .ok (changed, s') ∧
      Stores p limit (seenAfter p seen [block]) s' ∧
      (seenAfter p seen [block]).map RawDefinition.withoutFlags
        = (publishedFrom block p 0).map RawDefinition.withoutFlags ∧
      (∀ b ∈ tables.head?, Sees p (seenAfter p seen [block]) b) ∧ Keeps s s' ∧
      (changed = true ↔ s.processedDefCount < s'.processedDefCount) := by
  have hmem : block ∈ block :: tables := List.mem_cons_self
  obtain ⟨changed, s', hrefresh, hs', hkeeps, hchanged⟩ :=
    hs.refreshDefinitions hp (h.header _ hmem) (h.inside _ hmem) (h.small _ hmem)
  have hseen : (seenAfter p seen [block]).map RawDefinition.withoutFlags
    = (publishedFrom block p 0).map RawDefinition.withoutFlags := hsees.refreshed
  refine ⟨changed, s', hrefresh, hs', hseen, fun b hb => ?_, hkeeps, hchanged⟩
  rw [Sees, hseen]
  exact h.grows.rel_head? hb

/-- **Any refreshes** go to their end and keep the entries that there are. -/
theorem Growing.exists_run {tables : List (List UInt8)} (h : Growing p tables)
    (hp : p.variableDefHeader = some 0) (hs : Stores p limit seen s)
    (hsees : ∀ b ∈ tables.head?, Sees p seen b) :
    ∃ s', Runs.exec (refreshStep p) s tables = some s' ∧ Keeps s s' := by
  induction tables generalizing s seen with
  | nil => exact ⟨s, rfl, .refl s⟩
  | cons block tables ih =>
      obtain ⟨changed, s₁, hrefresh, hs₁, -, hsees₁, hkeeps, -⟩ :=
        h.refresh hp hs (hsees block rfl)
      obtain ⟨s₂, hrun, hkeeps'⟩ := ih h.tail hs₁ hsees₁
      exact ⟨s₂, Runs.exec_cons.mpr ⟨s₁, refreshStep_of_ok hrefresh, hrun⟩, hkeeps.trans hkeeps'⟩

/-- What is stored after a refresh on a table: the definitions of the table that fit, with the flags that
they had when they were seen first. -/
structure Holds (p : VariableProvider) (limit : ℕ) (seen : List RawDefinition) (block : List UInt8)
    (s : ChunkedDefs) : Prop where
  defCount_le : s.defCount ≤ s.processedDefCount
  processedDefCount_le : s.processedDefCount ≤ publishedCount block p
  published : seen.map RawDefinition.withoutFlags
    = (publishedFrom block p 0).map RawDefinition.withoutFlags
  entries : (List.range s.defCount).map s.entryAt
    = (seen.filter (VariableProvider.fits limit)).map fun raw =>
      some (VariableDefCopy.of p.variableValuesStart raw)
  sorted : s.searchMap.Pairwise fun i j => ∀ a ∈ s.entryAt i, ∀ b ∈ s.entryAt j,
    a.deviceSessionId < b.deviceSessionId ∨
      a.deviceSessionId = b.deviceSessionId ∧ a.name ≤ b.name
  perm : s.searchMap.Perm (List.range s.defCount)

theorem Stores.holds (h : Stores p limit seen s) (hseen : seen.map RawDefinition.withoutFlags
    = (publishedFrom block p 0).map RawDefinition.withoutFlags) : Holds p limit seen block s := by
  obtain ⟨chunk, hrep, hlists⟩ := h
  have hprocessed : s.processedDefCount = seen.length :=
    hrep.processedDefCount.trans hlists.processedDefCount
  have hlength : seen.length = publishedCount block p := by
    have hlen := congrArg List.length hseen
    rwa [List.length_map, List.length_map, length_publishedFrom, Nat.sub_zero] at hlen
  have hperm : s.searchMap.Perm (List.range s.defCount) := by
    rw [hrep.searchMap, hrep.defCount]
    exact hlists.indexed.perm
  refine ⟨?_, ?_, hseen, ?_, ?_, hperm⟩
  · rw [hrep.defCount, hprocessed]
    exact hlists.length_defs_le
  · rw [hprocessed, hlength]
  · have hentries : (List.range s.defCount).map s.entryAt = chunk.defs.map some := by
      refine List.ext_getElem? fun i => ?_
      rw [List.getElem?_map, List.getElem?_map]
      by_cases hi : i < s.defCount
      · have hentry := hrep.entryAt i hi
        have hlt : i < chunk.defs.length := hrep.defCount ▸ hi
        rw [List.getElem?_eq_getElem hlt] at hentry ⊢
        rw [List.getElem?_range hi, Option.map_some, Option.map_some, hentry]
      · rw [List.getElem?_eq_none (by rw [List.length_range]; omega),
          List.getElem?_eq_none (by rw [← hrep.defCount]; omega)]
        rfl
    rw [hentries, hlists.defs, List.map_map]
    rfl
  · rw [hrep.searchMap]
    refine hlists.indexed.sorted.imp_of_mem fun {i j} hi hj hij a ha b hb => ?_
    rw [← hrep.searchMap] at hi hj
    rw [hrep.entryAt i (hrep.searchMap_lt i hi)] at ha
    rw [hrep.entryAt j (hrep.searchMap_lt j hj)] at hb
    exact searchMapSortCmp_eq_false_iff.mp (hij a ha b hb)

/-- **What is stored after any refreshes** on a table that grows: no refresh stops; after each one the
counts are in order, the entries are the published definitions that fit, in their order and with the
flags that they had when they were processed, and the search map has a pointer to each of them, by
devices and names; a refresh tells whether it processed any; and later refreshes leave the entries
alone. -/
theorem refreshDefinitions_growing (hp : p.variableDefHeader = some 0) (limit : ℕ)
    {tables later : List (List UInt8)} (h : Growing p (tables ++ block :: later)) :
    ∃ s changed s' s'',
      Runs.exec (refreshStep p) { variableValuesMaxDataSize := limit } tables = some s ∧
      s.refreshDefinitions block p = .ok (changed, s') ∧
      Runs.exec (refreshStep p) s' later = some s'' ∧
      Holds p limit (seenAfter p [] (tables ++ [block])) block s' ∧
      (changed = true ↔ s.processedDefCount < s'.processedDefCount) ∧
      ∀ i < s'.defCount, s''.getDefByIdx i = s'.getDefByIdx i := by
  have hstart : Stores p limit [] { variableValuesMaxDataSize := limit } := by
    refine ⟨{ variableValuesMaxDataSize := limit }, ?_, ?_⟩
    · exact ⟨rfl, rfl, rfl, fun i hi => absurd hi (Nat.not_lt_zero i), rfl, nofun⟩
    · exact ⟨rfl, rfl, rfl, List.Perm.refl _, List.Pairwise.nil⟩
  have hsees : ∀ b ∈ (tables ++ block :: later).head?, Sees p [] b := fun b _ => List.nil_prefix
  generalize ([] : List RawDefinition) = seen at hstart hsees ⊢
  generalize ({ variableValuesMaxDataSize := limit } : ChunkedDefs) = s₀ at hstart
  induction tables generalizing s₀ seen with
  | nil =>
      obtain ⟨changed, s', hrefresh, hs', hseen', hsees', -, hchanged⟩ :=
        h.refresh hp hstart (hsees block rfl)
      obtain ⟨s'', hrun, hkeeps⟩ := h.tail.exists_run hp hs' hsees'
      exact ⟨s₀, changed, s', s'', rfl, hrefresh, hrun, hs'.holds hseen', hchanged,
        hkeeps.getDefByIdx⟩
  | cons b tables ih =>
      obtain ⟨_, s₁, hrefresh, hs₁, -, hsees₁, -, -⟩ := h.refresh hp hstart (hsees b rfl)
      obtain ⟨s, changed, s', s'', hrun, hrest⟩ := ih h.tail _ hsees₁ s₁ hs₁
      exact ⟨s, changed, s', s'',
        Runs.exec_cons.mpr ⟨s₁, refreshStep_of_ok hrefresh, hrun⟩, hrest⟩

open VariableProvider (accepted twoDefinitions zeroValues dataLimit) in
theorem refreshDefinitions_growing_two :
    ∃ s changed s', Runs.exec (refreshStep (accepted (twoDefinitions 1) (zeroValues 8)))
        { variableValuesMaxDataSize := 136 } [twoDefinitions 1] = some s ∧
      s.refreshDefinitions (twoDefinitions 2) (accepted (twoDefinitions 1) (zeroValues 8))
        = .ok (changed, s') ∧
      Holds (accepted (twoDefinitions 1) (zeroValues 8)) 136
        (seenAfter (accepted (twoDefinitions 1) (zeroValues 8)) [] [twoDefinitions 1, twoDefinitions 2])
        (twoDefinitions 2) s' := by
  have hgrowing : Growing (accepted (twoDefinitions 1) (zeroValues 8))
      ([twoDefinitions 1] ++ twoDefinitions 2 :: []) :=
    ⟨List.isChain_pair.mpr (by decide +kernel), by decide +kernel, by decide +kernel,
      by decide +kernel⟩
  obtain ⟨s, changed, s', s'', hrun, hrefresh, -, hholds, -⟩ :=
    refreshDefinitions_growing (show _ = some 0 from rfl) 136 hgrowing
  exact ⟨s, changed, s', hrun, hrefresh, hholds⟩

end ChunkedDefs

end ScApi
