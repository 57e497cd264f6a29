import Mathlib.Data.List.Induction
import ScApi.Lib.Runs
import ScApi.VariableBounds

/-!
# Snapshots of the variable definitions

`VariableProvider::definitions` hands out a `VariableDefinitions`, which shares the entries with the
provider and keeps the number of entries that there were. A refresh adds entries and leaves the others
alone, so `operator[]`, which is bounded by the number that was kept, shows the same entries from then
on. The searches go over all the entries that there are when they are called.

## Main results

* `exposed_prefix`: what updates leave alone.
* `getItem_update`: a snapshot shows the entries it was made of.
* `searches_eq_iff`: when the searches agree with a linear search over `operator[]`.
-/

open Bytes BoundedRead

namespace ScApi

/-- A `VariableDefinition`. -/
structure VariableDefinition where
  name : List UInt8 := []
  valuePtr : Option ℕ := none
  type : DataType := .ofBase .invalid
  flags : UInt16 := 0
  deviceSessionId : UInt16 := 0
  deriving DecidableEq, Repr

/-- The definition that an entry is returned as. The flags are cut to 16 bits. -/
def VariableDefinition.ofCopy (copy : VariableDefCopy) : VariableDefinition where
  name := copy.name
  valuePtr := some copy.valuePtr
  type := copy.type
  flags := UInt16.ofNat copy.flags
  deviceSessionId := copy.deviceSessionId

/-- A `VariableDefinitions`: whether it shares the entries of a provider, and `count_`. The functions
below are given the shared entries as they are when the function is called. -/
structure VariableDefinitions where
  hasChunk : Bool := false
  count : ℕ := 0
  deriving DecidableEq, Repr

/-- `VariableProvider::definitions`. -/
def VariableProvider.definitions (p : VariableProvider) : Provide VariableDefinitions :=
  match p.defChunk with
  | some chunk => pure { hasChunk := true, count := chunk.defs.length }
  | none => throw (.read .nullPointer)

namespace VariableDefinitions

/-- `VariableDefinitions::size`. -/
def size (d : VariableDefinitions) : ℕ := d.count

/-- `VariableDefinitions::operator[]`; `none` where one of its assertions fails. -/
def getItem (d : VariableDefinitions) (defs : List VariableDefCopy) (idx : ℕ) :
    Option VariableDefinition :=
  if d.hasChunk ∧ idx < d.count then
    defs[idx]?.map VariableDefinition.ofCopy
  else
    none

/-- The loop of the searches: the first entry that passes a test. -/
def findEntry (d : VariableDefinitions) (defs : List VariableDefCopy) (test : VariableDefCopy → Bool) :
    Option VariableDefCopy :=
  if d.hasChunk then defs.find? test else none

/-- `VariableDefinitions::find` with a name. -/
def findByName (d : VariableDefinitions) (defs : List VariableDefCopy) (name : List UInt8)
    (deviceSessionId : UInt16) : VariableDefinition :=
  (d.findEntry defs fun copy => copy.deviceSessionId = deviceSessionId ∧ copy.name = name).elim
    {} VariableDefinition.ofCopy

/-- `VariableDefinitions::find` with a name and a type. -/
def findByType (d : VariableDefinitions) (defs : List VariableDefCopy) (name : List UInt8)
    (type : DataType) (deviceSessionId : UInt16) : VariableDefinition :=
  (d.findEntry defs fun copy => copy.deviceSessionId = deviceSessionId ∧ copy.type = type ∧
    copy.name = name).elim {} VariableDefinition.ofCopy

/-- `VariableDefinitions::findValuePointer`. -/
def findValuePointer (d : VariableDefinitions) (defs : List VariableDefCopy) (type : DataType)
    (name : List UInt8) (deviceSessionId : UInt16) : Option ℕ :=
  (d.findEntry defs fun copy => copy.deviceSessionId = deviceSessionId ∧ copy.name = name ∧
    copy.type = type).map VariableDefCopy.valuePtr

/-- A linear search over `operator[]` from 0 to `size() - 1`. -/
def searchItems (d : VariableDefinitions) (defs : List VariableDefCopy)
    (test : VariableDefinition → Bool) : Option VariableDefinition :=
  ((List.range d.size).filterMap (d.getItem defs)).find? test

end VariableDefinitions

/-- One update, which the block of the definitions is given to as it is then. -/
def VariableProvider.updateStep (p : VariableProvider) (defBlock : List UInt8) :
    Option VariableProvider :=
  (p.updateDefinitions defBlock).toOption.map Prod.snd

namespace VariableProvider

variable {p p' : VariableProvider} {blocks : List (List UInt8)} {d : VariableDefinitions}

/-! ### What updates leave alone -/

theorem updateStep_eq_some {defBlock : List UInt8} :
    p.updateStep defBlock = some p' ↔ ∃ changed, p.updateDefinitions defBlock = .ok (changed, p') := by
  rw [updateStep]
  cases p.updateDefinitions defBlock with
  | error stop => simp [Except.toOption]
  | ok r =>
      obtain ⟨changed, q⟩ := r
      simp [Except.toOption]

theorem exposed_prefix_of_step {defBlock : List UInt8} (h : p.updateStep defBlock = some p') :
    p.exposed <+: p'.exposed ∧ p'.defChunk.isSome := by
  obtain ⟨changed, h⟩ := updateStep_eq_some.mp h
  rw [updateDefinitions, refreshDefinitions] at h
  cases hheader : p.variableDefHeader with
  | none => simp [hheader] at h
  | some header =>
      cases hchunk : p.defChunk with
      | none => simp [hheader, hchunk] at h
      | some chunk =>
          rw [hheader, hchunk] at h
          obtain ⟨count, -, h⟩ := bind_eq_ok.mp h
          obtain ⟨chunk', hloop, h⟩ := bind_eq_ok.mp h
          obtain ⟨-, rfl⟩ := Prod.mk.inj (Except.ok.inj h)
          obtain ⟨-, -, hdefs⟩ := processDefinitions_cases hloop
          rw [exposed, exposed, hchunk, Option.elim_some, Option.elim_some, hdefs]
          exact ⟨List.prefix_append _ _, rfl⟩

/-- **Updates add entries** behind those that there are. -/
theorem exposed_prefix (h : Runs.exec updateStep p blocks = some p') : p.exposed <+: p'.exposed := by
  induction blocks generalizing p with
  | nil =>
      obtain rfl := Option.some.inj h
      exact List.prefix_refl _
  | cons block blocks ih =>
      obtain ⟨q, hstep, hrun⟩ := Runs.exec_cons.mp h
      exact (exposed_prefix_of_step hstep).1.trans (ih hrun)

theorem definitions_eq_ok (h : p.definitions = .ok d) :
    d = { hasChunk := true, count := p.exposed.length } := by
  rw [definitions] at h
  cases hchunk : p.defChunk with
  | none => simp [hchunk] at h
  | some chunk =>
      rw [hchunk] at h
      rw [exposed, hchunk]
      exact (Except.ok.inj h).symm

/-- **A snapshot shows the entries it was made of**, whatever is added later. -/
theorem getItem_update (hd : p.definitions = .ok d) (h : Runs.exec updateStep p blocks = some p')
    (idx : ℕ) : d.getItem p'.exposed idx = d.getItem p.exposed idx := by
  obtain rfl := definitions_eq_ok hd
  obtain ⟨added, hadded⟩ := exposed_prefix h
  rw [VariableDefinitions.getItem, VariableDefinitions.getItem, ← hadded]
  by_cases hidx : idx < p.exposed.length
  · rw [List.getElem?_append_left hidx]
  · rw [if_neg (fun hboth => hidx hboth.2), if_neg (fun hboth => hidx hboth.2)]

/-! ### The searches -/

theorem filterMap_range_getElem? {α : Type} (l : List α) :
    (List.range l.length).filterMap (l[·]?) = l := by
  induction l using List.reverseRecOn with
  | nil => rfl
  | append_singleton l a ih =>
      have hfront : (List.range l.length).filterMap ((l ++ [a])[·]?)
          = (List.range l.length).filterMap (l[·]?) := by
        refine List.filterMap_congr fun i hi => ?_
        rw [List.getElem?_append_left (List.mem_range.mp hi)]
      rw [List.length_append, List.length_singleton, List.range_succ, List.filterMap_append, hfront,
        ih, List.filterMap_cons, List.getElem?_concat_length, List.filterMap_nil]

theorem searchItems_update (hd : p.definitions = .ok d)
    (h : Runs.exec updateStep p blocks = some p') (test : VariableDefinition → Bool) :
    (d.searchItems p'.exposed test).getD {}
      = (p.exposed.find? fun copy => test (.ofCopy copy)).elim {} VariableDefinition.ofCopy := by
  have hitems : (List.range d.size).filterMap (d.getItem p'.exposed)
      = p.exposed.map VariableDefinition.ofCopy := by
    rw [funext (getItem_update hd h)]
    obtain rfl := definitions_eq_ok hd
    conv_rhs => rw [← filterMap_range_getElem? p.exposed, List.map_filterMap]
    refine List.filterMap_congr fun i hi => ?_
    rw [VariableDefinitions.getItem, if_pos ⟨rfl, List.mem_range.mp hi⟩]
  rw [VariableDefinitions.searchItems, hitems, List.find?_map]
  change (Option.map VariableDefinition.ofCopy
    (p.exposed.find? fun copy => test (.ofCopy copy))).getD {} = _
  cases p.exposed.find? fun copy => test (.ofCopy copy) <;> rfl

/-- A search that goes over entries of its own and over later ones finds what it finds among its own
exactly when an entry of its own passes the test if a later one does. -/
theorem elim_find?_append_iff {α β : Type} {f : α → β} {b : β} (hf : ∀ a, f a ≠ b)
    (own later : List α) (test : α → Bool) :
    ((own ++ later).find? test).elim b f = (own.find? test).elim b f ↔
      ((∃ a ∈ later, test a = true) → ∃ a ∈ own, test a = true) := by
  rw [List.find?_append]
  cases hown : own.find? test with
  | some a =>
      have ha : ∃ a ∈ own, test a = true := ⟨a, List.mem_of_find?_eq_some hown, List.find?_some hown⟩
      exact iff_of_true rfl fun _ => ha
  | none =>
      have hnone : ¬∃ a ∈ own, test a = true := by
        rintro ⟨a, ha, htest⟩
        exact List.find?_eq_none.mp hown a ha htest
      rw [Option.none_or, Option.elim_none]
      cases hlater : later.find? test with
      | none =>
          refine iff_of_true rfl fun ⟨a, ha, htest⟩ => ?_
          exact absurd htest (List.find?_eq_none.mp hlater a ha)
      | some a =>
          refine iff_of_false (hf a) fun h => hnone (h ?_)
          exact ⟨a, List.mem_of_find?_eq_some hlater, List.find?_some hlater⟩

/-- **When a search keeps to the snapshot**: if an entry that was added later passes the test, an
entry of the snapshot passes it too. -/
def Covers (p p' : VariableProvider) (test : VariableDefCopy → Bool) : Prop :=
  (∃ copy ∈ p'.exposed.drop p.exposed.length, test copy = true) →
    ∃ copy ∈ p.exposed, test copy = true

theorem find_eq_iff_covers {β : Type} {f : VariableDefCopy → β} {b : β} (hf : ∀ copy, f copy ≠ b)
    (hd : p.definitions = .ok d) (h : Runs.exec updateStep p blocks = some p')
    (test : VariableDefCopy → Bool) :
    (d.findEntry p'.exposed test).elim b f = (p.exposed.find? test).elim b f ↔ Covers p p' test := by
  obtain rfl := definitions_eq_ok hd
  obtain ⟨added, hadded⟩ := exposed_prefix h
  rw [VariableDefinitions.findEntry, if_pos rfl, Covers, ← hadded, List.drop_left]
  exact elim_find?_append_iff hf _ _ _

/-- **The searches agree with a linear search** over `operator[]` exactly when they keep to the
snapshot. -/
theorem searches_eq_iff (hd : p.definitions = .ok d) (h : Runs.exec updateStep p blocks = some p')
    (name : List UInt8) (type : DataType) (device : UInt16) :
    (d.findByName p'.exposed name device = (d.searchItems p'.exposed fun item =>
          item.deviceSessionId = device ∧ item.name = name).getD {} ↔
        Covers p p' fun copy => copy.deviceSessionId = device ∧ copy.name = name) ∧
      (d.findByType p'.exposed name type device = (d.searchItems p'.exposed fun item =>
          item.deviceSessionId = device ∧ item.type = type ∧ item.name = name).getD {} ↔
        Covers p p' fun copy =>
          copy.deviceSessionId = device ∧ copy.type = type ∧ copy.name = name) ∧
      (d.findValuePointer p'.exposed type name device = ((d.searchItems p'.exposed fun item =>
          item.deviceSessionId = device ∧ item.name = name ∧ item.type = type).getD {}).valuePtr ↔
        Covers p p' fun copy =>
          copy.deviceSessionId = device ∧ copy.name = name ∧ copy.type = type) := by
  have hdefault : ∀ copy, VariableDefinition.ofCopy copy ≠ {} :=
    fun copy heq => nomatch congrArg VariableDefinition.valuePtr heq
  have hpointer : ∀ copy : VariableDefCopy, some copy.valuePtr ≠ none :=
    fun copy => Option.some_ne_none copy.valuePtr
  have hmap : ∀ o : Option VariableDefCopy, o.map VariableDefCopy.valuePtr
      = o.elim none fun copy => some copy.valuePtr := fun o => by cases o <;> rfl
  have hfield : ∀ o : Option VariableDefCopy, (o.elim {} VariableDefinition.ofCopy).valuePtr
      = o.elim none fun copy => some copy.valuePtr := fun o => by cases o <;> rfl
  refine ⟨?_, ?_, ?_⟩
  · rw [← find_eq_iff_covers hdefault hd h, searchItems_update hd h]
    rfl
  · rw [← find_eq_iff_covers hdefault hd h, searchItems_update hd h]
    rfl
  · rw [← find_eq_iff_covers hpointer hd h, searchItems_update hd h, hfield,
      VariableDefinitions.findValuePointer, hmap]
    rfl

/-- The definition of a `u32` of a device. -/
def deviceDefinition (device offset : ℕ) : List UInt8 :=
  toLe 4 0 ++ toLe 2 7 ++ toLe 2 0 ++ toLe 4 offset ++ toLe 2 device ++ List.replicate 50 0

/-- A block with two definitions, of which some are published. -/
def twoDefinitions (count : ℕ) : List UInt8 :=
  toLe 4 1 ++ toLe 4 0 ++ toLe 4 160 ++ toLe 4 32 ++ toLe 4 64 ++ toLe 4 count ++ toLe 4 0
    ++ toLe 4 0 ++ deviceDefinition 1 0 ++ deviceDefinition 2 4

/-- A provider of the first of them, and the same provider after the second one was published. -/
def oneOfTwo : VariableProvider :=
  (({} : VariableProvider).initializeProvider (twoDefinitions 1) (zeroValues 8)).toOption.getD {}

def bothOfTwo : VariableProvider :=
  (oneOfTwo.updateStep (twoDefinitions 2)).getD {}

theorem searches_eq_iff_two :
    (⟨true, 1⟩ : VariableDefinitions).findByName bothOfTwo.exposed [] 1
      = ((⟨true, 1⟩ : VariableDefinitions).searchItems bothOfTwo.exposed fun item =>
          item.deviceSessionId = 1 ∧ item.name = []).getD {} := by
  have hd : oneOfTwo.definitions = .ok ⟨true, 1⟩ := by decide +kernel
  have hrun : Runs.exec updateStep oneOfTwo [twoDefinitions 2] = some bothOfTwo := by decide +kernel
  refine (searches_eq_iff hd hrun [] ⟨7, 0⟩ 1).1.mpr fun _ => ?_
  have hexposed : oneOfTwo.exposed = [⟨24, ⟨7, 0⟩, 0, 1, []⟩] := by decide +kernel
  exact ⟨_, hexposed ▸ List.mem_singleton_self _, rfl⟩

/-- **A search on a snapshot finds a variable that was added later**, which its `operator[]` does not
show. -/
theorem search_finds_later :
    oneOfTwo.definitions = .ok ⟨true, 1⟩ ∧
      Runs.exec updateStep oneOfTwo [twoDefinitions 2] = some bothOfTwo ∧
      (⟨true, 1⟩ : VariableDefinitions).findByName bothOfTwo.exposed [] 2
        ≠ ((⟨true, 1⟩ : VariableDefinitions).searchItems bothOfTwo.exposed fun item =>
          item.deviceSessionId = 2 ∧ item.name = []).getD {} := by
  decide +kernel

end VariableProvider

end ScApi
