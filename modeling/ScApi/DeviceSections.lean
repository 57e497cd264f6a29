import ScApi.ElementLoops

/-!
# What the sections of a device description say

The controls, inputs, feedbacks and HID inputs that a document stands for: a value for each document in
it, with the fields that the last elements with their keys set. The parsers of `DeviceInfo` read these
values.

## Main results

* `readsAs_controls`, `readsAs_inputs`, `readsAs_feedbacks`: sections of documents.
* `readsAs_hidInputs`: the axes and the buttons of HID inputs.
-/

open Bytes BoundedRead Bson

namespace ScApi.DeviceInfo

open ElementType BsonReader

/-! ### The values that elements stand for -/

/-- What is set last under a key. -/
def lastIn {β : Type} (g : Value → Option β) (key : String) (entries : List Entry) : Option β :=
  lastSet (named (ascii key) g) entries

/-- The text that is set last under a key. -/
def lastText (key : String) (entries : List Entry) : Option (List UInt8) :=
  lastIn Value.string? key entries

/-- A control after some elements. -/
def Control.after (c : Control) (entries : List Entry) : Control where
  id := c.id
  parentId := (lastText "parent" entries).getD c.parentId
  name := (lastText "name" entries).getD c.name
  type := ((lastText "role" entries).map controlTypeFromString).getD c.type

/-- An input after some elements. -/
def Input.after (thisDeviceId : UInt16) (c : Input) (entries : List Entry) : Input where
  id := c.id
  control := (lastText "control" entries).getD c.control
  type := ((lastText "type" entries).map inputTypeFromString).getD c.type
  role := ((lastText "role" entries).map inputRoleFromString).getD c.role
  «variable» := ((lastText "variable" entries).map (variableOf thisDeviceId)).getD c.variable

/-- A feedback after some elements. Its parameters are the last document among them. -/
def Feedback.after (c : Feedback) (entries : List Entry) : Feedback where
  id := c.id
  control := (lastText "control" entries).getD c.control
  type := ((lastText "type" entries).map feedbackTypeFromString).getD c.type
  parameters := (lastSet (fun e => e.2.document?.map fun els => some (document els.bytes))
    entries).getD c.parameters

/-- A mapping after some elements. The last number among them is that of the device. -/
def InputMapping.after (m : InputMapping) (entries : List Entry) : InputMapping where
  deviceId := (lastSet (fun e => e.2.i32?.map toUInt16) entries).getD m.deviceId
  inputId := (lastText "input" entries).getD m.inputId

/-- The mappings in an array. -/
def mappingsOf (els : Elements) : List InputMapping :=
  (documentsIn els).map fun x => ({} : InputMapping).after x.2.entries

/-- The first two elements of an array, if they are numbers. -/
def rangeOf (els : Elements) : Option (ℤ × ℤ) :=
  match els.entries with
  | (_, .leaf (.i32 low)) :: (_, .leaf (.i32 high)) :: _ => some (low.toInt, high.toInt)
  | _ => none

/-- The range that is set last. -/
def lastRange (entries : List Entry) : Option (ℤ × ℤ) :=
  lastIn (fun v => v.array?.bind rangeOf) "range" entries

/-- An axis after some elements. -/
def HidAxisInput.after (c : HidAxisInput) (entries : List Entry) : HidAxisInput where
  role := ((lastText "role" entries).map fun s => some (inputRoleFromString s)).getD c.role
  rangeLow := ((lastRange entries).map Prod.fst).getD c.rangeLow
  rangeHigh := ((lastRange entries).map Prod.snd).getD c.rangeHigh
  mappings := ((lastIn Value.array? "mappings" entries).map mappingsOf).getD c.mappings

/-- A button after some elements. -/
def HidButtonInput.after (c : HidButtonInput) (entries : List Entry) : HidButtonInput where
  role := ((lastText "role" entries).map inputRoleFromString).getD c.role
  mappings := ((lastIn Value.array? "mappings" entries).map mappingsOf).getD c.mappings

/-- The controls of a section. -/
def controlsOf (els : Elements) : List Control :=
  (documentsIn els).map fun x => ({ id := x.1 } : Control).after x.2.entries

/-- The inputs of a section. -/
def inputsOf (thisDeviceId : UInt16) (els : Elements) : List Input :=
  (documentsIn els).map fun x => ({ id := x.1 } : Input).after thisDeviceId x.2.entries

/-- The feedbacks of a section. -/
def feedbacksOf (els : Elements) : List Feedback :=
  (documentsIn els).map fun x => ({ id := x.1 } : Feedback).after x.2.entries

/-- The axes in an array, with a role for those that have none. -/
def axesOf (role : Option InputRole) (els : Elements) : List HidAxisInput :=
  (documentsIn els).map fun x => ({ role } : HidAxisInput).after x.2.entries

/-- The buttons in an array. -/
def buttonsOf (els : Elements) : List HidButtonInput :=
  (documentsIn els).map fun x => ({} : HidButtonInput).after x.2.entries

/-- The axes and the buttons after some elements. -/
def hidInputsAfter (hidInputs : List HidAxisInput × List HidButtonInput) (entries : List Entry) :
    List HidAxisInput × List HidButtonInput :=
  (((lastIn Value.array? "axis" entries).map (axesOf none)).getD hidInputs.1,
    ((lastIn Value.array? "buttons" entries).map buttonsOf).getD hidInputs.2)

/-! ### The elements of a section -/

/-- The types of the values that the parsers look at. -/
inductive Spelled : ElementType → Value → Prop
  | string (s : List UInt8) : Spelled elementStr (.leaf (.string s))
  | i32 (n : BitVec 32) : Spelled elementI32 (.leaf (.i32 n))
  | bool (b : Bool) : Spelled elementBool (.leaf (.bool b))
  | doc (els : Elements) : Spelled elementDoc (.sub .doc els)
  | array (els : Elements) : Spelled elementArray (.sub .array els)
  | other {t : ElementType} {v : Value}
      (htype : t ≠ elementStr ∧ t ≠ elementI32 ∧ t ≠ elementBool ∧ t ≠ elementDoc ∧ t ≠ elementArray)
      (hvalue : v.string? = none ∧ v.i32? = none ∧ v.bool? = none ∧ v.document? = none ∧
        v.array? = none) : Spelled t v

theorem spelled (v : Value) : Spelled (ElementType.ofByte v.typeByte) v := by
  have hother : ∀ t {v : Value}, t ≠ elementStr ∧ t ≠ elementI32 ∧ t ≠ elementBool ∧ t ≠ elementDoc ∧
      t ≠ elementArray → v.string? = none ∧ v.i32? = none ∧ v.bool? = none ∧ v.document? = none ∧
      v.array? = none → Spelled t v := fun _ _ => .other
  cases v with
  | leaf v =>
      cases v with
      | string s => exact .string s
      | i32 n => exact .i32 n
      | bool b => exact .bool b
      | double _ => exact hother elementDouble (by decide) ⟨rfl, rfl, rfl, rfl, rfl⟩
      | i64 _ => exact hother elementI64 (by decide) ⟨rfl, rfl, rfl, rfl, rfl⟩
      | null => exact hother elementNull (by decide) ⟨rfl, rfl, rfl, rfl, rfl⟩
      | binary _ _ => exact hother elementBinary (by decide) ⟨rfl, rfl, rfl, rfl, rfl⟩
  | sub kind els =>
      cases kind with
      | doc => exact .doc els
      | array => exact .array els

section

variable {mem : List UInt8} {thisDeviceId : UInt16}

theorem lastIn_singleton {β : Type} (g : Value → Option β) (name : String) (key : List UInt8)
    (v : Value) : lastIn g name [(key, v)] = if key = ascii name then g v else none := by
  rw [lastIn, lastSet_singleton, named]

theorem lastText_singleton (name : String) (key : List UInt8) (v : Value) :
    lastText name [(key, v)] = if key = ascii name then v.string? else none :=
  lastIn_singleton _ _ _ _

theorem lastRange_singleton (key : List UInt8) (v : Value) :
    lastRange [(key, v)] = if key = ascii "range" then v.array?.bind rangeOf else none :=
  lastIn_singleton _ _ _ _

/-- The body of a loop, for each kind of value. -/
theorem absorbs_of_spelled {σ : Type} {room : ℕ}
    {body : ElementType → σ → BsonReader → Read (σ × BsonReader)} {absorb : σ → Entry → σ}
    (h : ∀ ⦃last : ℕ⦄ ⦃outer : List DocState⦄ ⦃r : BsonReader⦄ ⦃start : ℕ⦄ ⦃key : List UInt8⦄
      ⦃v : Value⦄ ⦃t : ElementType⦄, Faces mem last outer r ⟨start, key, v⟩ →
      outer.length + room ≤ kMaxSubdocs → (r.onto ⟨start, key, v⟩).key = key → Spelled t v → ∀ s, ∃ r',
        body t s (r.onto ⟨start, key, v⟩) = .ok (absorb s (key, v), r') ∧
        InFront mem last outer (Item.mk start (key, v)).behind r') :
    Absorbs mem room body absorb :=
  fun _ _ _ ⟨_, _, v⟩ hfaces hroom => h hfaces hroom rfl (spelled v)

theorem absorbs_control :
    Absorbs mem 0 (controlElement mem) (fun c e => c.after [e]) := by
  refine absorbs_of_spelled fun last outer r start key v t hfaces _ hkey hspelled c =>
    ⟨_, ?_, hfaces.onto⟩
  cases hspelled with
  | string s =>
      simp only [controlElement, hfaces.textHere rfl, hkey, if_true, ok_bind, pure_eq_ok]
      split_ifs <;> simp +decide [Control.after, lastText_singleton, Value.string?, *]
  | other htype hvalue =>
      simp [controlElement, Control.after, lastText_singleton, htype, hvalue, pure_eq_ok]
  | _ => simp [controlElement, Control.after, lastText_singleton, Value.string?, pure_eq_ok]

theorem absorbs_input :
    Absorbs mem 0 (inputElement mem thisDeviceId) (fun c e => c.after thisDeviceId [e]) := by
  refine absorbs_of_spelled fun last outer r start key v t hfaces _ hkey hspelled c =>
    ⟨_, ?_, hfaces.onto⟩
  cases hspelled with
  | string s =>
      simp only [inputElement, hfaces.textHere rfl, hkey, if_true, ok_bind, pure_eq_ok]
      split_ifs <;> simp +decide [Input.after, lastText_singleton, Value.string?, *]
  | other htype hvalue =>
      simp [inputElement, Input.after, lastText_singleton, htype, hvalue, pure_eq_ok]
  | _ => simp [inputElement, Input.after, lastText_singleton, Value.string?, pure_eq_ok]

theorem absorbs_feedback :
    Absorbs mem 0 (feedbackElement mem) (fun c e => c.after [e]) := by
  refine absorbs_of_spelled fun last outer r start key v t hfaces _ hkey hspelled c =>
    ⟨_, ?_, hfaces.onto⟩
  cases hspelled with
  | string s =>
      simp only [feedbackElement, hfaces.textHere rfl, hkey, if_true, ok_bind, pure_eq_ok]
      split_ifs <;> simp +decide [Feedback.after, lastText_singleton, lastSet_singleton,
        Value.string?, Value.document?, *]
  | doc els =>
      simp [feedbackElement, hfaces.documentHere rfl, Feedback.after, lastText_singleton,
        lastSet_singleton, Value.string?, Value.document?, ok_bind, pure_eq_ok]
  | other htype hvalue =>
      simp [feedbackElement, Feedback.after, lastText_singleton, lastSet_singleton, htype, hvalue,
        pure_eq_ok]
  | _ =>
      simp [feedbackElement, Feedback.after, lastText_singleton, lastSet_singleton, Value.string?,
        Value.document?, pure_eq_ok]

theorem absorbs_mapping :
    Absorbs mem 0 (mappingElement mem) (fun m e => m.after [e]) := by
  refine absorbs_of_spelled fun last outer r start key v t hfaces _ hkey hspelled c =>
    ⟨_, ?_, hfaces.onto⟩
  cases hspelled with
  | string s =>
      simp only [mappingElement, hfaces.textHere rfl, hkey, true_and, ok_bind, pure_eq_ok]
      split_ifs <;> simp_all [InputMapping.after, lastText_singleton, lastSet_singleton,
        Value.string?, Value.i32?]
  | i32 n =>
      simp [mappingElement, hfaces.int32Value rfl, InputMapping.after, lastText_singleton,
        lastSet_singleton, Value.string?, Value.i32?, ok_bind, pure_eq_ok]
  | other htype hvalue =>
      simp [mappingElement, InputMapping.after, lastText_singleton, lastSet_singleton, htype, hvalue,
        pure_eq_ok]
  | _ =>
      simp [mappingElement, InputMapping.after, lastText_singleton, lastSet_singleton, Value.string?,
        Value.i32?, pure_eq_ok]

/-! ### Sections of documents -/

theorem lastIn_cons {β : Type} (g : Value → Option β) (name : String) (e : Entry)
    (entries : List Entry) :
    lastIn g name (e :: entries) = (lastIn g name entries).or (lastIn g name [e]) := by
  rw [lastIn, lastIn, lastIn, lastSet_cons, lastSet_singleton]

theorem lastText_cons (name : String) (e : Entry) (entries : List Entry) :
    lastText name (e :: entries) = (lastText name entries).or (lastText name [e]) :=
  lastIn_cons _ _ _ _

theorem lastRange_cons (e : Entry) (entries : List Entry) :
    lastRange (e :: entries) = (lastRange entries).or (lastRange [e]) :=
  lastIn_cons _ _ _ _

/-- **A section of documents**, each of which is read element by element. -/
theorem readsAs_documents {α : Type} {room : ℕ} {after : α → List Entry → α}
    {element : ElementType → α → BsonReader → Read (α × BsonReader)}
    (h : Absorbs mem room element (fun c e => after c [e])) (hnil : ∀ c, after c [] = c)
    (hcons : ∀ c e entries, after c (e :: entries) = after (after c [e]) entries)
    (new : List UInt8 → α) (key : List UInt8) (els : Elements) :
    ReadsAs mem (room + 1) key (parseDocuments mem new element) els
      ((documentsIn els).map fun x => after (new x.1) x.2.entries) := by
  have hread := h.documents new key els
  simp only [foldl_sets hnil hcons] at hread
  exact hread

/-- **The controls** in a section. -/
theorem readsAs_controls (key : List UInt8) (els : Elements) :
    ReadsAs mem 1 key (parseControls mem) els (controlsOf els) := by
  refine readsAs_documents absorbs_control (fun _ => rfl) (fun c e entries => ?_) _ key els
  simp only [Control.after, lastText_cons _ e entries, Option.map_or, Option.getD_or]

/-- **The inputs** in a section. -/
theorem readsAs_inputs (key : List UInt8) (els : Elements) :
    ReadsAs mem 1 key (parseInputs mem thisDeviceId) els (inputsOf thisDeviceId els) := by
  refine readsAs_documents absorbs_input (fun _ => rfl) (fun c e entries => ?_) _ key els
  simp only [Input.after, lastText_cons _ e entries, Option.map_or, Option.getD_or]

/-- **The feedbacks** in a section. -/
theorem readsAs_feedbacks (key : List UInt8) (els : Elements) :
    ReadsAs mem 1 key (parseFeedbacks mem) els (feedbacksOf els) := by
  refine readsAs_documents absorbs_feedback (fun _ => rfl) (fun c e entries => ?_) _ key els
  simp only [Feedback.after, lastText_cons _ e entries, lastSet_cons e entries, lastSet_singleton,
    Option.map_or, Option.getD_or]

theorem readsAs_mappings (key : List UInt8) (els : Elements) :
    ReadsAs mem 1 key (parseMappings mem) els (mappingsOf els) := by
  refine readsAs_documents absorbs_mapping (fun _ => rfl) (fun c e entries => ?_) _ key els
  simp only [InputMapping.after, lastText_cons _ e entries, lastSet_cons e entries,
    lastSet_singleton, Option.getD_or]

/-! ### HID inputs -/

/-- The range of an axis. At most two elements are read, and the rest is left. -/
theorem readsAs_range (key : List UInt8) (els : Elements) :
    ReadsAs mem 0 key (parseRange mem) els (rangeOf els) := by
  intro pre post outer r hloc hr _ _
  rw [rangeOf, parseRange]
  generalize els.entries = entries at hloc hr ⊢
  cases entries with
  | nil =>
      have hnext := hr.next_end hloc (by simp)
      refine ⟨_, ?_, hr.before.inside.next hnext, rfl, rfl⟩
      rw [hnext, ok_bind]
      rfl
  | cons e rest =>
      obtain ⟨key, v⟩ := e
      obtain ⟨hfaces, hnext, -⟩ := hr.next_element hloc rfl
      rw [hnext, ok_bind]
      dsimp only
      by_cases hlow : (Item.mk pre.length (key, v)).type = elementI32
      swap
      · refine ⟨_, ?_, hr.before.inside.next hnext, rfl, rfl⟩
        rw [if_neg hlow]
        cases v with
        | leaf v => cases v <;> first | rfl | exact absurd rfl hlow
        | sub kind els => rfl
      obtain ⟨low, rfl⟩ := eq_i32 hlow
      have hfront := hfaces.onto
      rw [if_pos hlow, hfaces.int32Value rfl, ok_bind]
      have hbehind : (Item.mk pre.length (key, .leaf (.i32 low))).behind
          = (pre ++ Entry.bytes (key, .leaf (.i32 low))).length := by
        rw [Item.behind, List.length_append]
      rw [hbehind] at hfront
      cases rest with
      | nil =>
          have hnext₂ := hfront.next_end hloc.tail (by simp)
          refine ⟨_, ?_, hfront.before.inside.next hnext₂, rfl, rfl⟩
          rw [hnext₂, ok_bind]
          rfl
      | cons e rest =>
          obtain ⟨key₂, v₂⟩ := e
          obtain ⟨hfaces₂, hnext₂, -⟩ := hfront.next_element hloc.tail
            (by rw [List.flatMap_cons, List.length_append, List.length_append, Nat.add_assoc])
          refine ⟨_, ?_, hfront.before.inside.next hnext₂, rfl, rfl⟩
          rw [hnext₂, ok_bind]
          dsimp only
          by_cases hhigh : (Item.mk (pre ++ Entry.bytes (key, .leaf (.i32 low))).length
            (key₂, v₂)).type = elementI32
          · obtain ⟨high, rfl⟩ := eq_i32 hhigh
            rw [if_pos hhigh, hfaces₂.int32Value rfl]
            rfl
          · rw [if_neg hhigh]
            cases v₂ with
            | leaf v => cases v <;> first | rfl | exact absurd rfl hhigh
            | sub kind els => rfl

theorem absorbs_axis : Absorbs mem 2 (axisElement mem) (fun c e => c.after [e]) := by
  refine absorbs_of_spelled fun last outer r start key v t hfaces hroom hkey hspelled c => ?_
  cases hspelled with
  | string s =>
      refine ⟨_, ?_, hfaces.onto⟩
      simp only [axisElement, hfaces.textHere rfl, hkey, true_and, ok_bind, pure_eq_ok]
      split_ifs <;> simp_all [HidAxisInput.after, lastText_singleton, lastRange_singleton,
        lastIn_singleton, Value.string?, Value.array?]
  | array els =>
      obtain ⟨r₁, hmappings, hfront₁⟩ := hfaces.inSubdocument rfl (readsAs_mappings key els) hroom
      obtain ⟨r₂, hrange, hfront₂⟩ := hfaces.inSubdocument rfl (readsAs_range key els) (by omega)
      simp only [axisElement, hkey, reduceCtorEq, false_and, true_and, if_false, hmappings, hrange,
        ok_bind, pure_eq_ok]
      split_ifs with hkey₁ hkey₂
      · refine ⟨r₁, ?_, hfront₁⟩
        simp +decide [HidAxisInput.after, lastText_singleton, lastRange_singleton, lastIn_singleton,
          Value.array?, hkey₁]
      · refine ⟨r₂, ?_, hfront₂⟩
        cases hnumbers : rangeOf els <;> simp +decide [HidAxisInput.after, lastText_singleton,
          lastRange_singleton, lastIn_singleton, Value.array?, hkey₂, hnumbers]
      · refine ⟨_, ?_, hfaces.onto⟩
        simp [HidAxisInput.after, lastText_singleton, lastRange_singleton, lastIn_singleton,
          Value.string?, hkey₁, hkey₂]
  | other htype hvalue =>
      refine ⟨_, ?_, hfaces.onto⟩
      simp [axisElement, HidAxisInput.after, lastText_singleton, lastRange_singleton,
        lastIn_singleton, htype, hvalue, pure_eq_ok]
  | _ =>
      refine ⟨_, ?_, hfaces.onto⟩
      simp [axisElement, HidAxisInput.after, lastText_singleton, lastRange_singleton,
        lastIn_singleton, Value.string?, Value.array?, pure_eq_ok]

theorem absorbs_button : Absorbs mem 2 (buttonElement mem) (fun c e => c.after [e]) := by
  refine absorbs_of_spelled fun last outer r start key v t hfaces hroom hkey hspelled c => ?_
  cases hspelled with
  | string s =>
      refine ⟨_, ?_, hfaces.onto⟩
      simp only [buttonElement, hfaces.textHere rfl, hkey, true_and, ok_bind, pure_eq_ok]
      split_ifs <;> simp_all [HidButtonInput.after, lastText_singleton, lastIn_singleton,
        Value.string?, Value.array?]
  | array els =>
      obtain ⟨r₁, hmappings, hfront₁⟩ := hfaces.inSubdocument rfl (readsAs_mappings key els) hroom
      simp only [buttonElement, hkey, reduceCtorEq, false_and, true_and, if_false, hmappings,
        ok_bind, pure_eq_ok]
      split_ifs with hkey₁
      · refine ⟨r₁, ?_, hfront₁⟩
        simp [HidButtonInput.after, lastText_singleton, lastIn_singleton, Value.string?,
          Value.array?, hkey₁]
      · refine ⟨_, ?_, hfaces.onto⟩
        simp [HidButtonInput.after, lastText_singleton, lastIn_singleton, Value.string?, hkey₁]
  | other htype hvalue =>
      refine ⟨_, ?_, hfaces.onto⟩
      simp [buttonElement, HidButtonInput.after, lastText_singleton, lastIn_singleton, htype, hvalue,
        pure_eq_ok]
  | _ =>
      refine ⟨_, ?_, hfaces.onto⟩
      simp [buttonElement, HidButtonInput.after, lastText_singleton, lastIn_singleton,
        Value.string?, Value.array?, pure_eq_ok]

theorem readsAs_axes (key : List UInt8) (els : Elements) :
    ReadsAs mem 3 key (parseHidAxisInputs mem) els (axesOf none els) := by
  refine readsAs_documents absorbs_axis (fun _ => rfl) (fun c e entries => ?_) _ key els
  simp only [HidAxisInput.after, lastText_cons _ e entries, lastRange_cons e entries,
    lastIn_cons _ _ e entries, Option.map_or, Option.getD_or]

theorem readsAs_buttons (key : List UInt8) (els : Elements) :
    ReadsAs mem 3 key (parseHidButtonInputs mem) els (buttonsOf els) := by
  refine readsAs_documents absorbs_button (fun _ => rfl) (fun c e entries => ?_) _ key els
  simp only [HidButtonInput.after, lastText_cons _ e entries, lastIn_cons _ _ e entries,
    Option.map_or, Option.getD_or]

theorem absorbs_hidInput :
    Absorbs mem 4 (hidInputElement mem) (fun hidInputs e => hidInputsAfter hidInputs [e]) := by
  refine absorbs_of_spelled fun last outer r start key v t hfaces hroom hkey hspelled c => ?_
  cases hspelled with
  | array els =>
      obtain ⟨r₁, haxes, hfront₁⟩ := hfaces.inSubdocument rfl (readsAs_axes key els) hroom
      obtain ⟨r₂, hbuttons, hfront₂⟩ := hfaces.inSubdocument rfl (readsAs_buttons key els) hroom
      simp only [hidInputElement, hkey, if_true, haxes, hbuttons, ok_bind, pure_eq_ok]
      split_ifs with hkey₁ hkey₂
      · refine ⟨r₁, ?_, hfront₁⟩
        simp +decide [hidInputsAfter, lastIn_singleton, Value.array?, hkey₁]
      · refine ⟨r₂, ?_, hfront₂⟩
        simp +decide [hidInputsAfter, lastIn_singleton, Value.array?, hkey₂]
      · refine ⟨_, ?_, hfaces.onto⟩
        simp [hidInputsAfter, lastIn_singleton, hkey₁, hkey₂]
  | other htype hvalue =>
      refine ⟨_, ?_, hfaces.onto⟩
      simp [hidInputElement, hidInputsAfter, lastIn_singleton, htype, hvalue, pure_eq_ok]
  | _ =>
      refine ⟨_, ?_, hfaces.onto⟩
      simp [hidInputElement, hidInputsAfter, lastIn_singleton, Value.array?, pure_eq_ok]

/-- **The axes and the buttons** of a section of HID inputs. -/
theorem readsAs_hidInputs (key : List UInt8) (els : Elements) :
    ReadsAs mem 4 key (parseHidInputs mem) els (hidInputsAfter ([], []) els.entries) := by
  have hread : ReadsAs mem 4 key (parseHidInputs mem) els _ := absorbs_hidInput.readsAs key ([], []) els
  have hcons : ∀ hidInputs e entries, hidInputsAfter hidInputs (e :: entries)
      = hidInputsAfter (hidInputsAfter hidInputs [e]) entries := fun hidInputs e entries => by
    simp only [hidInputsAfter, lastIn_cons _ _ e entries, Option.map_or, Option.getD_or]
  rw [foldl_sets (fun _ => rfl) hcons] at hread
  exact hread

end

end ScApi.DeviceInfo
