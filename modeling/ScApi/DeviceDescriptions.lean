import ScApi.DeviceSections

/-!
# What is read of a device description

A device description says the same in every order of its elements. `Data::parse` returns what the
elements behind the unique id of the device say: the search for the id has left the reader there, and the
loop does not go back. Two roles have no initializer: a device without a role gets the one with number
zero, and the role of an axis is not set.

## Main results

* `parse_behind`: the parsed data is what the elements behind the unique id say.
* `parse_described_iff`: when that is what the description says.
-/

open Bytes BoundedRead Bson

namespace ScApi.DeviceInfo

open ElementType BsonReader

/-! ### The elements of a description -/

/-- What the loop of `Data::parse` has set after some elements. -/
def dataAfter (s : Data × UsbDeviceInfo) (entries : List Entry) : Data × UsbDeviceInfo :=
  let hidInputs := (lastIn Value.document? "hid_input" entries).map fun els =>
    hidInputsAfter ([], []) els.entries
  ({ s.1 with
      role := ((lastText "role" entries).map deviceRoleFromString).getD s.1.role
      isConnected := (lastIn Value.bool? "is_connected" entries).getD s.1.isConnected
      controls := ((lastIn Value.document? "control" entries).map controlsOf).getD s.1.controls
      inputs :=
        ((lastIn Value.document? "input" entries).map (inputsOf s.1.sessionId)).getD s.1.inputs
      feedbacks := ((lastIn Value.document? "feedback" entries).map feedbacksOf).getD s.1.feedbacks
      hidAxis := (hidInputs.map Prod.fst).getD s.1.hidAxis
      hidButtons := (hidInputs.map Prod.snd).getD s.1.hidButtons },
    { hidDevicePath := (lastText "usb_path" entries).getD s.2.hidDevicePath
      pid := ((lastIn Value.i32? "usb_pid" entries).map toUInt16).getD s.2.pid
      vid := ((lastIn Value.i32? "usb_vid" entries).map toUInt16).getD s.2.vid })

section Loop

variable {mem : List UInt8}

theorem readsAs_section (d : Data) (key : List UInt8) (els : Elements) :
    ReadsAs mem 4 key (sectionElement mem d) els (dataAfter (d, {}) [(key, .sub .doc els)]).1 := by
  intro pre post outer r hloc hr hroom hkey
  obtain ⟨r₁, hcontrols, hmoved₁⟩ := readsAs_controls key els hloc hr (by omega) hkey
  have hread : ReadsAs mem 1 key (parseInputs mem d.sessionId) els _ := readsAs_inputs key els
  obtain ⟨r₂, hinputs, hmoved₂⟩ := hread hloc hr (by omega) hkey
  obtain ⟨r₃, hfeedbacks, hmoved₃⟩ := readsAs_feedbacks key els hloc hr (by omega) hkey
  obtain ⟨r₄, hhid, hmoved₄⟩ := readsAs_hidInputs key els hloc hr hroom hkey
  simp only [sectionElement, hkey, hcontrols, hinputs, hfeedbacks, hhid, ok_bind, pure_eq_ok]
  have hsame : Moved mem r r := ⟨hr.before.inside, rfl, rfl⟩
  split_ifs with h₁ h₂ h₃ h₄
  · refine ⟨r₁, ?_, hmoved₁⟩
    simp +decide [dataAfter, lastText_singleton, lastIn_singleton, Value.document?, h₁]
  · refine ⟨r₂, ?_, hmoved₂⟩
    simp +decide [dataAfter, lastText_singleton, lastIn_singleton, Value.document?, h₂]
  · refine ⟨r₃, ?_, hmoved₃⟩
    simp +decide [dataAfter, lastText_singleton, lastIn_singleton, Value.document?, h₃]
  · refine ⟨r₄, ?_, hmoved₄⟩
    simp +decide [dataAfter, lastText_singleton, lastIn_singleton, Value.document?, h₄]
  · refine ⟨r, ?_, hsame⟩
    simp [dataAfter, lastText_singleton, lastIn_singleton, Value.string?, Value.bool?, h₁, h₂, h₃, h₄]

/-- A document sets nothing that is not a section. -/
theorem dataAfter_document (d : Data) (usbInfo : UsbDeviceInfo) (key : List UInt8) (els : Elements) :
    dataAfter (d, usbInfo) [(key, .sub .doc els)]
      = ((dataAfter (d, {}) [(key, .sub .doc els)]).1, usbInfo) := by
  simp [dataAfter, lastText_singleton, lastIn_singleton, Value.string?, Value.i32?]

theorem absorbs_data : Absorbs mem 5 (dataElement mem) (fun s e => dataAfter s [e]) := by
  refine absorbs_of_spelled fun last outer r start key v t hfaces hroom hkey hspelled ⟨d, usbInfo⟩ => ?_
  cases hspelled with
  | string s =>
      refine ⟨_, ?_, hfaces.onto⟩
      simp only [dataElement, hfaces.textHere rfl, hkey, reduceCtorEq, if_false, if_true, ok_bind,
        pure_eq_ok]
      split_ifs <;> simp +decide [dataAfter, lastText_singleton, lastIn_singleton, Value.string?,
        Value.i32?, Value.bool?, Value.document?, *]
  | i32 n =>
      refine ⟨_, ?_, hfaces.onto⟩
      simp only [dataElement, hfaces.int32Value rfl, hkey, reduceCtorEq, if_false, if_true, ok_bind,
        pure_eq_ok]
      split_ifs <;> simp +decide [dataAfter, lastText_singleton, lastIn_singleton, Value.string?,
        Value.i32?, Value.bool?, Value.document?, *]
  | bool b =>
      refine ⟨_, ?_, hfaces.onto⟩
      simp only [dataElement, hfaces.boolValue rfl, hkey, reduceCtorEq, if_false, true_and, ok_bind,
        pure_eq_ok]
      split_ifs <;> simp +decide [dataAfter, lastText_singleton, lastIn_singleton, Value.string?,
        Value.i32?, Value.bool?, Value.document?, *]
  | doc els =>
      obtain ⟨r', hsection, hfront⟩ := hfaces.inSubdocument rfl (readsAs_section d key els) hroom
      refine ⟨r', ?_, hfront⟩
      simp only [dataElement, if_true, hsection, ok_bind, pure_eq_ok]
      rw [dataAfter_document d usbInfo]
  | array els =>
      refine ⟨_, ?_, hfaces.onto⟩
      simp [dataElement, dataAfter, lastText_singleton, lastIn_singleton, Value.string?, Value.i32?,
        Value.bool?, Value.document?, pure_eq_ok]
  | other htype hvalue =>
      refine ⟨_, ?_, hfaces.onto⟩
      simp [dataElement, dataAfter, lastText_singleton, lastIn_singleton, htype, hvalue, pure_eq_ok]

theorem foldl_data (entries : List Entry) (s : Data × UsbDeviceInfo) :
    entries.foldl (fun s e => dataAfter s [e]) s = dataAfter s entries := by
  refine foldl_sets (fun _ => rfl) (fun s e entries => ?_) entries s
  simp only [dataAfter, lastText_cons _ e entries, lastIn_cons _ _ e entries, Option.map_or,
    Option.getD_or]

end Loop

/-! ### What a description says -/

/-- What is stored under a key. -/
def fieldIn {β : Type} (g : Value → Option β) (key : String) (entries : List Entry) : Option β :=
  (entries.lookup (ascii key)).bind g

/-- The axes of a section of HID inputs. -/
def axesIn (role : Option InputRole) (els : Elements) : List HidAxisInput :=
  ((lastIn Value.array? "axis" els.entries).map (axesOf role)).getD []

/-- The buttons of a section of HID inputs. -/
def buttonsIn (els : Elements) : List HidButtonInput :=
  ((lastIn Value.array? "buttons" els.entries).map buttonsOf).getD []

/-- The USB data, if there is a path. -/
def usbInfoIn (entries : List Entry) : Option UsbDeviceInfo :=
  let hidDevicePath := (fieldIn Value.string? "usb_path" entries).getD []
  if hidDevicePath = [] then
    none
  else
    some {
      hidDevicePath
      pid := ((fieldIn Value.i32? "usb_pid" entries).map toUInt16).getD 0
      vid := ((fieldIn Value.i32? "usb_vid" entries).map toUInt16).getD 0 }

/-- What some elements say about a device with these ids, with roles for a device and for axes that have
none. -/
def Data.saying (role : DeviceRole) (axisRole : Option InputRole) (uid : List UInt8)
    (sessionId : UInt16) (bson : List UInt8) (entries : List Entry) : Data where
  uid
  sessionId
  role := ((fieldIn Value.string? "role" entries).map deviceRoleFromString).getD role
  isConnected := (fieldIn Value.bool? "is_connected" entries).getD false
  controls := ((fieldIn Value.document? "control" entries).map controlsOf).getD []
  inputs := ((fieldIn Value.document? "input" entries).map (inputsOf sessionId)).getD []
  feedbacks := ((fieldIn Value.document? "feedback" entries).map feedbacksOf).getD []
  hidAxis := ((fieldIn Value.document? "hid_input" entries).map (axesIn axisRole)).getD []
  hidButtons := ((fieldIn Value.document? "hid_input" entries).map buttonsIn).getD []
  usbInfo := usbInfoIn entries
  bson

/-- **What a description says**: what is stored under the keys, and unknown or empty values for what is
not there. -/
def described (entries : List Entry) (bson : List UInt8) : Data :=
  .saying .unknown (some .unknown) ((fieldIn Value.string? "device_uid" entries).getD [])
    (((fieldIn Value.i32? "logical_id" entries).map toUInt16).getD 0) bson entries

/-- **A well-formed device description** with distinct keys, a number for the session and an id. -/
structure DeviceDocument (entries : List Entry) : Prop where
  clean : ∀ e ∈ entries, 0 ∉ e.1 ∧ e.2.CleanKeys
  size : (document (entries.flatMap Entry.bytes)).length < 2147483648
  keys : (entries.map Prod.fst).Nodup
  logicalId : (fieldIn Value.i32? "logical_id" entries).isSome
  deviceUid : (fieldIn Value.string? "device_uid" entries).isSome

/-- The elements in front of the unique id. -/
def aheadOfUid (entries : List Entry) : List Entry :=
  entries.takeWhile fun e => e.1 ≠ ascii "device_uid"

/-- The elements behind the unique id. -/
def behindUid (entries : List Entry) : List Entry :=
  (entries.dropWhile fun e => e.1 ≠ ascii "device_uid").tail

/-- **Nothing is missed** in a description: no element in front of the unique id says more than that a
value is unknown or empty, up to the role that is the default, and the device and its axes have roles. -/
structure NothingMissed (entries : List Entry) : Prop where
  role : (fieldIn Value.string? "role" (behindUid entries)).isSome ∨
    fieldIn Value.string? "role" (aheadOfUid entries) = some (ascii "wheel")
  isConnected : fieldIn Value.bool? "is_connected" (aheadOfUid entries) ≠ some true
  control : ∀ els ∈ fieldIn Value.document? "control" (aheadOfUid entries), documentsIn els = []
  input : ∀ els ∈ fieldIn Value.document? "input" (aheadOfUid entries), documentsIn els = []
  feedback : ∀ els ∈ fieldIn Value.document? "feedback" (aheadOfUid entries), documentsIn els = []
  axis : ∀ els ∈ fieldIn Value.document? "hid_input" (aheadOfUid entries),
    ∀ axes ∈ lastIn Value.array? "axis" els.entries, documentsIn axes = []
  buttons : ∀ els ∈ fieldIn Value.document? "hid_input" (aheadOfUid entries),
    ∀ buttons ∈ lastIn Value.array? "buttons" els.entries, documentsIn buttons = []
  axisRole : ∀ els ∈ fieldIn Value.document? "hid_input" (behindUid entries),
    ∀ axes ∈ lastIn Value.array? "axis" els.entries,
      ∀ x ∈ documentsIn axes, (lastText "role" x.2.entries).isSome
  usbPath : ∀ s ∈ fieldIn Value.string? "usb_path" (aheadOfUid entries), s = []
  usbIds : ∀ s ∈ fieldIn Value.string? "usb_path" (behindUid entries), s ≠ [] →
    ∀ key ∈ ["usb_pid", "usb_vid"], ∀ n ∈ fieldIn Value.i32? key (aheadOfUid entries), toUInt16 n = 0

section Fields

variable {β γ : Type} {entries : List Entry} {key : String} {g : Value → Option β}

theorem lastIn_eq_fieldIn (hkeys : (entries.map Prod.fst).Nodup) (g : Value → Option β)
    (key : String) : lastIn g key entries = fieldIn g key entries :=
  lastSet_named hkeys

/-- The elements in front of the unique id, the unique id, and the elements behind it. -/
theorem eq_ahead_behind {uid : List UInt8} (hkeys : (entries.map Prod.fst).Nodup)
    (h : fieldIn Value.string? "device_uid" entries = some uid) :
    entries = aheadOfUid entries ++ (ascii "device_uid", .leaf (.string uid)) :: behindUid entries ∧
      ∀ e ∈ aheadOfUid entries, e.1 ≠ ascii "device_uid" := by
  refine ⟨?_, fun e he => of_decide_eq_true (List.all_eq_true.mp List.all_takeWhile e he)⟩
  induction entries with
  | nil => cases h
  | cons e rest ih =>
      obtain ⟨key, v⟩ := e
      rw [fieldIn, List.lookup_cons] at h
      by_cases hkey : key = ascii "device_uid"
      · subst hkey
        rw [beq_self_eq_true] at h
        have hv : v = .leaf (.string uid) := by
          cases v with
          | leaf v => cases v <;> cases h; rfl
          | sub kind els => cases h
        rw [aheadOfUid, behindUid, List.takeWhile_cons_of_neg (by simp),
          List.dropWhile_cons_of_neg (by simp), hv]
        rfl
      · rw [beq_eq_false_iff_ne.mpr (Ne.symm hkey)] at h
        rw [aheadOfUid, behindUid, List.takeWhile_cons_of_pos (by simpa using hkey),
          List.dropWhile_cons_of_pos (by simpa using hkey), List.cons_append]
        exact congrArg _ (ih (List.nodup_cons.mp hkeys).2 h)

/-- What is stored under a key is in front of the unique id or behind it. -/
theorem fieldIn_eq_or (key : String) (hkeys : (entries.map Prod.fst).Nodup) {uid : List UInt8}
    (h : fieldIn Value.string? "device_uid" entries = some uid)
    (hkey : ascii key ≠ ascii "device_uid") (g : Value → Option β) :
    fieldIn g key entries
        = (fieldIn g key (aheadOfUid entries)).or (fieldIn g key (behindUid entries)) ∧
      (fieldIn g key (aheadOfUid entries) = none ∨ fieldIn g key (behindUid entries) = none) := by
  obtain ⟨hsplit, -⟩ := eq_ahead_behind hkeys h
  rw [hsplit, List.map_append, List.map_cons, List.nodup_append] at hkeys
  obtain ⟨-, -, hdisjoint⟩ := hkeys
  have hlookup : entries.lookup (ascii key) = ((aheadOfUid entries).lookup (ascii key)).or
      ((behindUid entries).lookup (ascii key)) := by
    nth_rewrite 1 [hsplit]
    rw [List.lookup_append, List.lookup_cons, beq_eq_false_iff_ne.mpr hkey]
  have hone : (aheadOfUid entries).lookup (ascii key) = none ∨
      (behindUid entries).lookup (ascii key) = none := by
    by_contra hboth
    rw [not_or, List.lookup_eq_none_iff, List.lookup_eq_none_iff] at hboth
    push Not at hboth
    obtain ⟨⟨e, he, heq⟩, ⟨e', he', heq'⟩⟩ := hboth
    have hkeyed : ∀ {k : List UInt8}, ¬ (ascii key != k) = true → ascii key = k := fun hne => by
      simpa using hne
    exact hdisjoint e.1 (List.mem_map_of_mem he) e'.1
      (List.mem_cons_of_mem _ (List.mem_map_of_mem he'))
      ((hkeyed heq).symm.trans (hkeyed heq'))
  rw [fieldIn, fieldIn, fieldIn, hlookup]
  rcases hone with hnone | hnone
  · simp [hnone]
  · simp [hnone]

variable {a b : Option β}

theorem getD_role_eq_iff {a b : Option (List UInt8)} (hone : a = none ∨ b = none) :
    (b.map deviceRoleFromString).getD .wheel = ((a.or b).map deviceRoleFromString).getD .unknown ↔
      b.isSome ∨ a = some (ascii "wheel") := by
  cases b with
  | some s =>
      obtain rfl := hone.resolve_right (Option.some_ne_none s)
      exact iff_of_true rfl (.inl rfl)
  | none =>
      cases a with
      | none => exact iff_of_false DeviceRole.noConfusion (by simp)
      | some s =>
          simp only [Option.map_none, Option.getD_none, Option.or_none, Option.map_some,
            Option.getD_some, Option.isSome_none, Bool.false_eq_true, false_or, Option.some.injEq]
          rw [eq_comm, deviceRoleFromString_eq_wheel_iff]

theorem getD_flag_eq_iff {a b : Option Bool} (hone : a = none ∨ b = none) :
    b.getD false = (a.or b).getD false ↔ a ≠ some true := by
  cases a with
  | none => simp
  | some x =>
      obtain rfl := hone.resolve_left (Option.some_ne_none x)
      cases x <;> simp

theorem getD_list_eq_iff {f : β → List γ} (hone : a = none ∨ b = none) :
    (b.map f).getD [] = ((a.or b).map f).getD [] ↔ ∀ x ∈ a, f x = [] := by
  cases a with
  | none => simp
  | some x =>
      obtain rfl := hone.resolve_left (Option.some_ne_none x)
      simp [eq_comm]

/-- Axes have the same roles with and without one for those that have none, when all of them have one. -/
theorem axesOf_none_eq_iff (els : Elements) :
    axesOf none els = axesOf (some .unknown) els ↔
      ∀ x ∈ documentsIn els, (lastText "role" x.2.entries).isSome := by
  rw [axesOf, axesOf, List.map_inj_left]
  refine forall₂_congr fun x _ => ?_
  rw [HidAxisInput.after, HidAxisInput.after]
  cases lastText "role" x.2.entries <;> simp

theorem getD_axes_eq_iff {a b : Option Elements} (hone : a = none ∨ b = none) :
    (b.map (axesIn none)).getD [] = ((a.or b).map (axesIn (some .unknown))).getD [] ↔
      (∀ els ∈ a, ∀ axes ∈ lastIn Value.array? "axis" els.entries, documentsIn axes = []) ∧
        ∀ els ∈ b, ∀ axes ∈ lastIn Value.array? "axis" els.entries,
          ∀ x ∈ documentsIn axes, (lastText "role" x.2.entries).isSome := by
  cases a with
  | some els =>
      obtain rfl := hone.resolve_left (Option.some_ne_none els)
      refine Iff.trans eq_comm ?_
      cases h : lastIn Value.array? "axis" els.entries <;> simp [axesIn, axesOf, h]
  | none =>
      cases b with
      | none => simp
      | some els =>
          cases h : lastIn Value.array? "axis" els.entries with
          | none => simp [axesIn, h]
          | some axes => simp [axesIn, h, axesOf_none_eq_iff]

theorem getD_buttons_eq_iff {a b : Option Elements} (hone : a = none ∨ b = none) :
    (b.map buttonsIn).getD [] = ((a.or b).map buttonsIn).getD [] ↔
      ∀ els ∈ a, ∀ buttons ∈ lastIn Value.array? "buttons" els.entries, documentsIn buttons = [] := by
  rw [getD_list_eq_iff hone]
  refine forall₂_congr fun els _ => ?_
  cases h : lastIn Value.array? "buttons" els.entries <;> simp [buttonsIn, buttonsOf, h]

theorem usbInfoIn_eq_iff {uid : List UInt8} (hkeys : (entries.map Prod.fst).Nodup)
    (h : fieldIn Value.string? "device_uid" entries = some uid) :
    usbInfoIn (behindUid entries) = usbInfoIn entries ↔
      (∀ s ∈ fieldIn Value.string? "usb_path" (aheadOfUid entries), s = []) ∧
        ∀ s ∈ fieldIn Value.string? "usb_path" (behindUid entries), s ≠ [] →
          ∀ key ∈ ["usb_pid", "usb_vid"], ∀ n ∈ fieldIn Value.i32? key (aheadOfUid entries),
            toUInt16 n = 0 := by
  have hids : ∀ {a b : Option ℤ}, a = none ∨ b = none →
      ((b.map toUInt16).getD 0 = ((a.or b).map toUInt16).getD 0 ↔ ∀ n ∈ a, toUInt16 n = 0) := by
    intro a b hone
    cases a with
    | none => simp
    | some n =>
        obtain rfl := hone.resolve_left (Option.some_ne_none n)
        simp [eq_comm]
  obtain ⟨hpath, hpathOne⟩ := fieldIn_eq_or "usb_path" hkeys h (by decide) Value.string?
  obtain ⟨hpid, hpidOne⟩ := fieldIn_eq_or "usb_pid" hkeys h (by decide) Value.i32?
  obtain ⟨hvid, hvidOne⟩ := fieldIn_eq_or "usb_vid" hkeys h (by decide) Value.i32?
  rw [usbInfoIn, usbInfoIn, hpath, hpid, hvid]
  generalize fieldIn Value.string? "usb_path" (aheadOfUid entries) = a at hpathOne ⊢
  generalize fieldIn Value.string? "usb_path" (behindUid entries) = b at hpathOne ⊢
  cases a with
  | some s =>
      obtain rfl := hpathOne.resolve_left (Option.some_ne_none s)
      by_cases hs : s = [] <;> simp [hs]
  | none =>
      cases b with
      | none => simp
      | some s =>
          by_cases hs : s = []
          · simp [hs]
          · simp [hs, hids hpidOne, hids hvidOne]

/-- **When the elements behind the unique id say all** that a description says. -/
theorem saying_eq_described_iff {uid bson : List UInt8} (hkeys : (entries.map Prod.fst).Nodup)
    (h : fieldIn Value.string? "device_uid" entries = some uid) (sessionId : UInt16) :
    Data.saying .wheel none uid sessionId bson (behindUid entries)
        = Data.saying .unknown (some .unknown) uid sessionId bson entries ↔
      NothingMissed entries := by
  have hfield : ∀ {β : Type} (key : String) (g : Value → Option β),
      ascii key ≠ ascii "device_uid" → _ := fun key g hkey =>
    fieldIn_eq_or key hkeys h hkey g
  obtain ⟨hrole, hroleOne⟩ := hfield "role" Value.string? (by decide)
  obtain ⟨hflag, hflagOne⟩ := hfield "is_connected" Value.bool? (by decide)
  obtain ⟨hcontrol, hcontrolOne⟩ := hfield "control" Value.document? (by decide)
  obtain ⟨hinput, hinputOne⟩ := hfield "input" Value.document? (by decide)
  obtain ⟨hfeedback, hfeedbackOne⟩ := hfield "feedback" Value.document? (by decide)
  obtain ⟨hhid, hhidOne⟩ := hfield "hid_input" Value.document? (by decide)
  simp only [Data.saying, Data.mk.injEq, true_and, and_true, usbInfoIn_eq_iff hkeys h]
  rw [hrole, hflag, hcontrol, hinput, hfeedback, hhid, getD_role_eq_iff hroleOne,
    getD_flag_eq_iff hflagOne, getD_list_eq_iff hcontrolOne, getD_list_eq_iff hinputOne,
    getD_list_eq_iff hfeedbackOne, getD_axes_eq_iff hhidOne, getD_buttons_eq_iff hhidOne]
  simp only [controlsOf, inputsOf, feedbacksOf, List.map_eq_nil_iff]
  exact ⟨fun ⟨h₁, h₂, h₃, h₄, h₅, ⟨h₆, h₇⟩, h₈, h₉, h₁₀⟩ => ⟨h₁, h₂, h₃, h₄, h₅, h₆, h₈, h₇, h₉, h₁₀⟩,
    fun ⟨h₁, h₂, h₃, h₄, h₅, h₆, h₈, h₇, h₉, h₁₀⟩ => ⟨h₁, h₂, h₃, h₄, h₅, ⟨h₆, h₇⟩, h₈, h₉, h₁₀⟩⟩

end Fields

/-! ### The parsed data -/

section Parse

variable {entries entries' : List Entry}

/-- What the loop sets behind the unique id. -/
theorem dataAfter_saying (d : Data) (hd : d = { bson := d.bson, sessionId := d.sessionId, uid := d.uid })
    (hkeys : (entries.map Prod.fst).Nodup) {s : Data × UsbDeviceInfo}
    (hs : s = dataAfter (d, {}) entries) :
    { s.1 with usbInfo := if s.2.hidDevicePath ≠ [] then some s.2 else none }
      = Data.saying .wheel none d.uid d.sessionId d.bson entries := by
  rw [hs, hd]
  simp only [dataAfter, Data.saying, usbInfoIn, lastText, lastIn_eq_fieldIn hkeys, Option.map_map,
    ite_not]
  rfl

/-- The element that is stored under a key. -/
theorem exists_entry {β : Type} {g : Value → Option β} {key : String} {x : β}
    (h : fieldIn g key entries = some x) :
    ∃ front back v, entries = front ++ (ascii key, v) :: back ∧ (∀ e ∈ front, e.1 ≠ ascii key) ∧
      g v = some x := by
  obtain ⟨v, hlookup, hv⟩ := Option.bind_eq_some_iff.mp h
  obtain ⟨front, back, hsplit, hfront⟩ := List.lookup_eq_some_iff.mp hlookup
  exact ⟨front, back, v, hsplit, fun e he => (bne_iff_ne.mp (hfront e he)).symm, hv⟩

/-- A search for a number. -/
theorem tryFindAndGetI32_entry {mem : List UInt8} {c : Container mem} {r : BsonReader}
    {front back : List Entry} {key : List UInt8} {n : BitVec 32} (hr : Reached c r)
    (hentries : c.entries = front ++ (key, .leaf (.i32 n)) :: back) (hfront : ∀ e ∈ front, e.1 ≠ key) :
    ∃ r', r.tryFindAndGetI32 mem key = .ok (some n.toInt, r') ∧ Reached c r' ∧
      r'.docLayers = r.docLayers := by
  obtain ⟨r', hseek, hreached, hlayers, htype, hvalue, -, -⟩ := seekKey_entry hr hentries hfront
  have hloc := c.located
  rw [hentries] at hloc
  have hread := i32At_located (located_from hloc).head
  rw [List.length_append] at hread
  have hnumber : i32At mem r'.bufOffset = .ok n.toInt := by
    rw [hvalue]
    exact hread
  have hfound : (ElementType.ofByte (Value.leaf (.i32 n)).typeByte).isEndOrError = false := rfl
  have htype : r'.curType = elementI32 := htype
  refine ⟨r', ?_, hreached, hlayers⟩
  rw [tryFindAndGetI32, hseek, ok_bind]
  dsimp only
  rw [hfound, if_neg Bool.false_ne_true, tryGetI32, htype]
  dsimp only
  rw [BsonReader.int32Value, hnumber]
  rfl

/-- **A search for a string** leaves the reader in front of the elements behind it. -/
theorem tryFindAndGetString_entry {mem : List UInt8} {c : Container mem} {r : BsonReader}
    {front back : List Entry} {key s : List UInt8} (hr : Reached c r)
    (hentries : c.entries = front ++ (key, .leaf (.string s)) :: back)
    (hfront : ∀ e ∈ front, e.1 ≠ key) :
    ∃ view r', r.tryFindAndGetString mem key = .ok (some view, r') ∧
      bytesAt mem view.offset view.length = .ok s ∧
      InFront mem c.last r.docLayers (c.pre ++ front.flatMap Entry.bytes
        ++ Entry.bytes (key, .leaf (.string s))).length r' := by
  obtain ⟨r', hseek, -, hlayers, htype, hvalue, hdocEnd, hbefore⟩ := seekKey_entry hr hentries hfront
  have hloc := c.located
  rw [hentries] at hloc
  obtain ⟨hsize, hcount, hbytes⟩ := (located_from hloc).head.string
  rw [List.length_append] at hsize hbytes
  have htype : r'.curType = elementStr := htype
  have hcond : ¬ ((ElementType.ofByte (Value.leaf (.string s)).typeByte).isEndOrError = true ∨
      r'.curType ≠ elementStr) :=
    not_or.mpr ⟨Bool.false_ne_true, not_not_intro htype⟩
  have hview : r'.stringValue mem = .ok ⟨r'.bufOffset + 4, s.length⟩ := by
    rw [BsonReader.stringValue, hvalue]
    exact (congrArg (· >>= _) hsize).trans (by rw [ok_bind, hcount]; rfl)
  refine ⟨⟨r'.bufOffset + 4, s.length⟩, r', ?_, ?_, ?_, hdocEnd, hlayers⟩
  · rw [tryFindAndGetString, hseek, ok_bind]
    dsimp only
    rw [if_neg hcond, hview]
    rfl
  · rw [hvalue]
    exact hbytes
  · rw [List.length_append, List.length_append]
    exact hbefore

/-- **The parsed data is what the elements behind the unique id say.** -/
theorem parse_behind (h : DeviceDocument entries) {uid : List UInt8} {n : ℤ}
    (huid : fieldIn Value.string? "device_uid" entries = some uid)
    (hid : fieldIn Value.i32? "logical_id" entries = some n) (tail : List UInt8) :
    Data.parse (document (entries.flatMap Entry.bytes) ++ tail) {}
      = .ok (true, Data.saying .wheel none uid (toUInt16 n)
          (document (entries.flatMap Entry.bytes) ++ tail) (behindUid entries)) := by
  obtain ⟨c, hc⟩ : ∃ c, c = documentContainer entries tail h.clean h.size := ⟨_, rfl⟩
  obtain ⟨r₀, hr₀⟩ : ∃ r₀, r₀ = accepted (document (entries.flatMap Entry.bytes)).length
    (document (entries.flatMap Entry.bytes)).length := ⟨_, rfl⟩
  have hctor := ofBuffer_document h.size tail
  rw [← hr₀] at hctor
  have henters : Enters c r₀ := by
    rw [hc, hr₀]
    exact enters_document h.clean h.size _
  have hlayers₀ : r₀.docLayers = [] := by rw [hr₀]; rfl
  have hentries : c.entries = entries := by rw [hc]; rfl
  clear hc
  generalize document (entries.flatMap Entry.bytes) ++ tail = mem at *
  -- the number of the session
  obtain ⟨front₁, back₁, v, hsplit₁, hfront₁, hv⟩ := exists_entry hid
  obtain ⟨b, rfl, rfl⟩ : ∃ b : BitVec 32, v = .leaf (.i32 b) ∧ b.toInt = n := by
    cases v with
    | leaf v => cases v <;> cases hv; exact ⟨_, rfl, rfl⟩
    | sub kind els => cases hv
  obtain ⟨r₁, hfind₁, hreached₁, hlayers₁⟩ :=
    tryFindAndGetI32_entry (.enter henters) (hentries.trans hsplit₁) hfront₁
  -- the unique id
  obtain ⟨hsplit₂, hfront₂⟩ := eq_ahead_behind h.keys huid
  obtain ⟨view, r₂, hfind₂, hview, hfront⟩ :=
    tryFindAndGetString_entry hreached₁ (hentries.trans hsplit₂) hfront₂
  rw [hlayers₁, hlayers₀] at hfront
  -- the elements behind it
  have hloc := c.located
  rw [hentries, hsplit₂] at hloc
  have hlast : c.last = (c.pre ++ (aheadOfUid entries).flatMap Entry.bytes
      ++ Entry.bytes (ascii "device_uid", .leaf (.string uid))).length
      + ((behindUid entries).flatMap Entry.bytes).length := by
    rw [Container.last, hentries]
    nth_rewrite 1 [hsplit₂]
    rw [List.flatMap_append, List.flatMap_cons]
    simp only [List.length_append]
    omega
  obtain ⟨s, hs⟩ : ∃ s, s = dataAfter
    ({ bson := mem, sessionId := toUInt16 b.toInt, uid }, {}) (behindUid entries) := ⟨_, rfl⟩
  obtain ⟨r₃, hloop, -, hend⟩ := absorbs_data.forEach (located_from hloc).tail hfront hlast
    (by decide) ({ bson := mem, sessionId := toUInt16 b.toInt, uid }, {})
  rw [foldl_data, ← hs] at hloop
  have hkeys : ((behindUid entries).map Prod.fst).Nodup := by
    have hnodup := h.keys
    rw [hsplit₂, List.map_append, List.map_cons] at hnodup
    exact (List.nodup_cons.mp (List.nodup_append.mp hnodup).2.1).2
  have hsaying := dataAfter_saying { bson := mem, sessionId := toUInt16 b.toInt, uid } rfl hkeys hs
  have herror : r₃.error = false := by
    rw [BsonReader.error, hend]
    rfl
  rw [← hsaying, Data.parse, hctor, ok_bind]
  dsimp only
  rw [hfind₁, ok_bind]
  dsimp only
  rw [hfind₂, ok_bind]
  dsimp only
  rw [hview, ok_bind, hloop, ok_bind]
  dsimp only
  rw [herror]
  rfl

/-- A description in another order. -/
theorem DeviceDocument.perm (h : DeviceDocument entries) (hperm : entries'.Perm entries) :
    DeviceDocument entries' where
  clean := fun e he => h.clean e (hperm.mem_iff.mp he)
  size := (length_document_perm hperm).trans_lt h.size
  keys := ((hperm.map Prod.fst).nodup_iff).mpr h.keys
  logicalId := by
    rw [fieldIn, lookup_perm h.keys hperm]
    exact h.logicalId
  deviceUid := by
    rw [fieldIn, lookup_perm h.keys hperm]
    exact h.deviceUid

/-- What a description says does not depend on the order of its elements. -/
theorem described_perm (h : DeviceDocument entries) (hperm : entries'.Perm entries)
    (bson : List UInt8) : described entries' bson = described entries bson := by
  have hfield : ∀ {β : Type} (g : Value → Option β) (key : String),
      fieldIn g key entries' = fieldIn g key entries := fun g key => by
    rw [fieldIn, fieldIn, lookup_perm h.keys hperm]
  simp only [described, Data.saying, usbInfoIn, hfield]

/-- **When `Data::parse` returns what a description says**, for every order of its elements. -/
theorem parse_described_iff (h : DeviceDocument entries) (hperm : entries'.Perm entries)
    (tail : List UInt8) :
    Data.parse (document (entries'.flatMap Entry.bytes) ++ tail) {}
        = .ok (true, described entries (document (entries'.flatMap Entry.bytes) ++ tail)) ↔
      NothingMissed entries' := by
  have h' := h.perm hperm
  obtain ⟨uid, huid⟩ := Option.isSome_iff_exists.mp h'.deviceUid
  obtain ⟨n, hid⟩ := Option.isSome_iff_exists.mp h'.logicalId
  rw [parse_behind h' huid hid, ← described_perm h hperm, described, huid, hid, Option.getD_some,
    Option.map_some, Option.getD_some]
  rw [Except.ok.injEq, Prod.mk.injEq, and_iff_right rfl]
  exact saying_eq_described_iff h'.keys huid _

end Parse

/-- A description with the unique id in front. -/
def hubEntries : List Entry :=
  [(ascii "device_uid", .leaf (.string [97])), (ascii "logical_id", .leaf (.i32 7)),
    (ascii "is_connected", .leaf (.bool true)), (ascii "role", .leaf (.string (ascii "hub")))]

theorem deviceDocument_hub : DeviceDocument hubEntries where
  clean := by
    rintro e (_ | ⟨_, _ | ⟨_, _ | ⟨_, _ | ⟨_, ⟨⟩⟩⟩⟩⟩) <;> exact ⟨by decide, trivial⟩
  size := by decide +kernel
  keys := by decide +kernel
  logicalId := by decide +kernel
  deviceUid := by decide +kernel

theorem parse_described_hub :
    Data.parse (document (hubEntries.flatMap Entry.bytes) ++ []) {}
      = .ok (true, described hubEntries (document (hubEntries.flatMap Entry.bytes) ++ [])) :=
  (parse_described_iff deviceDocument_hub (List.Perm.refl _) []).mpr
    { role := .inl (by decide +kernel)
      isConnected := by decide +kernel
      control := by decide +kernel
      input := by decide +kernel
      feedback := by decide +kernel
      axis := by decide +kernel
      buttons := by decide +kernel
      axisRole := by decide +kernel
      usbPath := by decide +kernel
      usbIds := by decide +kernel }

/-- **With the unique id behind the other elements**, the device is not connected, and it is a wheel. -/
theorem not_parse_described :
    DeviceDocument hubEntries ∧
      ((described hubEntries []).role, (described hubEntries []).isConnected) = (.hub, true) ∧
      (Data.parse (document (hubEntries.flatMap Entry.bytes)) {}).map
          (fun x => (x.1, x.2.role, x.2.isConnected)) = .ok (true, .hub, true) ∧
      (Data.parse (document (hubEntries.reverse.flatMap Entry.bytes)) {}).map
          (fun x => (x.1, x.2.role, x.2.isConnected)) = .ok (true, .wheel, false) :=
  ⟨deviceDocument_hub, by decide +kernel, by decide +kernel, by decide +kernel⟩

end ScApi.DeviceInfo
