import ScApi.ActionBuilder
import ScApi.Lib.Sorting
import ScApi.Types

/-!
# Telemetry update groups

A group is configured with a list of handles. `configure` resolves each handle by its name and type,
sorts the handles by the size of their values and by their ids, drops duplicates and handles that
stay unresolved, and registers the ids that are left. From then on `send` packs the current values
in the order of these ids: the bools as bits of 32-bit words, and behind them, from a multiple of
eight on, the values of eight, four, two and one bytes.

Handles are values of any type `ι`, as pointers are. What a handle is made of never changes; its
current value does.

## Main results

* `ScApi.ActionBuilder.writePayload_append`: writes one behind another are one write.
-/

open Bytes Buffer Sorting

namespace ScApi

/-! ### Payloads -/

namespace ActionBuilder

/-- The payload of the action built last. -/
def payload (b : ActionBuilder) : List UInt8 :=
  b.buffer.drop (b.curStartIdx + actionHeaderSize)

/-- The action built last has a payload of `n` bytes. -/
def Building (b : ActionBuilder) (n : ℕ) : Prop :=
  b.buffer.length = b.curStartIdx + actionHeaderSize + n

variable {b : ActionBuilder} {n i : ℕ} {bytes : List UInt8}

theorem Building.length_payload (h : b.Building n) : b.payload.length = n := by
  rw [payload, List.length_drop, h, Nat.add_sub_cancel_left]

/-- A builder that has started an action has its payload. -/
theorem building_startBuilding {actionId flags : UInt16} {start : ℕ} {b' : ActionBuilder}
    (h : b.startBuilding actionId n flags = (some start, b')) :
    b'.Building n ∧ b'.curStartIdx = b.size32 := by
  rw [startBuilding] at h
  cases hc : b.controllerId with
  | none => simp [hc] at h
  | some controllerId =>
      simp only [hc, Prod.mk.injEq, Option.some.injEq] at h
      obtain ⟨rfl, rfl⟩ := h
      refine ⟨?_, rfl⟩
      refine (length_overwrite ?_).trans (length_resize _ _ _)
      rw [length_resize]
      simp [actionHeader, actionHeaderSize]
      omega

theorem Building.writePayload (h : b.Building n) (hi : i + bytes.length ≤ n) :
    (b.writePayload i bytes).Building n := by
  refine (length_overwrite ?_).trans h
  rw [Building] at h
  omega

theorem Building.payload_writePayload (h : b.Building n) :
    (b.writePayload i bytes).payload = overwrite b.payload i bytes := by
  have hfront : (b.buffer.take (b.curStartIdx + actionHeaderSize)).length
      = b.curStartIdx + actionHeaderSize := by
    rw [List.length_take_of_le]
    rw [Building] at h
    omega
  have hwrite := overwrite_append_right (b.buffer.take (b.curStartIdx + actionHeaderSize))
    b.payload bytes i
  rw [payload, List.take_append_drop, hfront] at hwrite
  rw [payload, ActionBuilder.writePayload]
  dsimp only
  rw [hwrite]
  exact List.drop_left' hfront

@[simp] theorem writePayload_nil (b : ActionBuilder) (i : ℕ) : b.writePayload i [] = b := by
  rw [ActionBuilder.writePayload, overwrite_nil]

/-- **Writes one behind another** are one write. -/
theorem Building.writePayload_append (h : b.Building n) (hi : i ≤ n) (bytes bytes' : List UInt8) :
    (b.writePayload i bytes).writePayload (i + bytes.length) bytes'
      = b.writePayload i (bytes ++ bytes') := by
  have hle : b.curStartIdx + actionHeaderSize + i ≤ b.buffer.length := by
    rw [Building] at h
    omega
  rw [ActionBuilder.writePayload, ActionBuilder.writePayload, ActionBuilder.writePayload]
  dsimp only
  rw [← Nat.add_assoc, overwrite_overwrite hle]

/-- Writing the size of the action leaves its payload alone. -/
theorem payload_finalize (h : b.Building n) : b.finalize.payload = b.payload := by
  rw [Building, actionHeaderSize] at h
  refine drop_overwrite_of_le ?_ ?_
  · rw [length_toLe, sizeOffset]
    omega
  · rw [length_toLe, sizeOffset]
    exact le_refl _

end ActionBuilder

/-! ### Handles and definitions -/

/-- What a `TelemetryBase` is made of: its name, and the template parameter of its class. -/
structure TelemetryInfo where
  name : List UInt8
  scalar : Scalar
  deriving DecidableEq, Repr

/-- `TelemetryBase::getType`. -/
def TelemetryInfo.type (t : TelemetryInfo) : DataType :=
  .ofBase t.scalar.baseType

/-- A `TelemetryDefinition`. -/
structure TelemetryDefinition where
  name : List UInt8
  type : DataType
  id : UInt16
  deriving DecidableEq, Repr

/-- The `TelemetryDefinitions` of a session, of which only the controller id is used. -/
structure TelemetryDefinitions where
  session : Option UInt16
  defs : List TelemetryDefinition
  deriving DecidableEq, Repr

/-- `TelemetryDefinitions::find` with a name and a type. -/
def TelemetryDefinitions.find (definitions : TelemetryDefinitions) (name : List UInt8)
    (type : DataType) : Option TelemetryDefinition :=
  definitions.defs.find? fun d => d.name = name ∧ d.type = type

/-- `baseTypeSizeIndex`. -/
def baseTypeSizeIndex : BaseType → ℤ
  | .boolean => 0
  | .i64 | .f64 => 1
  | .i32 | .u32 | .f32 => 2
  | .i16 | .u16 => 3
  | .i8 | .u8 => 4
  | _ => -1

/-- A `TelemetryUpdateGroup` of handles. A pointer to the value of a handle is the handle. -/
structure TelemetryUpdateGroup (ι : Type*) where
  groupId : UInt16
  telemetries : List ι := []
  baseValueBufs : List ι := []
  baseValueEntriesBySize : ℤ → UInt16 := fun _ => 0
  actionBuilder : ActionBuilder
  setPayloadSize : UInt16 := 0
  prepared : Bool := false

/-- `SC_API_PROTOCOL_ACTION_REGISTER_TELEMETRY_GROUP`. -/
def actionRegisterTelemetryGroup : UInt16 := 0x1000

/-- `SC_API_PROTOCOL_ACTION_SET_TELEMETRY_GROUP`. -/
def actionSetTelemetryGroup : UInt16 := 0x1001

namespace TelemetryUpdateGroup

variable {ι : Type*} (handle : ι → TelemetryInfo)

/-! ### The handles of a group -/

/-- `TelemetryUpdateGroup::set`. -/
def set (telemetries : List ι) (g : TelemetryUpdateGroup ι) : TelemetryUpdateGroup ι :=
  { g with prepared := false, telemetries }

/-- `TelemetryUpdateGroup::add`, with one handle or with a list of them. -/
def add (telemetries : List ι) (g : TelemetryUpdateGroup ι) : TelemetryUpdateGroup ι :=
  { g with prepared := false, telemetries := g.telemetries ++ telemetries }

/-! ### Registering a group -/

section Configure

variable (definitions : TelemetryDefinitions)

/-- The id of a handle in its `ref_state_`, zero when it stays unresolved. -/
def refId (t : ι) : UInt16 :=
  match definitions.find (handle t).name (handle t).type with
  | some d => d.id
  | none => 0

/-- The index of the size of a handle's value. -/
def sizeIndex (t : ι) : ℤ :=
  baseTypeSizeIndex (handle t).type.baseType

/-- The comparison that the handles are sorted by. -/
def before (a b : ι) : Bool :=
  if sizeIndex handle a < sizeIndex handle b then
    true
  else if sizeIndex handle a > sizeIndex handle b then
    false
  else
    refId handle definitions a < refId handle definitions b

/-- The comparison that duplicates are found by. -/
def same (a b : ι) : Bool :=
  if refId handle definitions a = 0 then
    false
  else
    refId handle definitions a = refId handle definitions b

/-- `base_value_entries_by_size_` after counting some handles, in 16 bits. -/
def entriesBySize (bufs : List ι) (k : ℤ) : UInt16 :=
  UInt16.ofNat (bufs.countP (sizeIndex handle · = k))

/-- `expected_size`. Bools take 32-bit words, and their space is a multiple of eight that also holds
the four bytes in front of them. -/
def expectedSize (entries : ℤ → UInt16) : ℕ :=
  ((entries 0).toNat + 63 + 32) / 64 * 8 + (entries 1).toNat * 8 + (entries 2).toNat * 4
    + (entries 3).toNat * 2 + (entries 4).toNat

/-- The loop that writes the ids from index `i` of the payload on. -/
def writeIds : List UInt16 → ℕ → ActionBuilder → ActionBuilder
  | [], _, b => b
  | id :: ids, i, b => writeIds ids (i + 2) (b.writePayload i (toLe 2 id.toNat))

/-- `TelemetryUpdateGroup::configure`: its result, the datagram it hands to the socket, and the group
it leaves. -/
def configure (std : StdSort ι) (answer : SocketAnswer) (later : Bool)
    (g : TelemetryUpdateGroup ι) : Bool × Option (List UInt8) × TelemetryUpdateGroup ι :=
  if definitions.session = none ∨ g.telemetries.isEmpty then
    (false, none, g)
  else
    let telemetries := std.sort (before handle definitions) g.telemetries
    let telemetries := unique (same handle definitions) telemetries
    let bufs := telemetries.filter (refId handle definitions · ≠ 0)
    let entries := entriesBySize handle bufs
    let g := { g with
      telemetries
      baseValueBufs := bufs
      baseValueEntriesBySize := entries
      actionBuilder := { session := definitions.session }
      prepared := false }
    if expectedSize entries = 0 then
      (false, none, g)
    else
      match g.actionBuilder.startBuilding actionRegisterTelemetryGroup (6 + 2 * bufs.length) 0 with
      | (none, _) => (false, none, g)
      | (some _, b) =>
          let b := writeIds (bufs.map (refId handle definitions)) 6 b
          let b := b.writePayload 0 (toLe 2 g.groupId.toNat)
          let b := b.writePayload 2 (toLe 2 bufs.length)
          let b := b.writePayload 4 (toLe 2 (expectedSize entries))
          let (result, datagram, b) := b.sendBlocking answer later
          (result = .complete, datagram, { g with
            actionBuilder := b
            setPayloadSize := UInt16.ofNat (expectedSize entries + 4)
            prepared := result = .complete })

end Configure

/-- `TelemetryUpdateGroup::disable`: its result, the datagram it hands to the socket, and the group it
leaves. -/
def disable (answer : SocketAnswer) (later : Bool) (g : TelemetryUpdateGroup ι) :
    ActionResult × Option (List UInt8) × TelemetryUpdateGroup ι :=
  match g.actionBuilder.startBuilding actionRegisterTelemetryGroup 6 0 with
  | (none, _) => (.failed, none, g)
  | (some _, b) =>
      let b := b.writePayload 0 (toLe 2 g.groupId.toNat)
      let b := b.writePayload 2 [0, 0]
      let b := b.writePayload 4 [0, 0]
      let (result, datagram, b) := b.sendBlocking answer later
      (result, datagram, { g with actionBuilder := b, prepared := false })

/-! ### Sending the values -/

section Send

variable (values : ∀ t, (handle t).scalar.Value)

/-- The bytes that `getSerializedValueBuf` points to. -/
def serialized (t : ι) : List UInt8 :=
  Scalar.bytes (values t)

/-- `*(const bool*)bool_buf`. -/
def toBool (buf : List UInt8) : Bool :=
  buf.headD 0 ≠ 0

/-- The loop over the bools. `word` keeps its bits when a word is full. -/
def writeBools : List (List UInt8) → ℕ → BitVec 32 → ℕ → ActionBuilder → ActionBuilder × ℕ
  | [], bitIdx, word, i, b =>
      if bitIdx % 32 ≠ 0 then
        (b.writePayload i (toLe 4 word.toNat), i + 4)
      else
        (b, i)
  | buf :: bufs, bitIdx, word, i, b =>
      let word := if toBool buf then word ||| BitVec.twoPow 32 (bitIdx % 32) else word
      if (bitIdx + 1) % 32 = 0 then
        writeBools bufs (bitIdx + 1) word (i + 4) (b.writePayload i (toLe 4 word.toNat))
      else
        writeBools bufs (bitIdx + 1) word i b

/-- The loop over the values of `size` bytes. -/
def writeValues (size : ℕ) : List (List UInt8) → ℕ → ActionBuilder → ActionBuilder × ℕ
  | [], i, b => (b, i)
  | buf :: bufs, i, b => writeValues size bufs (i + size) (b.writePayload i (buf.take size))

/-- The payload of a packet as `send` writes it, with the position behind the last write. -/
def fillPayload (g : TelemetryUpdateGroup ι) (b : ActionBuilder) : ActionBuilder × ℕ :=
  let count := fun k => (g.baseValueEntriesBySize k).toNat
  let it := g.baseValueBufs.map (serialized handle values)
  let b := b.writePayload 0 (toLe 2 g.groupId.toNat)
  let b := b.writePayload 2 [0, 0]
  let (b, i) := writeBools (it.take (count 0)) 0 0 4 b
  let it := it.drop (count 0)
  let i := (i + 7) / 8 * 8
  let (b, i) := writeValues 8 (it.take (count 1)) i b
  let it := it.drop (count 1)
  let (b, i) := writeValues 4 (it.take (count 2)) i b
  let it := it.drop (count 2)
  let (b, i) := writeValues 2 (it.take (count 3)) i b
  let it := it.drop (count 3)
  writeValues 1 (it.take (count 4)) i b

/-- The part of `TelemetryUpdateGroup::send` that makes the packet. -/
def fill (g : TelemetryUpdateGroup ι) : Option (ActionBuilder × ℕ) :=
  match g.actionBuilder.startBuilding actionSetTelemetryGroup g.setPayloadSize.toNat 0 with
  | (none, _) => none
  | (some _, b) => some (g.fillPayload handle values b)

/-- `TelemetryUpdateGroup::send`: its result, the datagram it hands to the socket, and the group it
leaves. -/
def send (answer : SocketAnswer) (g : TelemetryUpdateGroup ι) :
    ActionResult × Option (List UInt8) × TelemetryUpdateGroup ι :=
  if g.prepared then
    match g.fill handle values with
    | none => (.failed, none, g)
    | some (b, _) =>
        let (result, datagram, b) := b.sendNonBlocking answer
        (result, datagram, { g with actionBuilder := b })
  else
    (.failed, none, g)

end Send

end TelemetryUpdateGroup

end ScApi
