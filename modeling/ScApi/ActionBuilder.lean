import ScApi.Lib.Buffer
import ScApi.Lib.Bytes
import ScApi.Lib.Framing
import ScApi.Lib.Runs
import Mathlib.Data.List.ModifyLast

/-!
# Building and sending actions

An `ActionBuilder` collects actions in one buffer and sends the buffer as one datagram. Each action
starts with a header that tells its size. The size is written when the action is built and again when
the buffer is sent, then for the action built last only.

A run of the builder is compared with the list of the actions built since the last reset, which every
call changes in the obvious way. What the socket does with a datagram is up to the environment.

## Main results

* `split_encode`: a datagram made of actions splits into these actions by their size fields.
* `step_invariant`: what one call keeps.
* `datagrams_split`: in every run that meets the condition, every datagram splits into the actions
  built since the last reset.
-/

open Bytes Buffer

namespace ScApi

open Runs

/-- `sizeof(SC_API_PROTOCOL_ActionHeader_t)`. -/
def actionHeaderSize : ℕ := 8

/-- The bytes of an `SC_API_PROTOCOL_ActionHeader_t`. -/
def actionHeader (controllerId flags actionId size : UInt16) : List UInt8 :=
  toLe 2 controllerId.toNat ++ toLe 2 flags.toNat ++ toLe 2 actionId.toNat ++ toLe 2 size.toNat

/-- The offset of `size` in the header. -/
def sizeOffset : ℕ := 6

/-- `ActionResult`. -/
inductive ActionResult where
  | inprogress
  | complete
  | failed
  | wouldBlock
  deriving DecidableEq, Repr

/-- What the socket answers when it is handed a datagram. -/
inductive SocketAnswer where
  | sent
  | wouldBlock
  | error
  deriving DecidableEq, Repr

/-- An `ActionBuilder`; of its session only the controller id is used. -/
structure ActionBuilder where
  session : Option UInt16
  buffer : List UInt8 := []
  curStartIdx : ℕ := 0
  deriving DecidableEq, Repr

namespace ActionBuilder

/-- The controller id of a registered session. -/
def controllerId (b : ActionBuilder) : Option UInt16 :=
  b.session.filter (· ≠ 0)

/-- `ActionBuilder::reset`. -/
def reset (b : ActionBuilder) : ActionBuilder :=
  { b with buffer := [], curStartIdx := 0 }

/-- `buffer_.size()` as a `uint32_t`. -/
def size32 (b : ActionBuilder) : ℕ :=
  b.buffer.length % 4294967296

/-- `ActionBuilder::build`. -/
def build (actionId : UInt16) (payload : List UInt8) (flags : UInt16) (b : ActionBuilder) :
    Bool × ActionBuilder :=
  match b.controllerId with
  | none => (false, b)
  | some controllerId =>
      let header := actionHeader controllerId flags actionId
        (UInt16.ofNat (actionHeaderSize + payload.length))
      let buffer := resize 0 b.buffer (b.buffer.length + actionHeaderSize + payload.length)
      let buffer := overwrite buffer b.size32 header
      let buffer := overwrite buffer (b.size32 + actionHeaderSize) payload
      (true, { b with buffer, curStartIdx := b.size32 })

/-- `ActionBuilder::startBuilding`: the offset of the payload, or `none` for the null pointer. The
header is written at the front of the buffer. -/
def startBuilding (actionId : UInt16) (initialPayloadSize : ℕ) (flags : UInt16)
    (b : ActionBuilder) : Option ℕ × ActionBuilder :=
  match b.controllerId with
  | none => (none, b)
  | some controllerId =>
      let header := actionHeader controllerId flags actionId
        (UInt16.ofNat (actionHeaderSize + initialPayloadSize))
      let buffer := resize 0 b.buffer (b.size32 + actionHeaderSize + initialPayloadSize)
      let buffer := overwrite buffer 0 header
      (some (b.size32 + actionHeaderSize), { b with buffer, curStartIdx := b.size32 })

/-- `ActionBuilder::resizePayload`. -/
def resizePayload (s : ℕ) (b : ActionBuilder) : ℕ × ActionBuilder :=
  (b.curStartIdx + actionHeaderSize,
    { b with buffer := resize 0 b.buffer (b.curStartIdx + actionHeaderSize + s) })

/-- A caller writes into the payload, through the pointer that `startBuilding` or `resizePayload`
returned last. -/
def writePayload (offset : ℕ) (bytes : List UInt8) (b : ActionBuilder) : ActionBuilder :=
  { b with buffer := overwrite b.buffer (b.curStartIdx + actionHeaderSize + offset) bytes }

/-- `ActionBuilder::finalize`. -/
def finalize (b : ActionBuilder) : ActionBuilder :=
  { b with
    buffer := overwrite b.buffer (b.curStartIdx + sizeOffset)
      (toLe 2 (b.buffer.length - b.curStartIdx)) }

/-- A call that has nothing to send. -/
def idle (b : ActionBuilder) : Bool :=
  b.session = none ∨ b.buffer = []

/-- `ActionBuilder::sendNonBlocking`: its result, the datagram it hands to the socket, and the state
it leaves. -/
def sendNonBlocking (answer : SocketAnswer) (b : ActionBuilder) :
    ActionResult × Option (List UInt8) × ActionBuilder :=
  if b.idle then
    (.failed, none, b.reset)
  else
    let b := b.finalize
    match answer with
    | .sent => (.complete, some b.buffer, b.reset)
    | .wouldBlock => (.wouldBlock, some b.buffer, b)
    | .error => (.failed, some b.buffer, b.reset)

/-- `ActionBuilder::sendBlocking`. When the socket would block, the same datagram is sent again
asynchronously, and `later` says whether that succeeds. -/
def sendBlocking (answer : SocketAnswer) (later : Bool) (b : ActionBuilder) :
    ActionResult × Option (List UInt8) × ActionBuilder :=
  if b.idle then
    (.failed, none, b.reset)
  else
    let b := b.finalize
    match answer with
    | .sent => (.complete, some b.buffer, b.reset)
    | .error => (.failed, some b.buffer, b.reset)
    | .wouldBlock => (if later then .complete else .failed, some b.buffer, b.reset)

/-- `ActionBuilder::asyncSend`, with the status it stores before it returns. The buffer is moved into
the completion handler. -/
def asyncSend (b : ActionBuilder) : ActionResult × Option (List UInt8) × ActionBuilder :=
  if b.idle then
    (.failed, none, b.reset)
  else
    (.inprogress, some b.finalize.buffer, b.reset)

end ActionBuilder

/-! ### Actions and datagrams -/

/-- An action as its builder means it. -/
structure Action where
  controllerId : UInt16
  flags : UInt16
  actionId : UInt16
  payload : List UInt8
  deriving DecidableEq, Repr

namespace Action

/-- The size of the action with its header. -/
def size (a : Action) : ℕ :=
  actionHeaderSize + a.payload.length

/-- The header of the action with the given bytes for its size. -/
def head (a : Action) (size : List UInt8) : List UInt8 :=
  toLe 2 a.controllerId.toNat ++ toLe 2 a.flags.toNat ++ toLe 2 a.actionId.toNat ++ size

/-- The action with the given bytes for its size. -/
def bytesWith (a : Action) (size : List UInt8) : List UInt8 :=
  a.head size ++ a.payload

/-- The bytes of the action. -/
def encode (a : Action) : List UInt8 :=
  a.bytesWith (toLe 2 a.size)

/-- The size fits into its field. -/
def Fits (a : Action) : Prop :=
  a.size ≤ 65535

end Action

/-- The size in the header of the action that some bytes start with, when all of it is there. -/
def actionLength? (l : List UInt8) : Option ℕ :=
  let n := ofLe ((l.drop sizeOffset).take 2)
  if actionHeaderSize ≤ n ∧ n ≤ l.length then some n else none

theorem actionLength?_eq_some_iff {l : List UInt8} {n : ℕ} :
    actionLength? l = some n ↔
      ofLe ((l.drop sizeOffset).take 2) = n ∧ actionHeaderSize ≤ n ∧ n ≤ l.length := by
  rw [actionLength?, Option.ite_none_right_eq_some, Option.some.injEq]
  constructor
  · rintro ⟨h, rfl⟩
    exact ⟨rfl, h⟩
  · rintro ⟨rfl, h⟩
    exact ⟨h, rfl⟩

/-- A datagram is cut into actions by their size fields. -/
def actionFraming : Framing UInt8 where
  frame? := actionLength?
  pos := by
    intro l n h
    obtain ⟨-, hmin, -⟩ := actionLength?_eq_some_iff.mp h
    exact lt_of_lt_of_le (by decide) hmin
  le_length := fun h => (actionLength?_eq_some_iff.mp h).2.2
  stable := by
    intro l n t h
    obtain ⟨hsize, hmin, hle⟩ := actionLength?_eq_some_iff.mp h
    have hlong : actionHeaderSize ≤ l.length := hmin.trans hle
    have hfield : (((l ++ t).drop sizeOffset).take 2) = (l.drop sizeOffset).take 2 := by
      have h8 : 8 ≤ l.length := hlong
      rw [List.drop_append_of_le_length (by rw [sizeOffset]; omega), List.take_append_of_le_length]
      rw [List.length_drop, sizeOffset]
      omega
    refine actionLength?_eq_some_iff.mpr ⟨hfield ▸ hsize, hmin, hle.trans ?_⟩
    rw [List.length_append]
    exact Nat.le_add_right _ _

theorem Action.length_head (a : Action) {size : List UInt8} (h : size.length = 2) :
    (a.head size).length = actionHeaderSize := by
  simp only [head, actionHeaderSize, List.length_append, length_toLe, h]

theorem Action.length_bytesWith (a : Action) {size : List UInt8} (h : size.length = 2) :
    (a.bytesWith size).length = a.size := by
  rw [bytesWith, List.length_append, a.length_head h, Action.size]

theorem Action.length_encode (a : Action) : a.encode.length = a.size :=
  a.length_bytesWith (length_toLe _ _)

/-- The bytes in front of the size field. -/
theorem Action.bytesWith_eq (a : Action) (size : List UInt8) :
    ∃ front, front.length = sizeOffset ∧ a.bytesWith size = front ++ size ++ a.payload ∧
      ∀ size', a.bytesWith size' = front ++ size' ++ a.payload :=
  ⟨toLe 2 a.controllerId.toNat ++ toLe 2 a.flags.toNat ++ toLe 2 a.actionId.toNat,
    by simp [sizeOffset], rfl, fun _ => rfl⟩

/-- **An action is a frame.** -/
theorem Action.isFrame {a : Action} (h : a.Fits) : actionFraming.IsFrame a.encode := by
  intro t
  obtain ⟨front, hfront, hbytes, -⟩ := a.bytesWith_eq (toLe 2 a.size)
  refine actionLength?_eq_some_iff.mpr ⟨?_, ?_, ?_⟩
  · have hfield : ((a.encode ++ t).drop sizeOffset).take 2 = toLe 2 a.size := by
      rw [encode, hbytes, ← hfront]
      simp only [List.append_assoc, List.drop_left]
      exact List.take_left' (length_toLe _ _)
    have hlt : a.size < 256 ^ 2 := lt_of_le_of_lt h (by decide)
    rw [hfield, ofLe_toLe_of_lt hlt, a.length_encode]
  · rw [a.length_encode]
    exact Nat.le_add_right _ _
  · rw [List.length_append]
    exact Nat.le_add_right _ _

/-- **A datagram made of actions splits into these actions.** -/
theorem split_encode {actions : List Action} (h : ∀ a ∈ actions, a.Fits) :
    actionFraming.split (actions.map Action.encode).flatten = (actions.map Action.encode, []) := by
  have hframes : ∀ f ∈ actions.map Action.encode, actionFraming.IsFrame f := by
    intro f hf
    obtain ⟨a, ha, rfl⟩ := List.mem_map.mp hf
    exact Action.isFrame (h a ha)
  have hsplit := Framing.split_frames hframes []
  have hempty : actionFraming.split [] = ([], []) := Framing.split_of_none (by decide)
  rwa [List.append_nil, hempty, List.append_nil] at hsplit

/-! ### Runs of a builder -/

/-- A builder in use: the actions built since the last reset, and the datagrams handed to the socket,
each with the actions that were built for it. -/
structure ActionRun where
  builder : ActionBuilder
  built : List Action := []
  sent : List (List UInt8 × List Action) := []
  deriving DecidableEq, Repr

/-- A call of the builder, or a write into the payload by its caller. -/
inductive ActionStep where
  | build (actionId : UInt16) (payload : List UInt8) (flags : UInt16)
  | startBuilding (actionId : UInt16) (initialPayloadSize : ℕ) (flags : UInt16)
  | writePayload (offset : ℕ) (bytes : List UInt8)
  | resizePayload (s : ℕ)
  | sendNonBlocking (answer : SocketAnswer)
  | sendBlocking (answer : SocketAnswer) (later : Bool)
  | asyncSend
  | reset
  deriving DecidableEq, Repr

/-- The largest size of an action that its header can tell. -/
def kMaxActionSize : ℕ := 65535

namespace ActionRun

/-- The builder of a session with a controller id. -/
def start (controllerId : UInt16) : ActionRun :=
  { builder := { session := some controllerId } }

/-- The actions with one more, built with the controller id of the session. -/
def add (actionId : UInt16) (payload : List UInt8) (flags : UInt16) (r : ActionRun) : List Action :=
  match r.builder.controllerId with
  | none => r.built
  | some controllerId => r.built ++ [⟨controllerId, flags, actionId, payload⟩]

/-- The run behind a send: a builder that would block keeps its actions. -/
def behindSend (result : ActionResult × Option (List UInt8) × ActionBuilder) (r : ActionRun) :
    ActionRun where
  builder := result.2.2
  built := if result.1 = .wouldBlock then r.built else []
  sent := r.sent ++ (result.2.1.map fun datagram => (datagram, r.built)).toList

/-- One call. Actions are at most as large as their header can tell, and the caller writes inside the
payload of the action built last. -/
def step (r : ActionRun) : ActionStep → Option ActionRun
  | .build actionId payload flags =>
      if actionHeaderSize + payload.length ≤ kMaxActionSize then
        some { r with
          builder := (r.builder.build actionId payload flags).2
          built := r.add actionId payload flags }
      else
        none
  | .startBuilding actionId initialPayloadSize flags =>
      if actionHeaderSize + initialPayloadSize ≤ kMaxActionSize then
        some { r with
          builder := (r.builder.startBuilding actionId initialPayloadSize flags).2
          built := r.add actionId (List.replicate initialPayloadSize 0) flags }
      else
        none
  | .writePayload offset bytes =>
      if ∃ a ∈ r.built.getLast?, offset + bytes.length ≤ a.payload.length then
        some { r with
          builder := r.builder.writePayload offset bytes
          built := r.built.modifyLast fun a =>
            { a with payload := overwrite a.payload offset bytes } }
      else
        none
  | .resizePayload s =>
      if actionHeaderSize + s ≤ kMaxActionSize then
        some { r with
          builder := (r.builder.resizePayload s).2
          built := r.built.modifyLast fun a => { a with payload := resize 0 a.payload s } }
      else
        none
  | .sendNonBlocking answer => some (r.behindSend (r.builder.sendNonBlocking answer))
  | .sendBlocking answer later => some (r.behindSend (r.builder.sendBlocking answer later))
  | .asyncSend => some (r.behindSend r.builder.asyncSend)
  | .reset => some { r with builder := r.builder.reset, built := [] }

/-- Every datagram handed to the socket splits into the actions built for it. -/
def DatagramsSplit (r : ActionRun) : Prop :=
  ∀ p ∈ r.sent, actionFraming.split p.1 = (p.2.map Action.encode, [])

/-- The header of the action built last tells its size. -/
def SizeWritten (b : ActionBuilder) : Prop :=
  ofLe ((b.buffer.drop (b.curStartIdx + sizeOffset)).take 2) = b.buffer.length - b.curStartIdx

instance (b : ActionBuilder) : Decidable (SizeWritten b) :=
  inferInstanceAs (Decidable (_ = _))

/-- The condition on a call: `startBuilding` is called on an empty builder, `resizePayload` on one
that is not empty, and `build` when the header of the action before tells its size and the buffer is
shorter than `2 ^ 32` bytes. -/
def Guarded (r : ActionRun) : ActionStep → Prop
  | .build _ _ _ =>
      r.builder.buffer = [] ∨ SizeWritten r.builder ∧ r.builder.buffer.length < 4294967296
  | .startBuilding _ _ _ => r.builder.buffer = []
  | .resizePayload _ => r.builder.buffer ≠ []
  | .writePayload _ _ | .sendNonBlocking _ | .sendBlocking _ _ | .asyncSend | .reset => True

instance (r : ActionRun) : (l : ActionStep) → Decidable (Guarded r l)
  | .build _ _ _ => inferInstanceAs (Decidable (_ ∨ _ ∧ _))
  | .startBuilding _ _ _ => inferInstanceAs (Decidable (_ = _))
  | .resizePayload _ => inferInstanceAs (Decidable (_ ≠ _))
  | .writePayload _ _ | .sendNonBlocking _ | .sendBlocking _ _ | .asyncSend | .reset =>
      inferInstanceAs (Decidable True)

instance (r : ActionRun) : Decidable (DatagramsSplit r) :=
  inferInstanceAs (Decidable (∀ p ∈ r.sent, _))

/-- **The buffer of a builder**: nothing, or complete actions and behind them the action built last,
with any size in its header. -/
inductive Shape (b : ActionBuilder) : List Action → Prop
  | empty (hbuffer : b.buffer = []) : Shape b []
  | current {done : List Action} {last : Action} {size : List UInt8} (hsize : size.length = 2)
      (hdone : ∀ a ∈ done, a.Fits) (hlast : last.Fits)
      (hbuffer : b.buffer = (done.map Action.encode).flatten ++ last.bytesWith size)
      (hstart : b.curStartIdx = (done.map Action.encode).flatten.length) :
      Shape b (done ++ [last])

section

variable {b : ActionBuilder} {actions : List Action}

theorem Shape.fits (h : Shape b actions) : ∀ a ∈ actions, a.Fits := by
  cases h with
  | empty => simp
  | current hsize hdone hlast =>
      intro a ha
      rcases List.mem_append.mp ha with ha | ha
      · exact hdone a ha
      · rw [List.mem_singleton.mp ha]
        exact hlast

theorem Shape.nil_iff (h : Shape b actions) : b.buffer = [] ↔ actions = [] := by
  cases h with
  | empty hbuffer => exact iff_of_true hbuffer rfl
  | current hsize hdone hlast hbuffer =>
      refine iff_of_false ?_ (by simp)
      intro hnil
      have hlen := congrArg List.length (hbuffer.symm.trans hnil)
      rw [List.length_append, Action.length_bytesWith _ hsize, Action.size, actionHeaderSize] at hlen
      simp at hlen

/-- Sending writes the size of the action built last. -/
theorem Shape.finalize (h : Shape b actions) (hne : b.buffer ≠ []) :
    b.finalize.buffer = (actions.map Action.encode).flatten := by
  cases h with
  | empty hbuffer => exact absurd hbuffer hne
  | @current done last size hsize hdone hlast hbuffer hstart =>
      obtain ⟨front, hfront, -, hbytes⟩ := last.bytesWith_eq size
      have hlength : b.buffer.length - b.curStartIdx = last.size := by
        rw [hbuffer, hstart, List.length_append, Nat.add_sub_cancel_left,
          Action.length_bytesWith _ hsize]
      rw [ActionBuilder.finalize]
      dsimp only
      rw [hlength, hstart, hbuffer, overwrite_append_right, hbytes, ← hfront,
        overwrite_middle (by rw [length_toLe, hsize]), ← hbytes]
      simp [Action.encode]

/-- A buffer whose last header tells the size consists of complete actions. -/
theorem Shape.complete (h : Shape b actions) (hsize : b.buffer = [] ∨ SizeWritten b) :
    b.buffer = (actions.map Action.encode).flatten := by
  cases h with
  | empty hbuffer => exact hbuffer
  | @current done last size htwo hdone hlast hbuffer hstart =>
      have hwritten : SizeWritten b := by
        rcases hsize with hnil | hwritten
        · exact absurd ((Shape.current htwo hdone hlast hbuffer hstart).nil_iff.mp hnil) (by simp)
        · exact hwritten
      obtain ⟨front, hfront, hbytes, -⟩ := last.bytesWith_eq size
      have hlength : b.buffer.length - b.curStartIdx = last.size := by
        rw [hbuffer, hstart, List.length_append, Nat.add_sub_cancel_left,
          Action.length_bytesWith _ htwo]
      have hfield : (b.buffer.drop (b.curStartIdx + sizeOffset)).take 2 = size := by
        rw [hbuffer, hstart, List.drop_length_add_append, hbytes, ← hfront, List.append_assoc,
          List.drop_left]
        exact List.take_left' htwo
      rw [SizeWritten, hfield, hlength] at hwritten
      have hsame : size = toLe 2 last.size := by rw [← hwritten, ← htwo, toLe_ofLe]
      rw [hbuffer, hsame]
      simp [Action.encode]

/-- The header that a call writes is that of the action. -/
theorem actionHeader_eq (a : Action) :
    actionHeader a.controllerId a.flags a.actionId (UInt16.ofNat a.size)
      = a.head (toLe 2 (UInt16.ofNat a.size).toNat) := rfl

/-- The size that a call writes into the header of an action that fits. -/
theorem toNat_size {a : Action} (h : a.Fits) : (UInt16.ofNat a.size).toNat = a.size := by
  rw [UInt16.toNat_ofNat']
  exact Nat.mod_eq_of_lt (lt_of_le_of_lt h (by decide))

/-- Free space for an action behind complete ones, filled with its header. -/
theorem overwrite_free (done : List UInt8) (a : Action) :
    overwrite (done ++ List.replicate a.size 0) done.length (a.head (toLe 2 a.size))
      = done ++ a.head (toLe 2 a.size) ++ List.replicate a.payload.length 0 := by
  rw [overwrite_append_at, a.length_head (length_toLe _ _), List.drop_replicate, Action.size,
    Nat.add_sub_cancel_left, List.append_assoc]

/-- **`build`** adds an action. -/
theorem Shape.build {controllerId actionId flags : UInt16} {payload : List UInt8}
    (h : Shape b actions) (hc : b.controllerId = some controllerId)
    (hfits : (⟨controllerId, flags, actionId, payload⟩ : Action).Fits)
    (hok : b.buffer = [] ∨ SizeWritten b ∧ b.buffer.length < 4294967296) :
    Shape (b.build actionId payload flags).2
      (actions ++ [⟨controllerId, flags, actionId, payload⟩]) := by
  obtain ⟨a, ha⟩ : ∃ a : Action, a = ⟨controllerId, flags, actionId, payload⟩ := ⟨_, rfl⟩
  have hbuffer := h.complete (hok.imp_right And.left)
  have hlt : b.buffer.length < 4294967296 := by
    rcases hok with hnil | ⟨-, hlt⟩
    · simp [hnil]
    · exact hlt
  have hsize32 : b.size32 = b.buffer.length := Nat.mod_eq_of_lt hlt
  rw [← ha] at hfits ⊢
  refine Shape.current (length_toLe 2 a.size) h.fits hfits ?_ ?_
  · have hheader := actionHeader_eq a
    rw [toNat_size hfits] at hheader
    have hpayload : payload = a.payload := by rw [ha]
    have hresize : resize 0 b.buffer (b.buffer.length + actionHeaderSize + payload.length)
        = b.buffer ++ List.replicate a.size 0 := by
      rw [resize_of_length_le (by omega), hpayload, Action.size]
      congr 2
      omega
    have hlong : (b.buffer ++ a.head (toLe 2 a.size)).length
        = b.buffer.length + actionHeaderSize := by
      rw [List.length_append, a.length_head (length_toLe _ _)]
    rw [ActionBuilder.build, hc]
    dsimp only
    rw [hsize32, hresize]
    have hwrite : overwrite (b.buffer ++ List.replicate a.size 0) b.buffer.length
        (actionHeader controllerId flags actionId
          (UInt16.ofNat (actionHeaderSize + payload.length)))
        = b.buffer ++ a.head (toLe 2 a.size) ++ List.replicate a.payload.length 0 := by
      rw [← overwrite_free, ← hheader, ha]
      rfl
    rw [hwrite, ← hlong, overwrite_append_at, hpayload, List.drop_replicate, Nat.sub_self,
      List.replicate_zero, List.append_nil, ← hbuffer, List.append_assoc, Action.bytesWith]
  · rw [ActionBuilder.build, hc]
    dsimp only
    rw [hsize32, hbuffer]

/-- **`startBuilding`** on an empty builder makes one action. -/
theorem Shape.startBuilding {controllerId actionId flags : UInt16} {n : ℕ}
    (hempty : b.buffer = []) (hc : b.controllerId = some controllerId)
    (hfits : (⟨controllerId, flags, actionId, List.replicate n 0⟩ : Action).Fits) :
    Shape (b.startBuilding actionId n flags).2
      [⟨controllerId, flags, actionId, List.replicate n 0⟩] := by
  obtain ⟨a, ha⟩ : ∃ a : Action, a = ⟨controllerId, flags, actionId, List.replicate n 0⟩ :=
    ⟨_, rfl⟩
  have hpayload : a.payload = List.replicate n 0 := by rw [ha]
  have hn : n = a.payload.length := by rw [hpayload, List.length_replicate]
  have hsize32 : b.size32 = 0 := by simp [ActionBuilder.size32, hempty]
  rw [← ha] at hfits ⊢
  have hheader := actionHeader_eq a
  rw [toNat_size hfits] at hheader
  rw [← List.nil_append [a]]
  refine Shape.current (length_toLe 2 a.size) (by simp) hfits ?_ ?_
  · have hresize : resize 0 b.buffer (b.size32 + actionHeaderSize + n)
        = List.replicate a.size 0 := by
      rw [hempty, hsize32, resize_of_length_le (Nat.zero_le _), Action.size, ← hn]
      simp
    have hfree := overwrite_free [] a
    rw [List.nil_append, List.nil_append, List.length_nil] at hfree
    rw [ActionBuilder.startBuilding, hc]
    dsimp only
    rw [hresize]
    have hwrite : overwrite (List.replicate a.size 0) 0
        (actionHeader controllerId flags actionId (UInt16.ofNat (actionHeaderSize + n)))
        = a.head (toLe 2 a.size) ++ List.replicate a.payload.length 0 := by
      rw [← hfree, ← hheader, hn, ha]
      rfl
    rw [hwrite, ← hn, ← hpayload]
    rfl
  · rw [ActionBuilder.startBuilding, hc]
    dsimp only
    rw [hsize32]
    rfl

/-- **A write into the payload** of the action built last. -/
theorem Shape.writePayload {offset : ℕ} {bytes : List UInt8} (h : Shape b actions)
    (hinside : ∃ a ∈ actions.getLast?, offset + bytes.length ≤ a.payload.length) :
    Shape (b.writePayload offset bytes)
      (actions.modifyLast fun a => { a with payload := overwrite a.payload offset bytes }) := by
  cases h with
  | empty => simp at hinside
  | @current done last size hsize hdone hlast hbuffer hstart =>
      obtain ⟨a, ha, hle⟩ := hinside
      rw [List.getLast?_concat, Option.mem_some_iff] at ha
      subst ha
      rw [List.modifyLast_concat]
      refine Shape.current hsize hdone ?_ ?_ hstart
      · rw [Action.Fits, Action.size] at hlast ⊢
        rwa [length_overwrite hle]
      · rw [ActionBuilder.writePayload]
        dsimp only
        rw [hbuffer, hstart, Nat.add_assoc, overwrite_append_right, Action.bytesWith,
          ← last.length_head hsize, overwrite_append_right]
        rfl

/-- **`resizePayload`** resizes the payload of the action built last. -/
theorem Shape.resizePayload {s : ℕ} (h : Shape b actions) (hne : b.buffer ≠ [])
    (hfits : actionHeaderSize + s ≤ kMaxActionSize) :
    Shape (b.resizePayload s).2
      (actions.modifyLast fun a => { a with payload := resize 0 a.payload s }) := by
  cases h with
  | empty hbuffer => exact absurd hbuffer hne
  | @current done last size hsize hdone hlast hbuffer hstart =>
      rw [List.modifyLast_concat]
      refine Shape.current hsize hdone ?_ ?_ hstart
      · rw [Action.Fits, Action.size, length_resize]
        exact hfits
      · rw [ActionBuilder.resizePayload]
        dsimp only
        rw [hbuffer, hstart, Nat.add_assoc, resize_append, Action.bytesWith,
          ← last.length_head hsize, resize_append]
        rfl

end

/-- **The invariant of a run** on a registered session. -/
structure Invariant (controllerId : UInt16) (r : ActionRun) : Prop where
  registered : r.builder.session = some controllerId
  shape : Shape r.builder r.built
  datagrams : DatagramsSplit r

section

variable {controllerId : UInt16} {r r' : ActionRun}

theorem Invariant.controllerId_eq (h : Invariant controllerId r) (hc : controllerId ≠ 0) :
    r.builder.controllerId = some controllerId := by
  rw [ActionBuilder.controllerId, h.registered]
  simp [hc]

theorem invariant_start (controllerId : UInt16) : Invariant controllerId (start controllerId) where
  registered := rfl
  shape := .empty rfl
  datagrams := by simp [DatagramsSplit, start]

/-- What a send does: it hands nothing to the socket, or the actions built, and keeps them when it
would block. -/
inductive SendCase (r : ActionRun) : ActionResult × Option (List UInt8) × ActionBuilder → Prop
  | idle (result : ActionResult) (hempty : r.builder.buffer = []) (hresult : result ≠ .wouldBlock) :
      SendCase r (result, none, r.builder.reset)
  | done (result : ActionResult) (hne : r.builder.buffer ≠ []) (hresult : result ≠ .wouldBlock) :
      SendCase r (result, some r.builder.finalize.buffer, r.builder.reset)
  | kept (hne : r.builder.buffer ≠ []) :
      SendCase r (.wouldBlock, some r.builder.finalize.buffer, r.builder.finalize)

theorem idle_iff (h : Invariant controllerId r) :
    r.builder.idle = true ↔ r.builder.buffer = [] := by
  simp [ActionBuilder.idle, h.registered]

/-- With nothing in the builder, a send does nothing but to reset it. -/
theorem SendCase.unless_idle (h : Invariant controllerId r) {result : ActionResult}
    {x : ActionResult × Option (List UInt8) × ActionBuilder} (hresult : result ≠ .wouldBlock)
    (hx : r.builder.buffer ≠ [] → SendCase r x) :
    SendCase r (if r.builder.idle then (result, none, r.builder.reset) else x) := by
  split_ifs with hidle
  · exact .idle _ ((idle_iff h).mp hidle) hresult
  · exact hx fun hempty => hidle ((idle_iff h).mpr hempty)

theorem sendCase_sendNonBlocking (h : Invariant controllerId r) (answer : SocketAnswer) :
    SendCase r (r.builder.sendNonBlocking answer) := by
  refine .unless_idle h (by decide) fun hne => ?_
  cases answer with
  | sent => exact .done _ hne (by decide)
  | wouldBlock => exact .kept hne
  | error => exact .done _ hne (by decide)

theorem sendCase_sendBlocking (h : Invariant controllerId r) (answer : SocketAnswer)
    (later : Bool) : SendCase r (r.builder.sendBlocking answer later) := by
  refine .unless_idle h (by decide) fun hne => ?_
  cases answer with
  | sent => exact .done _ hne (by decide)
  | error => exact .done _ hne (by decide)
  | wouldBlock => exact .done _ hne (by cases later <;> decide)

theorem sendCase_asyncSend (h : Invariant controllerId r) : SendCase r r.builder.asyncSend :=
  .unless_idle h (by decide) fun hne => .done _ hne (by decide)

/-- Writing the size of the action built last keeps the shape. -/
theorem Shape.finalized {b : ActionBuilder} {actions : List Action} (h : Shape b actions)
    (hne : b.buffer ≠ []) : Shape b.finalize actions := by
  have hbuffer := h.finalize hne
  cases h with
  | empty hempty => exact absurd hempty hne
  | @current done last size hsize hdone hlast _ hstart =>
      refine Shape.current (length_toLe 2 last.size) hdone hlast ?_ hstart
      rw [hbuffer]
      simp [Action.encode]

/-- **A send keeps the invariant.** -/
theorem SendCase.invariant {result : ActionResult × Option (List UInt8) × ActionBuilder}
    (hcase : SendCase r result) (h : Invariant controllerId r) :
    Invariant controllerId (r.behindSend result) := by
  have hdatagram : r.builder.buffer ≠ [] → DatagramsSplit
      { r with sent := r.sent ++ [(r.builder.finalize.buffer, r.built)] } := by
    intro hne p hp
    rcases List.mem_append.mp hp with hp | hp
    · exact h.datagrams p hp
    · rw [List.mem_singleton.mp hp, h.shape.finalize hne]
      exact split_encode h.shape.fits
  cases hcase with
  | idle result hempty hresult =>
      refine ⟨h.registered, ?_, ?_⟩
      · rw [behindSend]
        dsimp only
        rw [if_neg hresult]
        exact .empty rfl
      · intro p hp
        refine h.datagrams p ?_
        simpa [behindSend] using hp
  | done result hne hresult =>
      refine ⟨h.registered, ?_, hdatagram hne⟩
      rw [behindSend]
      dsimp only
      rw [if_neg hresult]
      exact .empty rfl
  | kept hne =>
      refine ⟨h.registered, ?_, hdatagram hne⟩
      rw [behindSend]
      dsimp only
      rw [if_pos rfl]
      exact h.shape.finalized hne

/-- **One call that meets the condition keeps the invariant.** -/
theorem step_invariant {l : ActionStep} (hc : controllerId ≠ 0) (h : Invariant controllerId r)
    (hok : r.Guarded l) (hstep : r.step l = some r') : Invariant controllerId r' := by
  have hcontroller := h.controllerId_eq hc
  cases l with
  | build actionId payload flags =>
      rw [step, Option.ite_none_right_eq_some, Option.some.injEq] at hstep
      obtain ⟨hfits, rfl⟩ := hstep
      refine ⟨?_, ?_, h.datagrams⟩
      · rw [ActionBuilder.build, hcontroller]
        exact h.registered
      · rw [add, hcontroller]
        exact h.shape.build hcontroller hfits hok
  | startBuilding actionId n flags =>
      rw [step, Option.ite_none_right_eq_some, Option.some.injEq] at hstep
      obtain ⟨hfits, rfl⟩ := hstep
      have hempty : r.builder.buffer = [] := hok
      have hnone := h.shape.nil_iff.mp hempty
      refine ⟨?_, ?_, h.datagrams⟩
      · rw [ActionBuilder.startBuilding, hcontroller]
        exact h.registered
      · rw [add, hcontroller, hnone]
        refine Shape.startBuilding hempty hcontroller ?_
        rw [Action.Fits, Action.size, List.length_replicate]
        exact hfits
  | writePayload offset bytes =>
      rw [step, Option.ite_none_right_eq_some, Option.some.injEq] at hstep
      obtain ⟨hinside, rfl⟩ := hstep
      exact ⟨h.registered, h.shape.writePayload hinside, h.datagrams⟩
  | resizePayload s =>
      rw [step, Option.ite_none_right_eq_some, Option.some.injEq] at hstep
      obtain ⟨hfits, rfl⟩ := hstep
      exact ⟨h.registered, h.shape.resizePayload hok hfits, h.datagrams⟩
  | sendNonBlocking answer =>
      obtain rfl := Option.some.inj hstep
      exact (sendCase_sendNonBlocking h answer).invariant h
  | sendBlocking answer later =>
      obtain rfl := Option.some.inj hstep
      exact (sendCase_sendBlocking h answer later).invariant h
  | asyncSend =>
      obtain rfl := Option.some.inj hstep
      exact (sendCase_asyncSend h).invariant h
  | reset =>
      obtain rfl := Option.some.inj hstep
      exact ⟨h.registered, .empty rfl, h.datagrams⟩

/-- **Every datagram splits into the actions built for it**, in every run of the builder of a
registered session whose calls meet the condition. -/
theorem datagrams_split {ls : List ActionStep} (hc : controllerId ≠ 0)
    (hok : Meets step Guarded (start controllerId) ls)
    (h : exec step (start controllerId) ls = some r) : DatagramsSplit r :=
  (hok.invariant (step_invariant hc) (invariant_start controllerId) h).datagrams

end

/-- Two actions in one datagram. -/
theorem datagrams_split_two :
    ∃ r, exec step (start 1) [.startBuilding 2 1 0, .writePayload 0 [7], .build 3 [8, 9] 1,
      .sendNonBlocking .sent] = some r ∧ DatagramsSplit r := by
  have hok : Meets step Guarded (start 1) [.startBuilding 2 1 0, .writePayload 0 [7],
      .build 3 [8, 9] 1, .sendNonBlocking .sent] := by
    decide +kernel
  exact ⟨_, rfl, datagrams_split (by decide) hok rfl⟩

/-- `startBuilding` on a builder that is not empty: the header of the second action overwrites that
of the first. -/
theorem not_datagrams_split : ¬ ∀ (controllerId : UInt16) (ls : List ActionStep) (r : ActionRun),
    controllerId ≠ 0 → exec step (start controllerId) ls = some r → DatagramsSplit r := by
  intro h
  have hbad := h 1 [.startBuilding 2 0 0, .startBuilding 3 0 0, .sendNonBlocking .sent] _
    (by decide) rfl
  have hsplit := hbad _ List.mem_cons_self
  have hflat := congrArg (fun p => p.1.flatten ++ p.2) hsplit
  dsimp only at hflat
  rw [Framing.split_flatten] at hflat
  exact absurd hflat (by decide +kernel)

end ActionRun

end ScApi
