import ScApi.BsonSeeking
import ScApi.EffectData
import ScApi.PipelineConfig

/-!
# Effect pipelines

An `FfbPipeline` is a handle of a pipeline that the backend grants to `configure`. It keeps the number
of the pipeline as an `int8_t`, and takes a negative one for none. The number comes from a field of the
response, and goes into every further request and into the actions of an effect.

The responses are up to the backend. The run of a handle is followed together with the pipelines that the
backend has granted and not freed since: it frees the one that a request names. What is handed to the
socket is kept with the response that was the latest at the time.

## Main results

* `readPipelineId_document`: the number in a response.
* `generateEffect_hands`, `stop_hands`: the action that is sent.
* `freeRequest_eq`: the request that asks for a pipeline to be freed.
* `step_keeps_iff`: which calls keep the handle of what was granted.
* `keepsGranted_iff`: in every run, the handle is kept in every state exactly when all numbers that are
  granted are below 128, and one at a time.
-/

open Bytes Buffer BoundedRead Bson

namespace ScApi

open ElementType BsonReader Runs

/-- The 8-bit integer that `z` wraps around to. -/
def wrap8 (z : ℤ) : ℤ :=
  (z + 128) % 256 - 128

/-- An `FfbPipeline`. The offset type of the configuration has no initial value. -/
structure FfbPipeline where
  actionBuilder : ActionBuilder
  device : UInt16
  pipelineId : ℤ := -1
  config : Option PipelineConfig := none
  deriving DecidableEq, Repr

/-- `SC_API_PROTOCOL_ACTION_FB_EFFECT_CLEAR`. -/
def actionFbEffectClear : UInt16 := 2

/-- `sizeof(Payload)` in `buildEffectClearAction`, with two bytes of alignment at the end. -/
def clearPayloadSize : ℕ := 52

/-- `buildEffectClearAction`. The payload is made on the stack, whose bytes are those of `stack` where
nothing is assigned to. -/
def buildEffectClearAction (stack : List UInt8) (pipeline : EffectPipelineRef) (b : ActionBuilder) :
    Bool × ActionBuilder :=
  let payload := resize 0 stack clearPayloadSize
  let payload := overwrite payload 2 (List.replicate 14 0)
  let payload := overwrite payload effectAadSize
    (toLe 2 pipeline.deviceLogicalId.toNat ++ [1, pipeline.pipelineId])
  match b.startBuilding actionFbEffectClear clearPayloadSize 0 with
  | (none, b) => (false, b)
  | (some _, b) => (true, b.writePayload 0 payload)

namespace FfbPipeline

/-- What `configure` reads from the payload of a result. -/
def readPipelineId (payload : List UInt8) : Read ℤ := do
  let r ← ofBufferSize (some payload) payload.length
  let (pipelineId, _) ← r.tryFindAndGetI32 payload (ascii "pipeline_id")
  pure (pipelineId.getD (-1))

/-- `FfbPipeline::configure`, with the payload of the result if it is a success. The request is
`configureRequest`. -/
def configure (config : PipelineConfig) (result : Option (List UInt8)) (p : FfbPipeline) :
    Read (Bool × FfbPipeline) :=
  match result with
  | some payload => do
      let pipelineId ← readPipelineId payload
      pure (true, { p with pipelineId := wrap8 pipelineId, config := some config })
  | none => pure (false, p)

/-- The reference that `generateEffect` and `stop` make, unless they refuse. -/
def ref (p : FfbPipeline) : Option EffectPipelineRef :=
  if p.pipelineId < 0 then none
  else some ⟨p.device, UInt8.ofNat (p.pipelineId % 256).toNat⟩

/-- `FfbPipeline::generateEffect`, with the answer of the socket and the secure session of the
session: its result, the datagram handed to the socket, and what it leaves. -/
def generateEffect (mem : List UInt8) (startTimestamp sampleTime : ℤ) (sampleCount : ℕ)
    (random : Security.RandomIv) (answer : SocketAnswer) (secureSession : Option Security.SecureSession)
    (p : FfbPipeline) :
    Read (Bool × Option (List UInt8) × FfbPipeline × Option Security.SecureSession) :=
  match p.ref with
  | none => pure (false, none, p, secureSession)
  | some ref => do
      let (built, b, secureSession) ← buildEffectOffsetDataAction mem ref startTimestamp sampleTime
        sampleCount random secureSession p.actionBuilder
      if built then
        let (result, datagram, b) := b.sendNonBlocking answer
        pure (result = .complete, datagram, { p with actionBuilder := b }, secureSession)
      else
        pure (false, none, { p with actionBuilder := b }, secureSession)

/-- `FfbPipeline::stop`: its result, the datagram handed to the socket, and what it leaves. -/
def stop (stack : List UInt8) (answer : SocketAnswer) (p : FfbPipeline) :
    Bool × Option (List UInt8) × FfbPipeline :=
  match p.ref with
  | none => (false, none, p)
  | some ref =>
      let (_, b) := buildEffectClearAction stack ref p.actionBuilder
      let (result, datagram, b) := b.sendNonBlocking answer
      (result = .complete, datagram, { p with actionBuilder := b })

/-- The request of `remove` and of the destructor of an active pipeline. -/
def freeRequest (platform : Platform) (cmdId : BitVec 32) (p : FfbPipeline) : Build (List UInt8) :=
  CommandRequest.finalized platform
    [.add (.name (ascii "device_session_id")) (.i32 (BitVec.ofNat 32 p.device.toNat)),
      .add (.name (ascii "pipeline_id")) (.i32 (BitVec.ofInt 32 p.pipelineId))] cmdId
    (CommandRequest.initializeCommand platform (ascii "ffb") (ascii "free_pipeline") {})

/-- `FfbPipeline::remove`, with the number of its command and whether the result of it is a success:
its result, the request that it sends, and what it leaves. -/
def remove (platform : Platform) (cmdId : BitVec 32) (success : Bool) (p : FfbPipeline) :
    Build (Bool × Option (List UInt8) × FfbPipeline) :=
  if p.pipelineId < 0 then
    pure (true, none, p)
  else do
    let request ← p.freeRequest platform cmdId
    if success then
      pure (true, some request, { p with pipelineId := -1 })
    else
      pure (false, some request, p)

/-- `FfbPipeline::isActive`; whether the state of the session is `connected_control`. -/
def isActive (connectedControl : Bool) (p : FfbPipeline) : Bool :=
  p.pipelineId ≠ -1 ∧ connectedControl

/-- `FfbPipeline::~FfbPipeline`: the request that it sends. -/
def destroy (platform : Platform) (cmdId : BitVec 32) (connectedControl : Bool) (p : FfbPipeline) :
    Build (Option (List UInt8)) :=
  if p.isActive connectedControl then do
    let request ← p.freeRequest platform cmdId
    pure (some request)
  else
    pure none

end FfbPipeline

/-! ### What is sent -/

/-- The payload of an action for a pipeline, with the flags and the id of the action: an effect, which
may be encrypted behind an IV, or a stop. -/
inductive PayloadFor (ref : EffectPipelineRef) : UInt16 → UInt16 → List UInt8 → Prop
  | effect (rest : List UInt8) :
      PayloadFor ref 0 actionFbEffect (effectAad ref ++ effectDevice ref ++ rest)
  | encrypted (iv rest : List UInt8) (hiv : iv.length = Security.ivLen) :
      PayloadFor ref actionFlagEncrypted actionFbEffect
        (iv ++ (effectAad ref ++ effectDevice ref ++ rest))
  | clear (aad rest : List UInt8) (haad : aad.length = effectAadSize) :
      PayloadFor ref 0 actionFbEffectClear
        (aad ++ (toLe 2 ref.deviceLogicalId.toNat ++ [1, ref.pipelineId] ++ rest))

/-- A datagram ends with an action for a pipeline. -/
def Addresses (ref : EffectPipelineRef) (datagram : List UInt8) : Prop :=
  ∃ flags actionId payload, PayloadFor ref flags actionId payload ∧ payload <:+ datagram

/-- A call has handed an action for a pipeline to the socket, whose answer is the result of the call. -/
structure Hands (b : ActionBuilder) (ref : EffectPipelineRef) (actionId : UInt16)
    (answer : SocketAnswer) (success : Bool) (datagram : List UInt8) : Prop where
  success : success = true ↔ answer = .sent
  action : ∃ flags payload, PayloadFor ref flags actionId payload ∧
    b.Sends flags actionId payload datagram

/-- The request that frees a pipeline of a device. -/
def freePacket (device : UInt16) (cmdId : BitVec 32) (n : ℤ) : List UInt8 :=
  document (CommandRequest.encoding (ascii "ffb") (ascii "free_pipeline")
    (.leaf (ascii "device_session_id") (.i32 (BitVec.ofNat 32 device.toNat))
      (.leaf (ascii "pipeline_id") (.i32 (BitVec.ofInt 32 n)) .nil)) cmdId).bytes

section Sent

variable {p p' : FfbPipeline} {b : ActionBuilder} {ref : EffectPipelineRef} {actionId : UInt16}
  {answer : SocketAnswer} {success : Bool} {datagram mem stack : List UInt8}
  {startTimestamp sampleTime : ℤ} {sampleCount : ℕ} {random : Security.RandomIv}
  {secureSession secureSession' : Option Security.SecureSession} {output : Option (List UInt8)}

theorem Hands.addresses (h : Hands b ref actionId answer success datagram) :
    Addresses ref datagram := by
  obtain ⟨flags, payload, hpayload, hsends⟩ := h.action
  exact ⟨flags, actionId, payload, hpayload, hsends.ends⟩

/-- An action that was built is handed to the socket. -/
theorem hands_of_started {flags : UInt16} {payload : List UInt8} {b' : ActionBuilder}
    (hb : b.session ≠ none) (h : b.Started flags actionId payload b')
    (hpayload : PayloadFor ref flags actionId payload) (answer : SocketAnswer) :
    ∃ result b'', b'.sendNonBlocking answer = (result, some b'.finalize.buffer, b'') ∧
      b''.session = b.session ∧
      Hands b ref actionId answer (result = .complete) b'.finalize.buffer := by
  obtain ⟨result, b'', hsend, hresult, hsession⟩ := h.sendNonBlocking hb answer
  refine ⟨result, b'', hsend, hsession, ?_, flags, payload, hpayload, h.sends⟩
  rw [decide_eq_true_eq]
  exact hresult

/-- **An effect** is built for the pipeline, and handed to the socket. -/
theorem generateEffect_hands (href : p.ref = some ref) (hc : p.actionBuilder.controllerId ≠ none)
    (hs : ∀ s ∈ secureSession, s.iv = [] ∨ s.iv.length = Security.ivLen) (hpos : sampleCount ≠ 0)
    (hle : sampleCount ≤ 256)
    (hmem : samplesSize secureSession.isSome sampleCount ≤ mem.length) :
    ∃ success datagram b secureSession', p.generateEffect mem startTimestamp sampleTime sampleCount
        random answer secureSession
          = .ok (success, some datagram, { p with actionBuilder := b }, secureSession') ∧
      Hands p.actionBuilder ref actionFbEffect answer success datagram ∧
      b.session = p.actionBuilder.session ∧
      ∀ s ∈ secureSession', s.iv = [] ∨ s.iv.length = Security.ivLen := by
  obtain ⟨controllerId, hc⟩ := Option.ne_none_iff_exists'.mp hc
  rw [FfbPipeline.generateEffect, href]
  dsimp only
  cases secureSession with
  | none =>
      obtain ⟨b, hbuild, hstarted⟩ := build_plaintext hc hpos hle hmem
      rw [effectHeader, List.append_assoc] at hstarted
      obtain ⟨result, b', hsend, hsession, hhands⟩ :=
        hands_of_started (session_ne_none hc) hstarted (.effect _) answer
      refine ⟨_, _, b', none, ?_, hhands, hsession, by simp⟩
      rw [hbuild, ok_bind]
      dsimp only
      rw [if_pos rfl, hsend]
      rfl
  | some s =>
      obtain ⟨b, s', iv, encrypted, tag, hbuild, -, hiv, -, -, hiv', hstarted⟩ :=
        build_encrypted hc (hs s rfl) hpos hle hmem
      obtain ⟨result, b', hsend, hsession, hhands⟩ :=
        hands_of_started (session_ne_none hc) hstarted (.encrypted iv _ hiv) answer
      refine ⟨_, _, b', some s', ?_, hhands, hsession, fun t ht => ?_⟩
      · rw [hbuild, ok_bind]
        dsimp only
        rw [if_pos rfl, hsend]
        rfl
      · obtain rfl := Option.some.inj ht
        exact .inr hiv'

/-- What an effect leaves, and what it has handed to the socket. -/
theorem generateEffect_frame (hc : p.actionBuilder.controllerId ≠ none)
    (hs : ∀ s ∈ secureSession, s.iv = [] ∨ s.iv.length = Security.ivLen)
    (hcall : p.generateEffect mem startTimestamp sampleTime sampleCount random answer secureSession
      = .ok (success, output, p', secureSession')) :
    (∃ b, p' = { p with actionBuilder := b } ∧ b.session = p.actionBuilder.session) ∧
      (∀ s ∈ secureSession', s.iv = [] ∨ s.iv.length = Security.ivLen) ∧
      ∀ datagram ∈ output, ∃ ref ∈ p.ref, Addresses ref datagram := by
  cases href : p.ref with
  | none =>
      rw [FfbPipeline.generateEffect, href] at hcall
      obtain ⟨-, rfl, rfl, rfl⟩ : false = success ∧ none = output ∧ p = p' ∧
        secureSession = secureSession' := by simpa using hcall
      exact ⟨⟨p.actionBuilder, rfl, rfl⟩, hs, by simp⟩
  | some ref =>
      by_cases hcount : sampleCount = 0 ∨ sampleCount > 256
      · have hbuild : buildEffectOffsetDataAction mem ref startTimestamp sampleTime sampleCount random
            secureSession p.actionBuilder = .ok (false, p.actionBuilder, secureSession) := by
          rw [buildEffectOffsetDataAction, if_pos hcount, pure_eq_ok]
        rw [FfbPipeline.generateEffect, href] at hcall
        dsimp only at hcall
        rw [hbuild, ok_bind] at hcall
        obtain ⟨-, rfl, rfl, rfl⟩ : false = success ∧ none = output ∧ p = p' ∧
          secureSession = secureSession' := by simpa using hcall
        exact ⟨⟨p.actionBuilder, rfl, rfl⟩, hs, by simp⟩
      · obtain ⟨hpos, hle⟩ := not_or.mp hcount
        obtain ⟨controllerId, hc'⟩ := Option.ne_none_iff_exists'.mp hc
        have hmem : samplesSize secureSession.isSome sampleCount ≤ mem.length := by
          rw [FfbPipeline.generateEffect, href] at hcall
          obtain ⟨built, hbuilt, -⟩ := bind_eq_ok.mp hcall
          exact readable_of_build hc' hpos (not_lt.mp hle) hbuilt
        obtain ⟨success', datagram', b, s', hcall', hhands, hsession, hiv⟩ :=
          generateEffect_hands href hc hs hpos (not_lt.mp hle) hmem
        rw [hcall] at hcall'
        obtain ⟨-, rfl, rfl, rfl⟩ : success = success' ∧ output = some datagram' ∧
          p' = { p with actionBuilder := b } ∧ secureSession' = s' := by simpa using hcall'
        refine ⟨⟨b, rfl, hsession⟩, hiv, fun datagram hdatagram => ⟨ref, rfl, ?_⟩⟩
        obtain rfl := Option.some.inj hdatagram
        exact hhands.addresses

/-- The payload of a stop. -/
theorem started_clear (hc : b.controllerId ≠ none) (ref : EffectPipelineRef) (stack : List UInt8) :
    ∃ payload b', buildEffectClearAction stack ref b = (true, b') ∧
      b.Started 0 actionFbEffectClear payload b' ∧ PayloadFor ref 0 actionFbEffectClear payload := by
  obtain ⟨controllerId, hc⟩ := Option.ne_none_iff_exists'.mp hc
  obtain ⟨start, b₁, hstart⟩ :=
    startBuilding_of_controllerId hc actionFbEffectClear clearPayloadSize 0
  obtain ⟨free, hlen, hstarted⟩ := ActionBuilder.started_startBuilding hstart (by decide)
  obtain ⟨zeroed, hzeroed⟩ : ∃ zeroed, zeroed
      = overwrite (resize 0 stack clearPayloadSize) 2 (List.replicate 14 0) := ⟨_, rfl⟩
  have hzeroedLen : zeroed.length = clearPayloadSize := by
    rw [hzeroed, length_overwrite (by rw [length_resize]; decide), length_resize]
  obtain ⟨named, hnamed⟩ : ∃ named : List UInt8,
    named = toLe 2 ref.deviceLogicalId.toNat ++ [1, ref.pipelineId] := ⟨_, rfl⟩
  have hnamedLen : named.length = 4 := by rw [hnamed, List.length_append, length_toLe]; rfl
  have hpayloadLen : (overwrite zeroed effectAadSize named).length = clearPayloadSize := by
    rw [length_overwrite (by rw [hzeroedLen, hnamedLen]; decide), hzeroedLen]
  have hwritten := hstarted.writePayload
    (show 0 + (overwrite zeroed effectAadSize named).length ≤ _ by omega)
  rw [overwrite_zero, List.drop_of_length_le (by omega), List.append_nil] at hwritten
  refine ⟨_, _, ?_, hwritten, ?_⟩
  · rw [buildEffectClearAction, hstart, hzeroed, hnamed]
  · rw [overwrite, List.append_assoc, hnamed]
    refine .clear _ _ ?_
    rw [List.length_take_of_le (by rw [hzeroedLen]; decide)]

/-- **A stop** is built for the pipeline, and handed to the socket. -/
theorem stop_hands (href : p.ref = some ref) (hc : p.actionBuilder.controllerId ≠ none)
    (stack : List UInt8) (answer : SocketAnswer) :
    ∃ success datagram b, p.stop stack answer = (success, some datagram, { p with actionBuilder := b }) ∧
      Hands p.actionBuilder ref actionFbEffectClear answer success datagram ∧
      b.session = p.actionBuilder.session := by
  obtain ⟨payload, b, hbuild, hstarted, hpayload⟩ := started_clear hc ref stack
  obtain ⟨controllerId, hc'⟩ := Option.ne_none_iff_exists'.mp hc
  obtain ⟨result, b', hsend, hsession, hhands⟩ :=
    hands_of_started (session_ne_none hc') hstarted hpayload answer
  refine ⟨_, _, b', ?_, hhands, hsession⟩
  rw [FfbPipeline.stop, href]
  dsimp only
  rw [hbuild]
  dsimp only
  rw [hsend]

/-- What a stop leaves, and what it has handed to the socket. -/
theorem stop_frame (hc : p.actionBuilder.controllerId ≠ none)
    (hcall : p.stop stack answer = (success, output, p')) :
    (∃ b, p' = { p with actionBuilder := b } ∧ b.session = p.actionBuilder.session) ∧
      ∀ datagram ∈ output, ∃ ref ∈ p.ref, Addresses ref datagram := by
  cases href : p.ref with
  | none =>
      rw [FfbPipeline.stop, href] at hcall
      obtain ⟨-, hcall⟩ := Prod.mk.inj hcall
      obtain ⟨rfl, rfl⟩ := Prod.mk.inj hcall
      exact ⟨⟨p.actionBuilder, rfl, rfl⟩, by simp⟩
  | some ref =>
      obtain ⟨success', datagram', b, hcall', hhands, hsession⟩ := stop_hands href hc stack answer
      rw [hcall] at hcall'
      obtain ⟨-, hcall'⟩ := Prod.mk.inj hcall'
      obtain ⟨rfl, rfl⟩ := Prod.mk.inj hcall'
      refine ⟨⟨b, rfl, hsession⟩, fun datagram hdatagram => ⟨ref, rfl, ?_⟩⟩
      obtain rfl := Option.some.inj hdatagram
      exact hhands.addresses

/-- **What is asked to be freed** is the pipeline whose number the handle has. -/
theorem freeRequest_eq {platform : Platform} (hgrow : platform.GrowsWithin 246) (cmdId : BitVec 32)
    (p : FfbPipeline) :
    p.freeRequest platform cmdId = .ok (freePacket p.device cmdId p.pipelineId) :=
  finalized_eq (.value _ _ (.value _ _ .done)) hgrow (by decide) (by decide) _ _ cmdId
    (Nat.le_of_ble_eq_true rfl)

end Sent

/-! ### Responses -/

/-- The payload of a successful response: any document. -/
structure ResponseDocument where
  entries : List Entry
  clean : ∀ e ∈ entries, 0 ∉ e.1 ∧ e.2.CleanKeys
  size : (document (entries.flatMap Entry.bytes)).length < 2147483648

namespace ResponseDocument

/-- The bytes of the document. -/
def bytes (d : ResponseDocument) : List UInt8 :=
  document (d.entries.flatMap Entry.bytes)

end ResponseDocument

/-- The number that a value is; the integer part of a double. -/
def numberOf : Value → Option ℤ
  | .leaf (.i32 v) => some v.toInt
  | .leaf (.i64 v) => some v.toInt
  | .leaf (.double bits) => some (truncateDouble bits.toNat)
  | _ => none

/-- **The pipeline that a response grants.** -/
def ResponseDocument.grantedId (d : ResponseDocument) : Option ℤ :=
  (d.entries.lookup (ascii "pipeline_id")).bind numberOf

section Response

variable {mem pre post : List UInt8} {v : Value} {r : BsonReader}

theorem toI64_toLe_toNat (n : BitVec 64) : toI64 (toLe 8 n.toNat) = n.toInt := by
  have hlt := n.isLt
  have hpow : n.toNat < 256 ^ 8 := hlt.trans_le (by norm_num)
  rw [toI64, ofLe_toLe_of_lt hpow, BitVec.toInt]
  split <;> omega

/-- A value is read as the number that it is, if that fits. -/
theorem tryGetI32_value (hmem : mem = pre ++ v.bytes ++ post)
    (htype : r.curType = ElementType.ofByte v.typeByte) (hoff : r.bufOffset = pre.length) :
    ∃ m, r.tryGetI32 mem = .ok m ∧
      ∀ n, numberOf v = some n → -2147483648 ≤ n → n < 2147483648 → m = some n := by
  have hvalue := bytesAt_append pre v.bytes post
  rw [← hmem, ← hoff] at hvalue
  cases v with
  | leaf v =>
      cases v with
      | i32 b =>
          have ht : r.curType = elementI32 := htype
          rw [show (Value.leaf (.i32 b)).bytes = toLe 4 b.toNat from rfl, length_toLe] at hvalue
          rw [tryGetI32, ht, int32Value, i32At, hvalue, ok_bind, pure_eq_ok, ok_bind, toI32_toLe_toNat]
          exact ⟨_, rfl, fun n hn _ _ => hn⟩
      | i64 b =>
          have ht : r.curType = elementI64 := htype
          rw [show (Value.leaf (.i64 b)).bytes = toLe 8 b.toNat from rfl, length_toLe] at hvalue
          rw [tryGetI32, ht, int64Value, hvalue, ok_bind, pure_eq_ok, ok_bind, toI64_toLe_toNat]
          refine ⟨_, rfl, fun n hn hlo hhi => ?_⟩
          obtain rfl : b.toInt = n := Option.some.inj hn
          rw [wrap32]
          congr 1
          omega
      | double bits =>
          have ht : r.curType = elementDouble := htype
          have hpow : bits.toNat < 256 ^ 8 := bits.isLt.trans_le (by norm_num)
          rw [show (Value.leaf (.double bits)).bytes = toLe 8 bits.toNat from rfl, length_toLe]
            at hvalue
          rw [tryGetI32, ht, doubleValue, hvalue, ok_bind, pure_eq_ok, ok_bind, ofLe_toLe_of_lt hpow]
          refine ⟨_, rfl, fun n hn hlo hhi => ?_⟩
          obtain rfl : truncateDouble bits.toNat = n := Option.some.inj hn
          rw [i32OfDouble, if_pos ⟨hlo, hhi⟩]
      | bool _ | null | string _ | binary _ _ =>
          rw [tryGetI32, htype]
          exact ⟨none, rfl, fun n hn => absurd hn (by simp [numberOf])⟩
  | sub kind body =>
      rw [tryGetI32, htype]
      cases kind <;> exact ⟨none, rfl, fun n hn => absurd hn (by simp [numberOf])⟩

/-- **The number in a response.** -/
theorem readPipelineId_document (d : ResponseDocument) :
    ∃ m, FfbPipeline.readPipelineId d.bytes = .ok m ∧
      ∀ n, d.grantedId = some n → -2147483648 ≤ n → n < 2147483648 → m = n := by
  obtain ⟨entries, hclean, hsize⟩ := d
  obtain ⟨key, hkey⟩ : ∃ key, key = ascii "pipeline_id" := ⟨_, rfl⟩
  have hbytes : ResponseDocument.bytes ⟨entries, hclean, hsize⟩
      = document (entries.flatMap Entry.bytes) ++ [] := (List.append_nil _).symm
  have hlen : (ResponseDocument.bytes ⟨entries, hclean, hsize⟩).length
      = (document (entries.flatMap Entry.bytes)).length := rfl
  have henters : Enters (documentContainer entries [] hclean hsize) _ :=
    enters_document hclean hsize (document (entries.flatMap Entry.bytes)).length
  rw [FfbPipeline.readPipelineId, hlen, hbytes, ofBufferSize_document hsize [] le_rfl, ok_bind,
    ResponseDocument.grantedId, ← hkey]
  dsimp only
  have hreached := Reached.enter henters
  cases hlookup : entries.lookup key with
  | none =>
      have habsent : ∀ it ∈ (documentContainer entries [] hclean hsize).items, it.key ≠ key := by
        intro it hmem heq
        have hmap := List.mem_map_of_mem (f := Item.key) hmem
        rw [Container.items, map_key_itemsAt, heq] at hmap
        obtain ⟨e, he, hfst⟩ := List.mem_map.mp hmap
        exact absurd hfst.symm (bne_iff_ne.mp (List.lookup_eq_none_iff.mp hlookup e he))
      obtain ⟨r', hseek⟩ := hreached.stands.seekKey_absent habsent
      rw [tryFindAndGetI32, hseek, ok_bind]
      exact ⟨-1, rfl, fun n hn => absurd hn (by simp)⟩
  | some v =>
      obtain ⟨front, back, hsplit, hfront⟩ := List.lookup_eq_some_iff.mp hlookup
      have hne : ∀ e ∈ front, e.1 ≠ key := fun e he heq =>
        absurd heq.symm (bne_iff_ne.mp (hfront e he))
      obtain ⟨r', hseek, -, -, htype, hoff, -, -⟩ := seekKey_entry hreached hsplit hne
      have hloc := (documentContainer entries [] hclean hsize).located
      rw [show (documentContainer entries [] hclean hsize).entries = front ++ (key, v) :: back
        from hsplit] at hloc
      obtain ⟨hmem, hpre, -⟩ := (located_from hloc).head.value
      have hoff' : r'.bufOffset = ((documentContainer entries [] hclean hsize).pre
          ++ front.flatMap Entry.bytes ++ header v.typeByte key).length := by
        rw [hoff, hpre, List.length_append]
        rfl
      obtain ⟨m, hget, hm⟩ := tryGetI32_value hmem htype hoff'
      have hend : (ElementType.ofByte v.typeByte).isEndOrError = false := by
        cases v with
        | leaf v => cases v <;> rfl
        | sub kind body => cases kind <;> rfl
      rw [tryFindAndGetI32, hseek, ok_bind]
      dsimp only
      rw [hend, if_neg Bool.false_ne_true, hget]
      refine ⟨m.getD (-1), rfl, fun n hn hlo hhi => ?_⟩
      rw [hm n hn hlo hhi]
      rfl

end Response

/-! ### The life of a handle -/

/-- A handle, with the pipelines that the backend has granted to it and not freed since, and with the
response of the latest successful `configure`, unless `remove` has succeeded since. -/
structure FfbHandle where
  pipeline : FfbPipeline
  secureSession : Option Security.SecureSession
  configured : Option ResponseDocument := none
  granted : List ℤ := []
  /-- The datagrams handed to the socket, each with the response that was the latest at the time. -/
  sent : List (List UInt8 × Option ResponseDocument) := []
  destroyed : Bool := false

namespace FfbHandle

/-- A call of a function of the handle, with what it gets from its caller, the socket and the
backend, and with the number of the command that it sends. -/
inductive Call
  | configure (config : PipelineConfig) (response : Option ResponseDocument)
  | generateEffect (mem : List UInt8) (startTimestamp sampleTime : ℤ) (sampleCount : ℕ)
      (random : Security.RandomIv) (answer : SocketAnswer)
  | stop (stack : List UInt8) (answer : SocketAnswer)
  | remove (cmdId : BitVec 32) (success : Bool)
  | destroy (cmdId : BitVec 32)

/-- The handle as it is constructed. -/
def opened (actionBuilder : ActionBuilder) (device : UInt16)
    (secureSession : Option Security.SecureSession) : FfbHandle where
  pipeline := { actionBuilder, device }
  secureSession

/-- The pipelines that are left when the backend gets a request: it frees the one that the request
names. -/
def freed (cmdId : BitVec 32) (request : Option (List UInt8)) (h : FfbHandle) : List ℤ :=
  h.granted.filter fun n => request ≠ some (freePacket h.pipeline.device cmdId n)

/-- The datagrams with one more. -/
def logged (datagram : Option (List UInt8)) (h : FfbHandle) :
    List (List UInt8 × Option ResponseDocument) :=
  h.sent ++ (datagram.map fun datagram => (datagram, h.configured)).toList

/-- A call; the session is registered. -/
def step (platform : Platform) (h : FfbHandle) (call : Call) : Option FfbHandle :=
  if h.destroyed then
    none
  else
    match call with
    | .configure config response =>
        match h.pipeline.configure config (response.map ResponseDocument.bytes) with
        | .ok (success, pipeline) =>
            some { h with
              pipeline
              configured := if success then response else h.configured
              granted := (response.bind ResponseDocument.grantedId).toList ++ h.granted }
        | .error _ => none
    | .generateEffect mem startTimestamp sampleTime sampleCount random answer =>
        match h.pipeline.generateEffect mem startTimestamp sampleTime sampleCount random answer
          h.secureSession with
        | .ok (_, datagram, pipeline, secureSession) =>
            some { h with pipeline, secureSession, sent := h.logged datagram }
        | .error _ => none
    | .stop stack answer =>
        let (_, datagram, pipeline) := h.pipeline.stop stack answer
        some { h with pipeline, sent := h.logged datagram }
    | .remove cmdId success =>
        match h.pipeline.remove platform cmdId success with
        | .ok (removed, request, pipeline) =>
            some { h with
              pipeline
              configured := if removed then none else h.configured
              granted := if success then h.freed cmdId request else h.granted }
        | .error _ => none
    | .destroy cmdId =>
        match h.pipeline.destroy platform cmdId true with
        | .ok request =>
            some { h with configured := none, granted := h.freed cmdId request, destroyed := true }
        | .error _ => none

/-- Effects and stops are not refused, and what they hand to the socket is for the pipeline `n`. -/
structure Serves (h : FfbHandle) (n : ℤ) : Prop where
  effect : ∀ mem startTimestamp sampleTime sampleCount random answer, sampleCount ≠ 0 →
    sampleCount ≤ 256 → samplesSize h.secureSession.isSome sampleCount ≤ mem.length →
    ∃ success datagram p secureSession, h.pipeline.generateEffect mem startTimestamp sampleTime
        sampleCount random answer h.secureSession = .ok (success, some datagram, p, secureSession) ∧
      Hands h.pipeline.actionBuilder ⟨h.pipeline.device, UInt8.ofNat n.toNat⟩ actionFbEffect answer
        success datagram
  clear : ∀ stack answer,
    ∃ success datagram p, h.pipeline.stop stack answer = (success, some datagram, p) ∧
      Hands h.pipeline.actionBuilder ⟨h.pipeline.device, UInt8.ofNat n.toNat⟩ actionFbEffectClear
        answer success datagram

/-- **The handle is kept of what was granted**: it has the number in the latest response, effects and
stops go to that pipeline, in this state and in all calls before, and no other one is left behind. -/
structure Keeps (h : FfbHandle) : Prop where
  held : ∀ d ∈ h.configured, ∃ n, d.grantedId = some n ∧ 0 ≤ n ∧ n ≤ 255 ∧
    h.pipeline.pipelineId = n ∧ h.Serves n
  sent : ∀ x ∈ h.sent, ∀ d ∈ x.2, ∃ n, d.grantedId = some n ∧
    Addresses ⟨h.pipeline.device, UInt8.ofNat n.toNat⟩ x.1
  kept : ∀ n ∈ h.granted, h.destroyed = false ∧ 0 ≤ n ∧ n = h.pipeline.pipelineId

/-- A successful response grants a number below 128, and no other one is granted. -/
def GrantsSmall (h : FfbHandle) : Call → Prop
  | .configure _ (some d) => ∃ n ∈ d.grantedId, 0 ≤ n ∧ n < 128 ∧ ∀ m ∈ h.granted, m = n
  | _ => True

instance (h : FfbHandle) : ∀ call : Call, Decidable (h.GrantsSmall call)
  | .configure _ (some d) =>
      inferInstanceAs (Decidable (∃ n ∈ d.grantedId, 0 ≤ n ∧ n < 128 ∧ ∀ m ∈ h.granted, m = n))
  | .configure _ none | .generateEffect .. | .stop .. | .remove .. | .destroy _ =>
      inferInstanceAs (Decidable True)

/-- The session has a controller id, and its secure session an IV or none. -/
structure Registered (h : FfbHandle) : Prop where
  controllerId : h.pipeline.actionBuilder.controllerId ≠ none
  iv : ∀ s ∈ h.secureSession, s.iv = [] ∨ s.iv.length = Security.ivLen

section Step

variable {platform : Platform} {h t : FfbHandle} {call : Call} {p p' : FfbPipeline}

theorem wrap8_of_range {z : ℤ} (hlo : 0 ≤ z) (hhi : z < 128) : wrap8 z = z := by
  rw [wrap8]
  omega

theorem wrap8_range (z : ℤ) : -128 ≤ wrap8 z ∧ wrap8 z < 128 := by
  rw [wrap8]
  omega

/-- `configure` takes over the number in a response. -/
theorem configure_document (config : PipelineConfig) (d : ResponseDocument) (p : FfbPipeline) :
    ∃ m, p.configure config (some d.bytes)
        = .ok (true, { p with pipelineId := wrap8 m, config := some config }) ∧
      ∀ n, d.grantedId = some n → -2147483648 ≤ n → n < 2147483648 → m = n := by
  obtain ⟨m, hread, hm⟩ := readPipelineId_document d
  refine ⟨m, ?_, hm⟩
  rw [FfbPipeline.configure, hread]
  rfl

/-- The reference to a pipeline that the handle has. -/
theorem ref_of_held {n : ℤ} (hlo : 0 ≤ n) (hhi : n ≤ 255) (hid : p.pipelineId = n) :
    p.ref = some ⟨p.device, UInt8.ofNat n.toNat⟩ := by
  rw [FfbPipeline.ref, hid, if_neg (by omega), Int.emod_eq_of_lt hlo (by omega)]

/-- **A handle with a number serves its pipeline.** -/
theorem Registered.serves (hr : h.Registered) {n : ℤ} (hlo : 0 ≤ n) (hhi : n ≤ 255)
    (hid : h.pipeline.pipelineId = n) : h.Serves n where
  effect := by
    intro mem startTimestamp sampleTime sampleCount random answer hpos hle hmem
    obtain ⟨success, datagram, b, s, hcall, hhands, -, -⟩ :=
      generateEffect_hands (ref_of_held hlo hhi hid) hr.controllerId hr.iv hpos hle hmem
    exact ⟨success, datagram, _, s, hcall, hhands⟩
  clear := by
    intro stack answer
    obtain ⟨success, datagram, b, hcall, hhands, -⟩ :=
      stop_hands (ref_of_held hlo hhi hid) hr.controllerId stack answer
    exact ⟨success, datagram, _, hcall, hhands⟩

/-- A builder of the same session has its controller id. -/
theorem Registered.builder (hr : h.Registered) {b : ActionBuilder}
    (hb : b.session = h.pipeline.actionBuilder.session) : b.controllerId ≠ none := by
  rw [ActionBuilder.controllerId, hb]
  exact hr.controllerId

/-- What `remove` does: nothing without a pipeline, and otherwise it asks for its own to be freed. -/
theorem remove_eq (hgrow : platform.GrowsWithin 246) (cmdId : BitVec 32) (success : Bool)
    (p : FfbPipeline) :
    p.remove platform cmdId success = .ok (
      if p.pipelineId < 0 then (true, none, p)
      else (success, some (freePacket p.device cmdId p.pipelineId),
        if success then { p with pipelineId := -1 } else p)) := by
  rw [FfbPipeline.remove, freeRequest_eq hgrow]
  by_cases hnone : p.pipelineId < 0
  · rw [if_pos hnone, if_pos hnone]
    rfl
  · rw [if_neg hnone, if_neg hnone]
    cases success <;> rfl

/-- What the destructor asks for. -/
theorem destroy_eq (hgrow : platform.GrowsWithin 246) (cmdId : BitVec 32) (p : FfbPipeline) :
    p.destroy platform cmdId true = .ok (
      if p.pipelineId = -1 then none else some (freePacket p.device cmdId p.pipelineId)) := by
  rw [FfbPipeline.destroy, freeRequest_eq hgrow]
  by_cases hnone : p.pipelineId = -1
  · rw [if_neg (by simp [FfbPipeline.isActive, hnone]), if_pos hnone]
    rfl
  · rw [if_pos (by simp [FfbPipeline.isActive, hnone]), if_neg hnone]
    rfl

/-- **A call keeps the session.** -/
theorem step_registered (hgrow : platform.GrowsWithin 246) (hr : h.Registered)
    (hstep : h.step platform call = some t) : t.Registered := by
  unfold step at hstep
  rw [Option.ite_none_left_eq_some] at hstep
  obtain ⟨-, hstep⟩ := hstep
  cases call with
  | configure config response =>
      dsimp only at hstep
      cases response with
      | none =>
          obtain rfl := Option.some.inj hstep
          exact ⟨hr.controllerId, hr.iv⟩
      | some d =>
          obtain ⟨m, hconfigure, -⟩ := configure_document config d h.pipeline
          rw [Option.map_some, hconfigure] at hstep
          obtain rfl := Option.some.inj hstep
          exact ⟨hr.controllerId, hr.iv⟩
  | generateEffect mem startTimestamp sampleTime sampleCount random answer =>
      dsimp only at hstep
      split at hstep
      · rename_i success datagram pipeline secureSession hcall
        obtain rfl := Option.some.inj hstep
        obtain ⟨⟨b, rfl, hb⟩, hiv, -⟩ := generateEffect_frame hr.controllerId hr.iv hcall
        exact ⟨hr.builder hb, hiv⟩
      · cases hstep
  | stop stack answer =>
      obtain rfl := Option.some.inj hstep
      obtain ⟨⟨b, hp, hb⟩, -⟩ := @stop_frame h.pipeline _ answer _ stack _ hr.controllerId rfl
      refine ⟨?_, hr.iv⟩
      dsimp only
      rw [hp]
      exact hr.builder hb
  | remove cmdId success =>
      dsimp only at hstep
      rw [remove_eq hgrow] at hstep
      by_cases hnone : h.pipeline.pipelineId < 0
      · rw [if_pos hnone] at hstep
        obtain rfl := Option.some.inj hstep
        exact ⟨hr.controllerId, hr.iv⟩
      · rw [if_neg hnone] at hstep
        obtain rfl := Option.some.inj hstep
        cases success <;> exact ⟨hr.controllerId, hr.iv⟩
  | destroy cmdId =>
      dsimp only at hstep
      rw [destroy_eq hgrow] at hstep
      obtain rfl := Option.some.inj hstep
      exact ⟨hr.controllerId, hr.iv⟩

/-- Nothing is left when the backend is asked to free the pipeline of a handle that is kept. -/
theorem Keeps.freed_eq_nil (hk : h.Keeps) (cmdId : BitVec 32) :
    h.freed cmdId (some (freePacket h.pipeline.device cmdId h.pipeline.pipelineId)) = [] :=
  List.filter_eq_nil_iff.mpr fun n hn => by simp [(hk.kept n hn).2.2]

/-- What is handed to the socket is addressed to the pipeline of the latest response. -/
theorem Keeps.logged (hk : h.Keeps) {datagram : Option (List UInt8)}
    (haddress : ∀ bytes ∈ datagram, ∃ ref ∈ h.pipeline.ref, Addresses ref bytes) :
    ∀ x ∈ h.logged datagram, ∀ d ∈ x.2, ∃ n, d.grantedId = some n ∧
      Addresses ⟨h.pipeline.device, UInt8.ofNat n.toNat⟩ x.1 := by
  intro x hx d hd
  rcases List.mem_append.mp hx with hx | hx
  · exact hk.sent x hx d hd
  · obtain ⟨bytes, hbytes, rfl⟩ := Option.map_eq_some_iff.mp (Option.mem_toList.mp hx)
    obtain ⟨ref, href, haddress⟩ := haddress bytes hbytes
    obtain ⟨n, hn, hlo, hhi, hid, -⟩ := hk.held d hd
    obtain rfl := Option.some.inj (href.symm.trans (ref_of_held hlo hhi hid))
    exact ⟨n, hn, haddress⟩

/-- What does not touch the number keeps the handle. -/
theorem Keeps.of_frame (hk : h.Keeps) {b : ActionBuilder} {s : Option Security.SecureSession}
    {datagram : Option (List UInt8)}
    (haddress : ∀ bytes ∈ datagram, ∃ ref ∈ h.pipeline.ref, Addresses ref bytes)
    (hr : FfbHandle.Registered { h with
      pipeline := { h.pipeline with actionBuilder := b }
      secureSession := s
      sent := h.logged datagram }) :
    FfbHandle.Keeps { h with
      pipeline := { h.pipeline with actionBuilder := b }
      secureSession := s
      sent := h.logged datagram } where
  held := fun d hd => by
    obtain ⟨n, hn, hlo, hhi, hid, -⟩ := hk.held d hd
    exact ⟨n, hn, hlo, hhi, hid, hr.serves hlo hhi hid⟩
  sent := hk.logged haddress
  kept := hk.kept

/-- **A response keeps the handle** exactly when the number that it grants is below 128, and the only
one. -/
theorem Keeps.configured_iff (hk : h.Keeps) (hdestroyed : h.destroyed = false) {d : ResponseDocument}
    {config : Option PipelineConfig} {m : ℤ}
    (hm : ∀ n, d.grantedId = some n → -2147483648 ≤ n → n < 2147483648 → m = n)
    (hr : FfbHandle.Registered { h with
      pipeline := { h.pipeline with pipelineId := wrap8 m, config }
      configured := some d
      granted := d.grantedId.toList ++ h.granted }) :
    FfbHandle.Keeps { h with
        pipeline := { h.pipeline with pipelineId := wrap8 m, config }
        configured := some d
        granted := d.grantedId.toList ++ h.granted } ↔
      ∃ n ∈ d.grantedId, 0 ≤ n ∧ n < 128 ∧ ∀ n' ∈ h.granted, n' = n := by
  constructor
  · intro ht
    obtain ⟨n, hn, hlo, hhi, hid, -⟩ := ht.held d rfl
    have hsmall : n < 128 := by
      have hrange := wrap8_range m
      dsimp only at hid
      omega
    refine ⟨n, hn, hlo, hsmall, fun n' hn' => ?_⟩
    exact (ht.kept n' (List.mem_append_right _ hn')).2.2.trans hid
  · rintro ⟨n, hn, hlo, hhi, hone⟩
    have hid : wrap8 m = n := by
      rw [hm n hn (by omega) (by omega), wrap8_of_range hlo hhi]
    refine ⟨fun d' hd' => ?_, hk.sent, fun n' hn' => ?_⟩
    · obtain rfl : d = d' := Option.some.inj hd'
      exact ⟨n, hn, hlo, by omega, hid, hr.serves hlo (by omega) hid⟩
    · rcases List.mem_append.mp hn' with hnew | hold
      · rw [Option.mem_toList, hn] at hnew
        obtain rfl : n = n' := Option.some.inj hnew
        exact ⟨hdestroyed, hlo, hid.symm⟩
      · obtain rfl := hone n' hold
        exact ⟨hdestroyed, hlo, hid.symm⟩

/-- **A call keeps the handle** exactly when the number that it is granted is below 128, and the only
one. -/
theorem step_keeps_iff (hgrow : platform.GrowsWithin 246) (hr : h.Registered) (hk : h.Keeps)
    (hstep : h.step platform call = some t) : t.Keeps ↔ h.GrantsSmall call := by
  have hr' := step_registered hgrow hr hstep
  unfold step at hstep
  rw [Option.ite_none_left_eq_some, Bool.not_eq_true] at hstep
  obtain ⟨hdestroyed, hstep⟩ := hstep
  cases call with
  | configure config response =>
      dsimp only at hstep
      cases response with
      | none =>
          obtain rfl := Option.some.inj hstep
          exact iff_of_true ⟨hk.held, hk.sent, hk.kept⟩ trivial
      | some d =>
          obtain ⟨m, hconfigure, hm⟩ := configure_document config d h.pipeline
          rw [Option.map_some, hconfigure] at hstep
          obtain rfl := Option.some.inj hstep
          exact hk.configured_iff hdestroyed hm hr'
  | generateEffect mem startTimestamp sampleTime sampleCount random answer =>
      dsimp only at hstep
      split at hstep
      · rename_i success datagram pipeline secureSession hcall
        obtain rfl := Option.some.inj hstep
        obtain ⟨⟨b, rfl, -⟩, -, haddress⟩ := generateEffect_frame hr.controllerId hr.iv hcall
        exact iff_of_true (hk.of_frame haddress hr') trivial
      · cases hstep
  | stop stack answer =>
      dsimp only at hstep
      obtain ⟨success, datagram, pipeline, hcall⟩ : ∃ success datagram pipeline,
        h.pipeline.stop stack answer = (success, datagram, pipeline) := ⟨_, _, _, rfl⟩
      rw [hcall] at hstep
      obtain rfl := Option.some.inj hstep
      obtain ⟨⟨b, rfl, -⟩, haddress⟩ := stop_frame hr.controllerId hcall
      exact iff_of_true (hk.of_frame haddress hr') trivial
  | remove cmdId success =>
      dsimp only at hstep
      rw [remove_eq hgrow] at hstep
      by_cases hnone : h.pipeline.pipelineId < 0
      · rw [if_pos hnone] at hstep
        obtain rfl := Option.some.inj hstep
        refine iff_of_true ⟨by simp, hk.sent, fun n hn => ?_⟩ trivial
        -- nothing is granted
        have hgranted : n ∈ h.granted := by
          dsimp only at hn
          split_ifs at hn
          · exact List.mem_of_mem_filter hn
          · exact hn
        exact hk.kept n hgranted
      · rw [if_neg hnone] at hstep
        obtain rfl := Option.some.inj hstep
        cases success with
        | true =>
            refine iff_of_true ⟨by simp, hk.sent, fun n hn => ?_⟩ trivial
            dsimp only at hn
            rw [if_pos rfl, hk.freed_eq_nil] at hn
            cases hn
        | false => exact iff_of_true ⟨fun d hd => hk.held d hd, hk.sent, hk.kept⟩ trivial
  | destroy cmdId =>
      dsimp only at hstep
      rw [destroy_eq hgrow] at hstep
      obtain rfl := Option.some.inj hstep
      refine iff_of_true ⟨by simp, hk.sent, fun n hn => ?_⟩ trivial
      dsimp only at hn
      split_ifs at hn with hnone
      · obtain ⟨-, hlo, hid⟩ := hk.kept n (List.mem_of_mem_filter hn)
        omega
      · rw [hk.freed_eq_nil] at hn
        cases hn

end Step

section Run

variable {platform : Platform} {actionBuilder : ActionBuilder} {device : UInt16}
  {secureSession : Option Security.SecureSession} {calls : List Call} {h : FfbHandle}

theorem keeps_opened : (opened actionBuilder device secureSession).Keeps :=
  ⟨by simp [opened], by simp [opened], by simp [opened]⟩

/-- **In every run**, the handle is kept of what was granted in all states exactly when every successful
response grants a number below 128, and no other pipeline is granted at the time. -/
theorem keepsGranted_iff (hgrow : platform.GrowsWithin 246)
    (hregistered : (opened actionBuilder device secureSession).Registered)
    (hrun : exec (step platform) (opened actionBuilder device secureSession) calls = some h) :
    Everywhere (step platform) Keeps (opened actionBuilder device secureSession) calls ↔
      Runs.Meets (step platform) GrantsSmall (opened actionBuilder device secureSession) calls :=
  everywhere_iff_meets (step_registered hgrow) (step_keeps_iff hgrow) hregistered keeps_opened hrun

end Run

/-- A response with a number. -/
def response (n : BitVec 32) : ResponseDocument where
  entries := [(ascii "pipeline_id", .leaf (.i32 n))]
  clean := by
    rintro e (_ | ⟨_, ⟨⟩⟩)
    exact ⟨(by decide : 0 ∉ ascii "pipeline_id"), trivial⟩
  size := (by decide : 22 < 2147483648)

/-- A configuration with the defaults. -/
def forceConfig : PipelineConfig :=
  { offsetType := .forceN }

/-- A handle of a device without a secure session. -/
def fresh : FfbHandle :=
  opened { session := some 1 } 7 none

theorem registered_fresh : fresh.Registered :=
  ⟨by decide, by simp [fresh, opened]⟩

/-- The random bytes of an effect that is not encrypted. -/
def noIv : Security.RandomIv :=
  ⟨List.replicate 12 0, rfl⟩

/-- The pipeline that is granted is configured again, has an effect, is stopped, and removed. -/
def fiveCalls : List Call :=
  [.configure forceConfig (some (response 5)),
    .configure { offsetType := .torqueNm } (some (response 5)),
    .generateEffect [1, 2, 3, 4] 0 1 1 noIv .sent, .stop [] .sent, .remove 3 true]

theorem keepsGranted_five : Everywhere (step .tight) Keeps fresh fiveCalls := by
  have hsome : (exec (step .tight) fresh fiveCalls).isSome = true := by decide +kernel
  obtain ⟨h, hrun⟩ := Option.isSome_iff_exists.mp hsome
  exact (keepsGranted_iff (Platform.growsWithin_tight (by decide)) registered_fresh hrun).mpr
    (by decide +kernel)

/-- **The pipeline 200 is granted**: the handle takes the number for -56. Effects are refused, and the
removal succeeds without asking for anything. -/
theorem not_keepsGranted :
    ∃ h, exec (step .tight) fresh [.configure forceConfig (some (response 200))] = some h ∧
      h.configured = some (response 200) ∧ (response 200).grantedId = some 200 ∧
      h.pipeline.pipelineId = -56 ∧ h.pipeline.ref = none ∧ h.granted = [200] ∧
      h.pipeline.remove .tight 3 true = .ok (true, none, h.pipeline) ∧
      ¬ Everywhere (step .tight) Keeps fresh [.configure forceConfig (some (response 200))] := by
  have hgranted : (response 200).grantedId = some 200 := by decide +kernel
  obtain ⟨m, hconfigure, hm⟩ := configure_document forceConfig (response 200) fresh.pipeline
  obtain rfl : m = 200 := hm 200 hgranted (by decide) (by decide)
  obtain ⟨h, hh⟩ : ∃ h : FfbHandle, h = ⟨⟨{ session := some 1 }, 7, -56, some forceConfig⟩, none,
    some (response 200), [200], [], false⟩ := ⟨_, rfl⟩
  have hrun : exec (step .tight) fresh [.configure forceConfig (some (response 200))] = some h := by
    rw [exec_singleton]
    unfold step
    rw [if_neg (by decide)]
    dsimp only
    rw [Option.map_some, hconfigure, Option.bind_some, hgranted, hh]
    rfl
  refine ⟨h, hrun, by rw [hh], hgranted, by rw [hh], by rw [hh]; rfl, by rw [hh], by rw [hh]; rfl,
    fun hall => ?_⟩
  obtain ⟨n, -, hlo, -, hid, -⟩ := (hall _ [] h rfl hrun).held _ (by rw [hh]; rfl)
  rw [hh] at hid
  have hneg : (-56 : ℤ) = n := hid
  omega

end FfbHandle

end ScApi
