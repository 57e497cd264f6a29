import ScApi.Lib.BoundedRead
import ScApi.SecureSession
import ScApi.Telemetry

/-!
# Effect data

An action with the samples of an effect has two forms. The plaintext form is a header with the samples
behind it. The encrypted form has an IV in front and a tag behind, leaves the first part of the header
readable, and encrypts the rest of it with the samples, whose size is rounded up.

## Main results

* `encrypt_packet`: an encryption leaves what lies between its regions.
* `samples_inside_iff`: when the samples alone are read.
* `effect_forms_carry`: both forms carry the same data.
-/

open Bytes Buffer BoundedRead

namespace ScApi

open Security

/-- `SC_API_PROTOCOL_ACTION_FB_EFFECT`. -/
def actionFbEffect : UInt16 := 1

/-- `SC_API_PROTOCOL_ACTION_FLAG_ENCRYPTED`. -/
def actionFlagEncrypted : UInt16 := 1

/-- An `EffectPipelineRef`. -/
structure EffectPipelineRef where
  deviceLogicalId : UInt16
  pipelineId : UInt8
  deriving DecidableEq, Repr

/-- `sizeof(SC_API_PROTOCOL_ActionFbEffect_AAD_t)`. -/
def effectAadSize : ℕ := 16

/-- `sizeof(SC_API_PROTOCOL_ActionFbEffect_Enc_t)`. -/
def effectEncSize : ℕ := 16

/-- The offset of `data` in the header: `device` is followed by two bytes of alignment. -/
def effectDataOffset : ℕ := 20

/-- `sizeof(Header)`. -/
def effectHeaderSize : ℕ := 36

/-- The bytes of `aad`. -/
def effectAad (pipeline : EffectPipelineRef) : List UInt8 :=
  [pipeline.pipelineId, 0] ++ List.replicate 14 0

/-- The bytes of `device`, with those of its alignment. -/
def effectDevice (pipeline : EffectPipelineRef) : List UInt8 :=
  toLe 2 pipeline.deviceLogicalId.toNat ++ [0, 0]

/-- The bytes of `data`; its sample format is `SC_API_PROTOCOL_FB_SAMPLE_FORMAT_F32`. -/
def effectEnc (timestamp sampleTime : ℤ) (sampleCount : ℕ) : List UInt8 :=
  [0, UInt8.ofNat (sampleTime / 4294967296 % 256).toNat] ++ toLe 2 (sampleCount - 1)
    ++ toLe 4 (sampleTime % 4294967296).toNat
    ++ toLe 4 (timestamp % 4294967296).toNat
    ++ toLe 4 (timestamp / 4294967296 % 4294967296).toNat

/-- The bytes of the header. -/
def effectHeader (pipeline : EffectPipelineRef) (timestamp sampleTime : ℤ) (sampleCount : ℕ) :
    List UInt8 :=
  effectAad pipeline ++ effectDevice pipeline ++ effectEnc timestamp sampleTime sampleCount

/-- `samples_size`. -/
def samplesSize (encrypted : Bool) (sampleCount : ℕ) : ℕ :=
  let size := 4 * sampleCount
  if encrypted ∧ size % 16 > 0 then size + (16 - size % 16) else size

/-- The regions lie in the payload. -/
theorem effectRegions_le (samplesSize : ℕ) :
    0 + ivLen ≤ effectHeaderSize + samplesSize + ivLen + tagLen ∧
    ivLen + effectAadSize ≤ effectHeaderSize + samplesSize + ivLen + tagLen ∧
    ivLen + effectDataOffset + (effectEncSize + samplesSize)
      ≤ effectHeaderSize + samplesSize + ivLen + tagLen ∧
    ivLen + effectDataOffset + effectEncSize + samplesSize + tagLen
      ≤ effectHeaderSize + samplesSize + ivLen + tagLen := by
  rw [effectAadSize, effectEncSize, effectDataOffset, effectHeaderSize, ivLen, tagLen]
  omega

/-- The IV, the data and the tag lie one behind the other. -/
theorem effectRegions_apart (samplesSize : ℕ) :
    0 + ivLen ≤ ivLen + effectDataOffset ∧
    0 + ivLen ≤ ivLen + effectDataOffset + effectEncSize + samplesSize ∧
    ivLen + effectDataOffset + (effectEncSize + samplesSize)
      ≤ ivLen + effectDataOffset + effectEncSize + samplesSize := by
  omega

/-- The pointers into the payload that are encrypted with. -/
def effectRegions (samplesSize : ℕ) : Regions (effectHeaderSize + samplesSize + ivLen + tagLen) where
  iv := 0
  aad := ivLen
  aadLen := effectAadSize
  data := ivLen + effectDataOffset
  dataLen := effectEncSize + samplesSize
  tag := ivLen + effectDataOffset + effectEncSize + samplesSize
  iv_le := (effectRegions_le samplesSize).1
  aad_le := (effectRegions_le samplesSize).2.1
  data_le := (effectRegions_le samplesSize).2.2.1
  tag_le := (effectRegions_le samplesSize).2.2.2
  iv_data := .inl (effectRegions_apart samplesSize).1
  iv_tag := .inl (effectRegions_apart samplesSize).2.1
  data_tag := .inl (effectRegions_apart samplesSize).2.2

/-- `buildEffectOffsetDataAction`, for the secure session of the builder's session, with what it
leaves of both. What can be read from `samples` on is `mem`. -/
def buildEffectOffsetDataAction (mem : List UInt8) (pipeline : EffectPipelineRef)
    (timestamp sampleTime : ℤ) (sampleCount : ℕ) (random : RandomIv)
    (secureSession : Option Security.SecureSession) (b : ActionBuilder) :
    Read (Bool × ActionBuilder × Option Security.SecureSession) := do
  if sampleCount = 0 ∨ sampleCount > 256 then
    pure (false, b, secureSession)
  else if b.session = none then
    throw .nullPointer
  else
    let header := effectHeader pipeline timestamp sampleTime sampleCount
    let size := samplesSize secureSession.isSome sampleCount
    match secureSession with
    | some s =>
        match b.startBuilding actionFbEffect (effectHeaderSize + size + ivLen + tagLen)
          actionFlagEncrypted with
        | (none, b) => pure (false, b, some s)
        | (some _, b) =>
            let b := b.writePayload ivLen header
            let samples ← bytesAt mem 0 size
            let b := b.writePayload (ivLen + effectHeaderSize) samples
            let e := s.encrypt (effectRegions size) random b.payload
            pure (true, b.writePayload 0 e.packet, some e.session)
    | none =>
        match b.startBuilding actionFbEffect (effectHeaderSize + size) 0 with
        | (none, b) => pure (false, b, none)
        | (some _, b) =>
            let b := b.writePayload 0 header
            let samples ← bytesAt mem 0 size
            pure (true, b.writePayload effectHeaderSize samples, none)

/-! ### The regions of a payload -/

/-- A part of a payload. -/
structure PayloadRegion where
  offset : ℕ
  length : ℕ
  deriving DecidableEq, Repr

namespace PayloadRegion

/-- The bytes of the region. -/
def read (payload : List UInt8) (r : PayloadRegion) : List UInt8 :=
  (payload.drop r.offset).take r.length

/-- The region has the byte at an offset. -/
def Covers (r : PayloadRegion) (i : ℕ) : Prop :=
  r.offset ≤ i ∧ i < r.offset + r.length

instance (r : PayloadRegion) (i : ℕ) : Decidable (r.Covers i) :=
  inferInstanceAs (Decidable (_ ∧ _))

/-- Every byte of a payload is in one of the regions, and in one only. -/
def FillExactly (n : ℕ) (regions : List PayloadRegion) : Prop :=
  regions.Pairwise (fun r r' => ∀ i, r.Covers i → ¬ r'.Covers i) ∧
    ∀ i, i < n ↔ ∃ r ∈ regions, r.Covers i

end PayloadRegion

/-- The regions of IV, additional data, device, encrypted data and tag in an encrypted payload, when
the device has some number of bytes. -/
def effectLayout (deviceLen samplesSize : ℕ) : List PayloadRegion :=
  let r := effectRegions samplesSize
  [⟨r.iv, ivLen⟩, ⟨r.aad, r.aadLen⟩, ⟨r.aad + r.aadLen, deviceLen⟩, ⟨r.data, r.dataLen⟩,
    ⟨r.tag, tagLen⟩]

/-! ### Encrypting a part of a packet -/

namespace Security.SecureSession

variable {s : SecureSession} {random : RandomIv}

/-- **What an encryption leaves** between the IV, the encrypted data and the tag. -/
theorem encrypt_packet {size : ℕ} {r : Regions size} {front readable data tail : List UInt8}
    (hs : s.iv = [] ∨ s.iv.length = ivLen) (hfront : front.length = ivLen)
    (htail : tail.length = tagLen) (hiv : r.iv = 0) (haad : r.aad = ivLen)
    (haadLen : r.aadLen ≤ readable.length) (hdata : r.data = ivLen + readable.length)
    (hdataLen : r.dataLen = data.length) (htag : r.tag = r.data + data.length) :
    ∃ output tag,
      Gcm.cryptAndTag s.gcmCtx .encrypt (s.handleIV random).1 (readable.take r.aadLen) data tagLen
        = (output, tag) ∧
      output.length = data.length ∧ tag.length = tagLen ∧
      (s.encrypt r random (front ++ (readable ++ (data ++ tail)))).packet
        = (s.handleIV random).1 ++ (readable ++ (output ++ tag)) := by
  obtain ⟨iv, hivDef⟩ : ∃ iv, iv = (s.handleIV random).1 := ⟨_, rfl⟩
  obtain ⟨⟨output, tag⟩, hresult⟩ : ∃ result, Gcm.cryptAndTag s.gcmCtx .encrypt iv
    (readable.take r.aadLen) data tagLen = result := ⟨_, rfl⟩
  have hivLen : iv.length = ivLen := hivDef ▸ length_handleIV hs
  obtain ⟨houtput, htagLen⟩ := Gcm.length_cryptAndTag s.gcmCtx .encrypt iv (readable.take r.aadLen)
    data (show tagLen ≤ 16 by decide)
  rw [hresult] at houtput htagLen
  rw [← hivDef]
  refine ⟨output, tag, hresult, houtput, htagLen, ?_⟩
  -- the packet with the IV, and what is read from it
  have hcopied : overwrite (front ++ (readable ++ (data ++ tail))) r.iv iv
      = iv ++ (readable ++ (data ++ tail)) := by
    rw [hiv, overwrite_zero, hivLen, ← hfront, List.drop_left]
  have hreadIv : ((iv ++ (readable ++ (data ++ tail))).drop r.iv).take ivLen = iv := by
    rw [hiv, List.drop_zero, List.take_left' hivLen]
  have hreadAad : ((iv ++ (readable ++ (data ++ tail))).drop r.aad).take r.aadLen
      = readable.take r.aadLen := by
    rw [haad, List.drop_left' hivLen, List.take_append_of_le_length haadLen]
  have hpassed : (iv ++ readable).length = r.data := by rw [List.length_append, hivLen, hdata]
  have hreadData : ((iv ++ (readable ++ (data ++ tail))).drop r.data).take r.dataLen = data := by
    rw [← List.append_assoc, List.drop_left' hpassed, List.take_left' hdataLen.symm]
  have hkey : (s.handleIV random).2.gcmCtx = s.gcmCtx := by
    rw [handleIV]
    split_ifs <;> rfl
  have hpacket : (s.encrypt r random (front ++ (readable ++ (data ++ tail)))).packet
      = overwrite (overwrite (iv ++ (readable ++ (data ++ tail))) r.data output) r.tag tag := by
    rw [encrypt]
    dsimp only
    rw [← hivDef, hcopied, hreadIv, hreadAad, hreadData, hkey]
    have houtputEq : (Gcm.update (Gcm.start s.gcmCtx .encrypt iv (readable.take r.aadLen)) data).1
        = output := congrArg Prod.fst hresult
    have htagEq : Gcm.finish
        (Gcm.update (Gcm.start s.gcmCtx .encrypt iv (readable.take r.aadLen)) data).2 tagLen = tag :=
      congrArg Prod.snd hresult
    rw [houtputEq, htagEq]
  rw [hpacket, ← List.append_assoc, ← hpassed, overwrite_append_at, houtput, List.drop_left]
  have hbefore : ((iv ++ readable) ++ output).length = r.tag := by
    rw [List.length_append, hpassed, htag, houtput]
  rw [← List.append_assoc (iv ++ readable), ← hbefore, overwrite_append_at, htagLen, ← htail,
    List.drop_length, List.append_nil]
  simp only [List.append_assoc]

end Security.SecureSession

/-! ### The action that is built -/

namespace ActionBuilder

/-- A builder behind calls that have built one more action. -/
structure Started (b : ActionBuilder) (flags actionId : UInt16) (payload : List UInt8)
    (b' : ActionBuilder) : Prop where
  session : b'.session = b.session
  building : b'.Building payload.length
  built : b'.payload = payload
  /-- The action is alone if nothing was in the builder. -/
  shape : b.buffer = [] → ∀ controllerId ∈ b.controllerId,
    ActionRun.Shape b' [⟨controllerId, flags, actionId, payload⟩]

/-- A datagram ends with the payload of an action, and is this action if nothing else was in the
builder. -/
structure Sends (b : ActionBuilder) (flags actionId : UInt16) (payload datagram : List UInt8) :
    Prop where
  ends : payload <:+ datagram
  alone : b.buffer = [] → ∀ controllerId ∈ b.controllerId,
    datagram = (⟨controllerId, flags, actionId, payload⟩ : Action).encode

section

variable {b b' : ActionBuilder} {flags actionId : UInt16} {payload bytes : List UInt8} {n i : ℕ}

/-- The payload of an action that is alone in a builder. -/
theorem payload_of_shape {a : Action} (h : ActionRun.Shape b [a]) : b.payload = a.payload := by
  generalize hactions : [a] = actions at h
  cases h with
  | empty => cases hactions
  | @current done last size hsize hdone hlast hbuffer hstart =>
      have hlist : [] ++ [a] = done ++ [last] := hactions
      obtain ⟨rfl, hlast'⟩ := List.append_inj' hlist rfl
      obtain rfl : a = last := List.singleton_inj.mp hlast'
      rw [payload, hbuffer, hstart]
      exact List.drop_left' (a.length_head hsize)

/-- **`startBuilding`** starts an action with a payload of its size. -/
theorem started_startBuilding {start : ℕ}
    (h : b.startBuilding actionId n flags = (some start, b'))
    (hn : actionHeaderSize + n ≤ kMaxActionSize) :
    ∃ payload, payload.length = n ∧ b.Started flags actionId payload b' := by
  obtain ⟨hbuilding, -⟩ := building_startBuilding h
  have hlen := hbuilding.length_payload
  refine ⟨b'.payload, hlen, ?_, hlen.symm ▸ hbuilding, rfl, fun hempty controllerId hc => ?_⟩
  · rw [startBuilding] at h
    split at h
    · cases h
    · obtain rfl := (Prod.mk.inj h).2
      rfl
  · have hshape := @ActionRun.Shape.startBuilding b controllerId actionId flags n hempty hc (by
      rw [Action.Fits, Action.size, List.length_replicate]
      exact hn)
    rw [h] at hshape
    rwa [payload_of_shape hshape]

/-- **A write into the payload.** -/
theorem Started.writePayload (h : b.Started flags actionId payload b')
    (hi : i + bytes.length ≤ payload.length) :
    b.Started flags actionId (overwrite payload i bytes) (b'.writePayload i bytes) where
  session := h.session
  building := by
    rw [length_overwrite hi]
    exact h.building.writePayload hi
  built := by rw [h.building.payload_writePayload, h.built]
  shape := fun hempty controllerId hc =>
    (h.shape hempty controllerId hc).writePayload ⟨_, rfl, hi⟩

/-- The builder is not empty. -/
theorem Started.buffer_ne_nil (h : b.Started flags actionId payload b') : b'.buffer ≠ [] := by
  intro hnil
  have hlen := h.building
  rw [Building, hnil, List.length_nil, actionHeaderSize] at hlen
  omega

/-- **What is sent** is the action. -/
theorem Started.sends (h : b.Started flags actionId payload b') :
    b.Sends flags actionId payload b'.finalize.buffer where
  ends := by
    rw [← h.built, ← payload_finalize h.building]
    exact List.drop_suffix _ _
  alone := fun hempty controllerId hc => by
    rw [(h.shape hempty controllerId hc).finalize h.buffer_ne_nil]
    exact List.append_nil _

/-- **Sending** hands the datagram to the socket, whose answer is the result. -/
theorem Started.sendNonBlocking (h : b.Started flags actionId payload b') (hb : b.session ≠ none)
    (answer : SocketAnswer) :
    ∃ result b'', b'.sendNonBlocking answer = (result, some b'.finalize.buffer, b'') ∧
      (result = .complete ↔ answer = .sent) ∧ b''.session = b.session := by
  have hidle : b'.idle = false := by
    rw [idle, h.session]
    simp [hb, h.buffer_ne_nil]
  rw [ActionBuilder.sendNonBlocking, hidle, if_neg Bool.false_ne_true]
  cases answer with
  | sent => exact ⟨_, _, rfl, by decide, h.session⟩
  | wouldBlock => exact ⟨_, _, rfl, by decide, h.session⟩
  | error => exact ⟨_, _, rfl, by decide, h.session⟩

end

end ActionBuilder

/-! ### What is built -/

/-- The bytes of the samples. -/
def sampleBytes (samples : List UInt32) : List UInt8 :=
  samples.flatMap fun sample => toLe 4 sample.toNat

/-- The number of bytes that the size of the samples is rounded up by. -/
def paddingSize (sampleCount : ℕ) : ℕ :=
  samplesSize true sampleCount - 4 * sampleCount

@[simp] theorem length_sampleBytes (samples : List UInt32) :
    (sampleBytes samples).length = 4 * samples.length :=
  length_flatMap (fun _ => length_toLe _ _) samples

theorem length_effectAad (pipeline : EffectPipelineRef) :
    (effectAad pipeline).length = effectAadSize := rfl

theorem length_effectFront (pipeline : EffectPipelineRef) :
    (effectAad pipeline ++ effectDevice pipeline).length = effectDataOffset := by
  rw [List.length_append, effectDevice, List.length_append, length_toLe]
  rfl

theorem length_effectEnc (timestamp sampleTime : ℤ) (sampleCount : ℕ) :
    (effectEnc timestamp sampleTime sampleCount).length = effectEncSize := by
  simp only [effectEnc, List.length_append, length_toLe, List.length_cons, List.length_nil]
  rfl

theorem length_effectHeader (pipeline : EffectPipelineRef) (timestamp sampleTime : ℤ)
    (sampleCount : ℕ) :
    (effectHeader pipeline timestamp sampleTime sampleCount).length = effectHeaderSize := by
  rw [effectHeader, List.length_append, length_effectFront, length_effectEnc]
  rfl

/-- The size is a multiple of 16 that the samples fit into, and the smallest one. -/
theorem samplesSize_eq (sampleCount : ℕ) :
    samplesSize true sampleCount = 4 * sampleCount + paddingSize sampleCount ∧
      samplesSize true sampleCount % 16 = 0 ∧ paddingSize sampleCount < 16 := by
  simp only [paddingSize, samplesSize, true_and]
  split_ifs <;> omega

/-- Nothing is rounded up for a multiple of four samples, and for no other number of them. -/
theorem paddingSize_eq_zero_iff {sampleCount : ℕ} :
    paddingSize sampleCount = 0 ↔ sampleCount % 4 = 0 := by
  simp only [paddingSize, samplesSize, true_and]
  split_ifs <;> omega

/-- **The regions of an encrypted payload** fill it, when the device has the bytes of its
alignment. -/
theorem fillExactly_effectLayout (samplesSize : ℕ) :
    PayloadRegion.FillExactly (effectHeaderSize + samplesSize + ivLen + tagLen)
      (effectLayout 4 samplesSize) := by
  refine ⟨?_, fun i => ?_⟩
  · simp only [effectLayout, effectRegions, PayloadRegion.Covers, List.pairwise_cons,
      List.mem_cons, List.not_mem_nil, or_false, forall_eq_or_imp, forall_eq, List.Pairwise.nil,
      IsEmpty.forall_iff, implies_true, and_true, effectDataOffset, effectAadSize, effectEncSize,
      ivLen, tagLen]
    refine ⟨⟨?_, ?_, ?_, ?_⟩, ⟨?_, ?_, ?_⟩, ⟨?_, ?_⟩, ?_⟩ <;> · intros; omega
  · simp only [effectLayout, effectRegions, PayloadRegion.Covers, List.mem_cons, List.not_mem_nil,
      or_false, exists_eq_or_imp, exists_eq_left, effectHeaderSize, effectDataOffset, effectAadSize,
      effectEncSize, ivLen, tagLen]
    omega

section

variable {b : ActionBuilder} {controllerId : UInt16} {mem : List UInt8}
  {pipeline : EffectPipelineRef} {timestamp sampleTime : ℤ} {sampleCount : ℕ} {random : RandomIv}
  {s : Security.SecureSession}

theorem session_ne_none (hc : b.controllerId = some controllerId) : b.session ≠ none := by
  intro hnone
  rw [ActionBuilder.controllerId, hnone] at hc
  cases hc

/-- A builder with a controller id starts an action. -/
theorem startBuilding_of_controllerId (hc : b.controllerId = some controllerId)
    (actionId : UInt16) (n : ℕ) (flags : UInt16) :
    ∃ start b', b.startBuilding actionId n flags = (some start, b') := by
  rw [ActionBuilder.startBuilding, hc]
  exact ⟨_, _, rfl⟩

/-- A builder without one does not. -/
theorem startBuilding_of_none (hc : b.controllerId = none) (actionId : UInt16) (n : ℕ)
    (flags : UInt16) : b.startBuilding actionId n flags = (none, b) := by
  rw [ActionBuilder.startBuilding, hc]

/-- **The plaintext form**: the header and the samples. -/
theorem build_plaintext (hc : b.controllerId = some controllerId) (hpos : sampleCount ≠ 0)
    (hle : sampleCount ≤ 256) (hmem : 4 * sampleCount ≤ mem.length) :
    ∃ b', buildEffectOffsetDataAction mem pipeline timestamp sampleTime sampleCount random none b
        = .ok (true, b', none) ∧
      b.Started 0 actionFbEffect (effectHeader pipeline timestamp sampleTime sampleCount
        ++ mem.take (4 * sampleCount)) b' := by
  obtain ⟨header, hheader⟩ : ∃ header,
    header = effectHeader pipeline timestamp sampleTime sampleCount := ⟨_, rfl⟩
  have hheaderLen : header.length = effectHeaderSize := hheader ▸ length_effectHeader _ _ _ _
  obtain ⟨start, b₁, hstart⟩ := startBuilding_of_controllerId hc actionFbEffect
    (effectHeaderSize + 4 * sampleCount) 0
  obtain ⟨payload, hlen, hstarted⟩ := ActionBuilder.started_startBuilding hstart
    (by rw [actionHeaderSize, effectHeaderSize, kMaxActionSize]; omega)
  have hsize : samplesSize false sampleCount = 4 * sampleCount := rfl
  have hread : bytesAt mem 0 (4 * sampleCount) = .ok (mem.take (4 * sampleCount)) :=
    bytesAt_eq_ok_iff.mpr ⟨le_refl _, by omega, rfl⟩
  have hwrites : (b₁.writePayload 0 header).writePayload effectHeaderSize
      (mem.take (4 * sampleCount)) = b₁.writePayload 0 (header ++ mem.take (4 * sampleCount)) := by
    have h := hstarted.building.writePayload_append (Nat.zero_le _) header
      (mem.take (4 * sampleCount))
    rwa [Nat.zero_add, hheaderLen] at h
  have hwritten : (header ++ mem.take (4 * sampleCount)).length = payload.length := by
    rw [List.length_append, hheaderLen, List.length_take_of_le hmem, hlen]
  rw [← hheader]
  refine ⟨b₁.writePayload 0 (header ++ mem.take (4 * sampleCount)), ?_, ?_⟩
  · rw [buildEffectOffsetDataAction, if_neg (by omega), if_neg (session_ne_none hc)]
    dsimp only
    rw [Option.isSome_none, hsize, hstart]
    dsimp only
    rw [hread, ok_bind, ← hheader, hwrites, pure_eq_ok]
  · have h := hstarted.writePayload (show 0 + (header ++ mem.take (4 * sampleCount)).length
      ≤ payload.length by omega)
    rwa [overwrite_zero, List.drop_of_length_le hwritten.ge, List.append_nil] at h

/-- **The encrypted form**: behind the IV the readable part of the header, the encrypted rest with the
samples, and the tag. -/
theorem build_encrypted (hc : b.controllerId = some controllerId)
    (hs : s.iv = [] ∨ s.iv.length = ivLen) (hpos : sampleCount ≠ 0) (hle : sampleCount ≤ 256)
    (hmem : samplesSize true sampleCount ≤ mem.length) :
    ∃ b' s' iv output tag,
      buildEffectOffsetDataAction mem pipeline timestamp sampleTime sampleCount random (some s) b
        = .ok (true, b', some s') ∧
      Gcm.cryptAndTag s.gcmCtx .encrypt iv (effectAad pipeline)
        (effectEnc timestamp sampleTime sampleCount ++ mem.take (samplesSize true sampleCount))
        tagLen = (output, tag) ∧
      iv.length = ivLen ∧ output.length = effectEncSize + samplesSize true sampleCount ∧
      tag.length = tagLen ∧ s'.iv.length = ivLen ∧
      b.Started actionFlagEncrypted actionFbEffect
        (iv ++ ((effectAad pipeline ++ effectDevice pipeline) ++ (output ++ tag))) b' := by
  obtain ⟨size, hsize⟩ : ∃ size, size = samplesSize true sampleCount := ⟨_, rfl⟩
  obtain ⟨header, hheader⟩ : ∃ header,
    header = effectHeader pipeline timestamp sampleTime sampleCount := ⟨_, rfl⟩
  rw [← hsize] at hmem ⊢
  have hheaderLen : header.length = effectHeaderSize := hheader ▸ length_effectHeader _ _ _ _
  have htakeLen : (mem.take size).length = size := List.length_take_of_le hmem
  obtain ⟨start, b₁, hstart⟩ := startBuilding_of_controllerId hc actionFbEffect
    (effectHeaderSize + size + ivLen + tagLen) actionFlagEncrypted
  obtain ⟨payload, hlen, hstarted⟩ := ActionBuilder.started_startBuilding hstart (by
    obtain ⟨hsizeEq, -, hpadding⟩ := samplesSize_eq sampleCount
    rw [actionHeaderSize, effectHeaderSize, kMaxActionSize, ivLen, tagLen]
    omega)
  obtain ⟨hbuilding, hbuilt⟩ : b₁.Building (effectHeaderSize + size + ivLen + tagLen) ∧
      b₁.payload = payload := ⟨hlen ▸ hstarted.building, hstarted.built⟩
  have hread : bytesAt mem 0 size = .ok (mem.take size) :=
    bytesAt_eq_ok_iff.mpr ⟨le_refl _, by omega, rfl⟩
  -- the payload in front of the encryption
  have hwrites : (b₁.writePayload ivLen header).writePayload (ivLen + effectHeaderSize)
      (mem.take size) = b₁.writePayload ivLen (header ++ mem.take size) := by
    have h := hbuilding.writePayload_append (show ivLen ≤ effectHeaderSize + size + ivLen + tagLen by
      omega) header (mem.take size)
    rwa [hheaderLen] at h
  obtain ⟨b₂, hb₂⟩ : ∃ b₂, b₂ = b₁.writePayload ivLen (header ++ mem.take size) := ⟨_, rfl⟩
  have hwritten : (header ++ mem.take size).length = effectHeaderSize + size := by
    rw [List.length_append, hheaderLen, htakeLen]
  have hstarted₂ : b.Started actionFlagEncrypted actionFbEffect
      (overwrite payload ivLen (header ++ mem.take size)) b₂ :=
    hb₂ ▸ hstarted.writePayload (by omega)
  have hlen₂ : (overwrite payload ivLen (header ++ mem.take size)).length
      = effectHeaderSize + size + ivLen + tagLen := by
    rw [length_overwrite (by omega), hlen]
  obtain ⟨front, tail, hfront, htail, hpayload⟩ : ∃ front tail, front.length = ivLen ∧
      tail.length = tagLen ∧ b₂.payload = front ++ ((effectAad pipeline ++ effectDevice pipeline)
        ++ ((effectEnc timestamp sampleTime sampleCount ++ mem.take size) ++ tail)) := by
    refine ⟨b₁.payload.take ivLen, b₁.payload.drop (ivLen + (header ++ mem.take size).length), ?_, ?_,
      ?_⟩
    · rw [List.length_take_of_le]
      rw [hbuilding.length_payload]
      omega
    · rw [List.length_drop, hbuilding.length_payload, hwritten]
      omega
    · rw [hb₂, hbuilding.payload_writePayload, overwrite, hheader, effectHeader]
      simp only [List.append_assoc]
  obtain ⟨output, tag, hcrypt, houtput, htag, hpacket⟩ :=
    @SecureSession.encrypt_packet s random _ (effectRegions size) front
      (effectAad pipeline ++ effectDevice pipeline)
      (effectEnc timestamp sampleTime sampleCount ++ mem.take size) tail hs hfront htail rfl rfl
      (by rw [length_effectFront]; exact Nat.le_add_right 16 4) (by rw [length_effectFront]; rfl)
      (by rw [List.length_append, length_effectEnc, htakeLen]; rfl)
      (by rw [List.length_append, length_effectEnc, htakeLen]; exact Nat.add_assoc _ _ _)
  rw [← hpayload] at hpacket
  have hreadable : (effectAad pipeline ++ effectDevice pipeline).take (effectRegions size).aadLen
      = effectAad pipeline := List.take_left' rfl
  have hivLen := @SecureSession.length_handleIV s random hs
  have houtputLen : output.length = effectEncSize + size := by
    rw [houtput, List.length_append, length_effectEnc, htakeLen]
  rw [hreadable] at hcrypt
  have hpacketLen : (s.encrypt (effectRegions size) random b₂.payload).packet.length
      = effectHeaderSize + size + ivLen + tagLen := by
    rw [hpacket, List.length_append, ← List.append_assoc, List.length_append, List.length_append,
      length_effectFront, hivLen, houtputLen, htag]
    simp only [effectHeaderSize, effectDataOffset, effectEncSize]
    omega
  refine ⟨b₂.writePayload 0 (s.encrypt (effectRegions size) random b₂.payload).packet,
    (s.encrypt (effectRegions size) random b₂.payload).session, _, output, tag, ?_, hcrypt, hivLen,
    houtputLen, htag, ?_, ?_⟩
  · rw [buildEffectOffsetDataAction, if_neg (by omega), if_neg (session_ne_none hc)]
    dsimp only
    rw [Option.isSome_some, ← hsize, hstart]
    dsimp only
    rw [hread, ok_bind, ← hheader, hwrites, ← hb₂, pure_eq_ok]
  · obtain ⟨-, -, hsession⟩ := @SecureSession.encrypt_gcmIv s _ (effectRegions size) random b₂.payload
      (by rw [hstarted₂.built, hlen₂]) hs
    rw [hsession, hivLen]
  · have h := @ActionBuilder.Started.writePayload _ _ _ _ _
      (s.encrypt (effectRegions size) random b₂.payload).packet 0 hstarted₂ (by omega)
    rw [overwrite_zero, List.drop_of_length_le (by omega), List.append_nil] at h
    exact hpacket ▸ h

/-- What is built is read from as many bytes as the samples take, rounded up for an encryption. -/
theorem readable_of_build {secureSession : Option Security.SecureSession}
    {result : Bool × ActionBuilder × Option Security.SecureSession}
    (hc : b.controllerId = some controllerId) (hpos : sampleCount ≠ 0) (hle : sampleCount ≤ 256)
    (h : buildEffectOffsetDataAction mem pipeline timestamp sampleTime sampleCount random
      secureSession b = .ok result) : samplesSize secureSession.isSome sampleCount ≤ mem.length := by
  rw [buildEffectOffsetDataAction, if_neg (by omega), if_neg (session_ne_none hc)] at h
  cases secureSession with
  | none =>
      obtain ⟨start, b₁, hstart⟩ := startBuilding_of_controllerId hc actionFbEffect
        (effectHeaderSize + samplesSize false sampleCount) 0
      dsimp only at h
      rw [Option.isSome_none, hstart] at h
      dsimp only at h
      obtain ⟨copied, hcopied, -⟩ := bind_eq_ok.mp h
      obtain ⟨-, hinside, -⟩ := bytesAt_eq_ok_iff.mp hcopied
      rw [Option.isSome_none]
      omega
  | some s =>
      obtain ⟨start, b₁, hstart⟩ := startBuilding_of_controllerId hc actionFbEffect
        (effectHeaderSize + samplesSize true sampleCount + ivLen + tagLen) actionFlagEncrypted
      dsimp only at h
      rw [Option.isSome_some, hstart] at h
      dsimp only at h
      obtain ⟨copied, hcopied, -⟩ := bind_eq_ok.mp h
      obtain ⟨-, hinside, -⟩ := bytesAt_eq_ok_iff.mp hcopied
      rw [Option.isSome_some]
      omega

/-- **When the samples alone are read**: without encryption, or when their size is not rounded up. -/
theorem samples_inside_iff {secureSession : Option Security.SecureSession} {samples : List UInt32}
    (hc : b.controllerId = some controllerId)
    (hs : ∀ s ∈ secureSession, s.iv = [] ∨ s.iv.length = ivLen) (hpos : samples ≠ [])
    (hle : samples.length ≤ 256) :
    (∃ result, buildEffectOffsetDataAction (sampleBytes samples) pipeline timestamp sampleTime
        samples.length random secureSession b = .ok result) ↔
      secureSession = none ∨ samples.length % 4 = 0 := by
  have hlen : samples.length ≠ 0 := fun h => hpos (List.eq_nil_of_length_eq_zero h)
  cases secureSession with
  | none =>
      obtain ⟨b', hbuild, -⟩ := @build_plaintext b controllerId (sampleBytes samples) pipeline
        timestamp sampleTime samples.length random hc hlen hle (length_sampleBytes samples).ge
      exact iff_of_true ⟨_, hbuild⟩ (.inl rfl)
  | some s =>
      obtain ⟨hsize, -, -⟩ := samplesSize_eq samples.length
      have hnone : some s ≠ none := Option.some_ne_none s
      rw [or_iff_right hnone, ← paddingSize_eq_zero_iff]
      constructor
      · rintro ⟨result, h⟩
        have hinside := readable_of_build hc hlen hle h
        rw [length_sampleBytes, Option.isSome_some] at hinside
        omega
      · intro hzero
        obtain ⟨b', s', -, -, -, hbuild, -⟩ := @build_encrypted b controllerId (sampleBytes samples)
          pipeline timestamp sampleTime samples.length random s hc (hs s rfl) hlen hle
          (by rw [length_sampleBytes]; omega)
        exact ⟨_, hbuild⟩

end

/-! ### Both forms -/

/-- The sample duration is in the header, in two parts. -/
theorem sampleTime_effectEnc {sampleTime : ℤ} (h0 : 0 ≤ sampleTime) (h : sampleTime < 2 ^ 40)
    (timestamp : ℤ) (sampleCount : ℕ) :
    (ofLe (((effectEnc timestamp sampleTime sampleCount).drop 4).take 4) : ℤ)
        + 4294967296 * ofLe (((effectEnc timestamp sampleTime sampleCount).drop 1).take 1)
      = sampleTime := by
  obtain ⟨low, hlow⟩ : ∃ low, low = (sampleTime % 4294967296).toNat := ⟨_, rfl⟩
  obtain ⟨high, hhigh⟩ : ∃ high, high = (sampleTime / 4294967296 % 256).toNat := ⟨_, rfl⟩
  have hlowLt : low < 256 ^ 4 := by omega
  have hreadLow : ((effectEnc timestamp sampleTime sampleCount).drop 4).take 4 = toLe 4 low := by
    rw [effectEnc, ← hlow]
    rfl
  have hreadHigh : ((effectEnc timestamp sampleTime sampleCount).drop 1).take 1
      = [UInt8.ofNat high] := by
    rw [effectEnc, ← hhigh]
    rfl
  have hbyte : (UInt8.ofNat high).toNat = high := by
    rw [UInt8.toNat_ofNat']
    omega
  rw [hreadLow, hreadHigh, ofLe_toLe_of_lt hlowLt, ofLe_cons, ofLe_nil, hbyte]
  omega

/-- An encrypted payload opens, for a receiver with the key, to a plaintext one with some padding
behind it. -/
def OpensTo (key : Gcm.Key) (samplesSize : ℕ) (encrypted plaintext padding : List UInt8) : Prop :=
  let r := effectRegions samplesSize
  PayloadRegion.read encrypted ⟨r.aad, effectDataOffset⟩ = plaintext.take effectDataOffset ∧
    Gcm.authDecrypt { key } (PayloadRegion.read encrypted ⟨r.iv, ivLen⟩)
        (PayloadRegion.read encrypted ⟨r.aad, r.aadLen⟩)
        (PayloadRegion.read encrypted ⟨r.data, r.dataLen⟩)
        (PayloadRegion.read encrypted ⟨r.tag, tagLen⟩)
      = some (plaintext.drop effectDataOffset ++ padding)

/-- Both forms of an effect, built by the same builder. The encrypted one is built from the samples
with some bytes behind them. -/
def FormsCarry (samples : List UInt32) (behind : List UInt8) (pipeline : EffectPipelineRef)
    (timestamp sampleTime : ℤ) (random : RandomIv) (s : Security.SecureSession) (b : ActionBuilder) :
    Prop :=
  ∃ plaintext encrypted s' padding,
    buildEffectOffsetDataAction (sampleBytes samples) pipeline timestamp sampleTime samples.length
      random none b = .ok (true, plaintext, none) ∧
    buildEffectOffsetDataAction (sampleBytes samples ++ behind) pipeline timestamp sampleTime
      samples.length random (some s) b = .ok (true, encrypted, some s') ∧
    plaintext.payload
      = effectHeader pipeline timestamp sampleTime samples.length ++ sampleBytes samples ∧
    padding.length = paddingSize samples.length ∧
    (sampleBytes samples ++ padding).length % 16 = 0 ∧
    OpensTo s.gcmCtx.key (samplesSize true samples.length) encrypted.payload plaintext.payload
      padding ∧
    PayloadRegion.FillExactly encrypted.payload.length
      (effectLayout 4 (samplesSize true samples.length))

/-- **Both forms of an effect carry the same data.** When the size of the samples is not rounded up,
nothing is read behind them. -/
theorem effect_forms_carry {b : ActionBuilder} (hb : b.session ≠ none) {s : Security.SecureSession}
    (hs : s.iv = [] ∨ s.iv.length = ivLen) (random : RandomIv) (pipeline : EffectPipelineRef)
    (timestamp : ℤ) {sampleTime : ℤ} (h0 : 0 ≤ sampleTime) (h : sampleTime < 2 ^ 40)
    {samples : List UInt32} (hpos : samples ≠ []) (hle : samples.length ≤ 256)
    {behind : List UInt8} (hbehind : paddingSize samples.length ≤ behind.length) :
    (b.controllerId = none → ∀ secureSession, buildEffectOffsetDataAction (sampleBytes samples)
        pipeline timestamp sampleTime samples.length random secureSession b
          = .ok (false, b, secureSession)) ∧
      (b.controllerId ≠ none → FormsCarry samples behind pipeline timestamp sampleTime random s b ∧
        (ofLe (((effectEnc timestamp sampleTime samples.length).drop 4).take 4) : ℤ)
            + 4294967296 * ofLe (((effectEnc timestamp sampleTime samples.length).drop 1).take 1)
          = sampleTime) := by
  have hlen : samples.length ≠ 0 := fun h => hpos (List.eq_nil_of_length_eq_zero h)
  refine ⟨fun hc secureSession => ?_, fun hc => ⟨?_, sampleTime_effectEnc h0 h _ _⟩⟩
  · rw [buildEffectOffsetDataAction, if_neg (by omega), if_neg hb]
    cases secureSession with
    | none =>
        dsimp only
        rw [startBuilding_of_none hc]
        rfl
    | some s =>
        dsimp only
        rw [startBuilding_of_none hc]
        rfl
  · obtain ⟨controllerId, hc⟩ := Option.ne_none_iff_exists'.mp hc
    obtain ⟨hsize, hmod, -⟩ := samplesSize_eq samples.length
    obtain ⟨size, hsizeDef⟩ : ∃ size, size = samplesSize true samples.length := ⟨_, rfl⟩
    have hmemLen : (sampleBytes samples ++ behind).length = 4 * samples.length + behind.length := by
      rw [List.length_append, length_sampleBytes]
    have htake : (sampleBytes samples ++ behind).take size
        = sampleBytes samples ++ behind.take (paddingSize samples.length) := by
      rw [hsizeDef, hsize, ← length_sampleBytes, List.take_length_add_append]
    obtain ⟨plaintext, hplain, hplainStarted⟩ := @build_plaintext b controllerId
      (sampleBytes samples) pipeline timestamp sampleTime samples.length random hc hlen hle
      (length_sampleBytes samples).ge
    have hplainPayload := hplainStarted.built
    obtain ⟨encrypted, s', iv, output, tag, hbuild, hcrypt, hivLen, houtput, htag, -,
      hstarted⟩ := @build_encrypted b controllerId (sampleBytes samples ++ behind) pipeline timestamp sampleTime
        samples.length random s hc hs hlen hle (by rw [hmemLen]; omega)
    rw [List.take_of_length_le (length_sampleBytes samples).le] at hplainPayload
    rw [← hsizeDef] at hcrypt houtput
    rw [htake] at hcrypt
    obtain ⟨front, hfrontDef⟩ : ∃ front, front = effectAad pipeline ++ effectDevice pipeline :=
      ⟨_, rfl⟩
    have hfront : front.length = effectDataOffset := hfrontDef ▸ length_effectFront pipeline
    have hpayload := hstarted.built
    rw [← hfrontDef] at hpayload
    rw [effectHeader, ← hfrontDef, List.append_assoc] at hplainPayload
    have hpaddingLen : (behind.take (paddingSize samples.length)).length
        = paddingSize samples.length := List.length_take_of_le hbehind
    refine ⟨plaintext, encrypted, s', behind.take (paddingSize samples.length), hplain, hbuild,
      ?_, hpaddingLen, ?_, ⟨?_, ?_⟩, ?_⟩
    · rw [hplainPayload, effectHeader, ← hfrontDef, List.append_assoc]
    · rw [List.length_append, length_sampleBytes, hpaddingLen, ← hsize]
      exact hmod
    · rw [PayloadRegion.read, hpayload, hplainPayload]
      dsimp only [effectRegions]
      rw [List.drop_left' hivLen, List.take_left' hfront, List.take_left' hfront]
    · have hpassed : (iv ++ front).length = (effectRegions size).data := by
        rw [List.length_append, hivLen, hfront]
        rfl
      have hreadIv : PayloadRegion.read encrypted.payload ⟨(effectRegions size).iv, ivLen⟩ = iv := by
        rw [PayloadRegion.read, hpayload]
        exact List.take_left' hivLen
      have hreadAad : PayloadRegion.read encrypted.payload
          ⟨(effectRegions size).aad, (effectRegions size).aadLen⟩ = effectAad pipeline := by
        rw [PayloadRegion.read, hpayload]
        dsimp only [effectRegions]
        rw [List.drop_left' hivLen, hfrontDef, List.append_assoc]
        exact List.take_left' (length_effectAad pipeline)
      have hreadData : PayloadRegion.read encrypted.payload
          ⟨(effectRegions size).data, (effectRegions size).dataLen⟩ = output := by
        rw [PayloadRegion.read, hpayload, ← List.append_assoc]
        dsimp only
        rw [List.drop_left' hpassed]
        exact List.take_left' houtput
      have hreadTag : PayloadRegion.read encrypted.payload
          ⟨(effectRegions size).tag, tagLen⟩ = tag := by
        have hbefore : ((iv ++ front) ++ output).length = (effectRegions size).tag := by
          rw [List.length_append, hpassed, houtput]
          exact (Nat.add_assoc _ _ _).symm
        rw [PayloadRegion.read, hpayload, ← List.append_assoc, ← List.append_assoc]
        dsimp only
        rw [List.drop_left' hbefore, List.take_of_length_le htag.le]
      rw [← hsizeDef, hreadIv, hreadAad, hreadData, hreadTag,
        @Gcm.authDecrypt_congr { key := s.gcmCtx.key } s.gcmCtx rfl]
      have hdecrypt := Gcm.authDecrypt_cryptAndTag s.gcmCtx iv (effectAad pipeline)
        (effectEnc timestamp sampleTime samples.length ++ (sampleBytes samples
          ++ behind.take (paddingSize samples.length))) (show tagLen ≤ 16 by decide)
      rw [hcrypt] at hdecrypt
      rw [hdecrypt, hplainPayload, List.drop_left' hfront, List.append_assoc]
    · have hall : encrypted.payload.length = effectHeaderSize + size + ivLen + tagLen := by
        rw [hpayload, List.length_append, List.length_append, List.length_append, hivLen, hfront,
          houtput, htag, effectDataOffset, effectEncSize, effectHeaderSize]
        omega
      rw [hall, ← hsizeDef]
      exact fillExactly_effectLayout size

/-- A session with a key that leaves blocks as they are. -/
def plainSession : Security.SecureSession where
  gcmCtx := { key := SecureSession.plainKey }

/-- A builder with a controller id. -/
def registeredBuilder : ActionBuilder where
  session := some 1

theorem effect_forms_carry_one :
    FormsCarry [0] (List.replicate 12 0) ⟨1, 2⟩ 0 4294967297 SecureSession.zeroCall.random
      plainSession registeredBuilder :=
  ((@effect_forms_carry registeredBuilder (by decide) plainSession (.inl rfl)
    SecureSession.zeroCall.random ⟨1, 2⟩ 0 4294967297 (by decide) (by decide) [0] (by decide)
    (by decide) (List.replicate 12 0) (by decide)).2 (by decide)).1

/-- Four samples fill the payload but for the two bytes of alignment. -/
theorem not_effect_forms_carry :
    ∃ encrypted s', buildEffectOffsetDataAction (sampleBytes [0, 0, 0, 0]) ⟨1, 2⟩ 0 4294967297 4
        SecureSession.zeroCall.random (some plainSession) registeredBuilder
          = .ok (true, encrypted, some s') ∧
      ¬ PayloadRegion.FillExactly encrypted.payload.length (effectLayout 2 (samplesSize true 4)) := by
  have hc : registeredBuilder.controllerId = some 1 := by decide
  obtain ⟨encrypted, s', iv, output, tag, hbuild, -, hivLen, houtput, htag, -, hstarted⟩ :=
    @build_encrypted registeredBuilder 1 (sampleBytes [0, 0, 0, 0]) ⟨1, 2⟩ 0 4294967297 4
      SecureSession.zeroCall.random plainSession hc (.inl rfl) (by decide) (by decide) (by decide)
  refine ⟨encrypted, s', hbuild, fun hfill => ?_⟩
  have hnone : ¬ ∃ r ∈ effectLayout 2 (samplesSize true 4), r.Covers 30 := by decide
  refine hnone ((hfill.2 30).mp ?_)
  rw [hstarted.built, List.length_append, List.length_append, length_effectFront, List.length_append,
    hivLen, houtput, htag]
  decide

end ScApi
