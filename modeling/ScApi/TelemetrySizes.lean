import ScApi.TelemetryDecode

/-!
# The sizes of a telemetry group

`configure` computes the size of a packet in 32 bits and keeps it in 16: in the payload of the
registration, and with the four bytes in front of the values in `set_payload_size_`, which `send`
reserves. The headers of the two actions have 16 bits for their sizes, too. The loops of `send` follow
the counters of the handles, which do not wrap.

## Main results

* `Registered.expectedSize_eq_packetSize`: the counters give the size as an integer.
* `sizesTrue_iff`: when no size wraps and `send` writes inside the payload that it reserved.
-/

open Bytes Buffer Sorting

namespace ScApi

namespace ActionBuilder

variable {b : ActionBuilder} {n : ℕ}

/-- The size in the header of the action built last, when the buffer is sent. -/
def sentSize (b : ActionBuilder) : ℕ :=
  ofLe ((b.finalize.buffer.drop (b.curStartIdx + sizeOffset)).take 2)

theorem Building.sentSize_eq (h : b.Building n) :
    b.sentSize = ofLe (toLe 2 (actionHeaderSize + n)) := by
  have hlength : b.buffer.length - b.curStartIdx = actionHeaderSize + n := by
    rw [h]
    omega
  have hle : b.curStartIdx + sizeOffset ≤ b.buffer.length := by
    rw [h, sizeOffset, actionHeaderSize]
    omega
  rw [sentSize, finalize]
  dsimp only
  rw [hlength, read_overwrite_self hle (length_toLe _ _)]

end ActionBuilder

namespace TelemetryUpdateGroup

open ActionBuilder

variable {ι : Type*} {handle : ι → TelemetryInfo} {definitions : TelemetryDefinitions}

/-- The size of a packet of some handles, as an integer. -/
def packetSize (handle : ι → TelemetryInfo) (bufs : List ι) : ℕ :=
  let count := fun k => bufs.countP (sizeIndex handle · = k)
  (count 0 + 63 + 32) / 64 * 8 + count 1 * 8 + count 2 * 4 + count 3 * 2 + count 4

/-- The ids that some handles resolve to. -/
def resolvedIds (handle : ι → TelemetryInfo) (definitions : TelemetryDefinitions)
    (telemetries : List ι) : List UInt16 :=
  ((telemetries.map (refId handle definitions)).filter (· ≠ 0)).dedup

/-- The size of a packet of the telemetries with some ids, as an integer. -/
def idsSize (definitions : TelemetryDefinitions) (ids : List UInt16) : ℕ :=
  let count := fun k => ids.countP (idSizeIndex definitions · = k)
  (count 0 + 63 + 32) / 64 * 8 + count 1 * 8 + count 2 * 4 + count 3 * 2 + count 4

/-- The ids that are registered are those that the handles resolve to. -/
theorem perm_resolvedIds (std : StdSort ι) (hids : definitions.UniqueIds) (telemetries : List ι) :
    ((registeredHandles handle definitions std telemetries).map (refId handle definitions)).Perm
      (resolvedIds handle definitions telemetries) := by
  have hregistered : Registered handle definitions telemetries
    (registeredHandles handle definitions std telemetries) := registered_filter std hids telemetries
  refine (List.perm_ext_iff_of_nodup hregistered.nodup (List.nodup_dedup _)).mpr fun id => ?_
  rw [mem_ids_iff hids, List.mem_dedup, List.mem_filter, List.mem_map, decide_eq_true_iff]
  constructor
  · rintro ⟨t, ht, hresolves⟩
    obtain ⟨hid, hne⟩ := (resolvesTo_iff hids).mp hresolves
    exact ⟨⟨t, ht, hid⟩, hne⟩
  · rintro ⟨⟨t, ht, hid⟩, hne⟩
    exact ⟨t, ht, (resolvesTo_iff hids).mpr ⟨hid, hne⟩⟩

/-- The size of a packet is that of the ids of its handles. -/
theorem Registered.packetSize_eq {telemetries bufs : List ι} {ids : List UInt16}
    (hids : definitions.UniqueIds) (h : Registered handle definitions telemetries bufs)
    (hperm : (bufs.map (refId handle definitions)).Perm ids) :
    packetSize handle bufs = idsSize definitions ids := by
  have hcount : ∀ k : ℤ, bufs.countP (sizeIndex handle · = k)
      = ids.countP (idSizeIndex definitions · = k) := by
    intro k
    rw [← hperm.countP_eq, List.countP_map]
    refine List.countP_congr fun t ht => ?_
    rw [Function.comp_apply, idSizeIndex_refId hids (h.resolved t ht)]
  simp only [packetSize, idsSize, hcount]

/-- The counters give the size as an integer. -/
theorem Registered.expectedSize_eq_packetSize {telemetries bufs : List ι}
    (h : Registered handle definitions telemetries bufs) :
    expectedSize (entriesBySize handle bufs) = packetSize handle bufs := by
  rw [expectedSize, packetSize]
  simp only [h.toNat_entriesBySize, ofIndex, List.countP_eq_length_filter]

/-- **No size wraps**: what `configure` keeps and writes are the sizes as integers, the headers of the
two actions tell theirs, and the writes of `send` into any builder end inside the payload that is
reserved and do not change the length of the buffer, as a write behind its end would. -/
structure SizesTrue (handle : ι → TelemetryInfo) (g : TelemetryUpdateGroup ι)
    (datagram : List UInt8) : Prop where
  setPayloadSize : g.setPayloadSize.toNat = packetSize handle g.baseValueBufs + 4
  count : ofLe (((datagram.drop actionHeaderSize).drop 2).take 2) = g.baseValueBufs.length
  packet : announcedSize (datagram.drop actionHeaderSize) = packetSize handle g.baseValueBufs
  registered : ofLe ((datagram.drop sizeOffset).take 2)
    = actionHeaderSize + (6 + 2 * g.baseValueBufs.length)
  sent : ∀ values builder b position,
    { g with actionBuilder := builder }.fill handle values = some (b, position) →
      b.sentSize = actionHeaderSize + (packetSize handle g.baseValueBufs + 4)
  inside : ∀ values builder b position,
    { g with actionBuilder := builder }.fill handle values = some (b, position) →
      b.Building g.setPayloadSize.toNat ∧ position ≤ g.setPayloadSize.toNat

section Sizes

variable {std : StdSort ι} {answer : SocketAnswer} {later : Bool} {g g' : TelemetryUpdateGroup ι}
  {datagram : List UInt8}

theorem lt_of_field {bytes : List UInt8} {n : ℕ} (hlength : bytes.length = 2) (h : ofLe bytes = n) :
    n < 65536 := by
  have hlt := ofLe_lt bytes
  rw [hlength] at hlt
  omega

/-- **What a successful `configure` keeps and sends.** -/
theorem configure_sizes (hids : definitions.UniqueIds)
    (h : configure handle definitions std answer later g = (true, some datagram, g')) :
    Registered handle definitions g.telemetries g'.baseValueBufs ∧
      g'.baseValueEntriesBySize = entriesBySize handle g'.baseValueBufs ∧
      g'.setPayloadSize = UInt16.ofNat (packetSize handle g'.baseValueBufs + 4) ∧
      ∃ controllerId, controllerId ≠ 0 ∧ datagram = Action.encode ⟨controllerId, 0,
        actionRegisterTelemetryGroup, registration g.groupId
          (g'.baseValueBufs.map (refId handle definitions)) (packetSize handle g'.baseValueBufs)⟩ := by
  obtain ⟨hregistered, hentries, hset, controllerId, hc, hdatagram⟩ := configure_cases hids h
  rw [hentries, hregistered.expectedSize_eq_packetSize] at hset hdatagram
  exact ⟨hregistered, hentries, hset, controllerId, hc, hdatagram⟩

theorem size_encode (a : Action) : (a.encode.drop sizeOffset).take 2 = toLe 2 a.size := by
  obtain ⟨front, hfront, hbytes, -⟩ := a.bytesWith_eq (toLe 2 a.size)
  rw [Action.encode, hbytes, ← hfront, List.append_assoc, List.drop_left,
    List.take_left' (length_toLe _ _)]

/-- **What `send` reserves and fills**, in any builder, when the size of the payload does not wrap. -/
theorem building_fill (hids : definitions.UniqueIds)
    (h : configure handle definitions std answer later g = (true, some datagram, g'))
    (hsize : packetSize handle g'.baseValueBufs + 4 < 65536)
    {values : ∀ t, (handle t).scalar.Value} {builder b : ActionBuilder} {position : ℕ}
    (hfill : { g' with actionBuilder := builder }.fill handle values = some (b, position)) :
    b.Building (packetSize handle g'.baseValueBufs + 4) ∧
      position = packetSize handle g'.baseValueBufs := by
  obtain ⟨hregistered, hentries, hset, -⟩ := configure_sizes hids h
  have hexpected := hregistered.expectedSize_eq_packetSize
  rw [← hentries] at hexpected
  rw [← hexpected] at hset hsize ⊢
  obtain ⟨hbuilding, hposition, -⟩ := hregistered.fill_cases hentries hset hsize hfill
  exact ⟨hbuilding, hposition⟩

/-- What `configure` keeps is what the handles resolve to. -/
theorem configure_resolved (hids : definitions.UniqueIds)
    (h : configure handle definitions std answer later g = (true, some datagram, g')) :
    g'.baseValueBufs.length = (resolvedIds handle definitions g.telemetries).length ∧
      packetSize handle g'.baseValueBufs
        = idsSize definitions (resolvedIds handle definitions g.telemetries) := by
  have hregistered := (configure_cases hids h).1
  obtain ⟨controllerId, hsession, hc, hne⟩ := exists_session h
  rw [configure_registered hsession hc hne] at h
  have hbufs : g'.baseValueBufs = registeredHandles handle definitions std g.telemetries := by
    obtain ⟨-, h⟩ := Prod.mk.inj h
    obtain ⟨-, rfl⟩ := Prod.mk.inj h
    rfl
  have hperm := @perm_resolvedIds _ handle definitions std hids g.telemetries
  rw [← hbufs] at hperm
  refine ⟨?_, hregistered.packetSize_eq hids hperm⟩
  rw [← hperm.length_eq, List.length_map]

/-- **When no size wraps**, by the ids that the handles of the group resolve to. -/
theorem sizesTrue_iff (hids : definitions.UniqueIds)
    (h : configure handle definitions std answer later g = (true, some datagram, g')) :
    SizesTrue handle g' datagram ↔
      actionHeaderSize + (6 + 2 * (resolvedIds handle definitions g.telemetries).length) < 65536 ∧
        actionHeaderSize + (idsSize definitions (resolvedIds handle definitions g.telemetries) + 4)
          < 65536 := by
  obtain ⟨hcount, hsize⟩ := configure_resolved hids h
  rw [← hcount, ← hsize]
  obtain ⟨hregistered, -, hset, controllerId, hc, hdatagram⟩ := configure_sizes hids h
  have hheader : (datagram.drop sizeOffset).take 2
      = toLe 2 (actionHeaderSize + (6 + 2 * g'.baseValueBufs.length)) := by
    rw [hdatagram, size_encode, Action.size, length_registration, List.length_map]
  constructor
  · intro htrue
    have hregisteredSize := htrue.registered
    rw [hheader] at hregisteredSize
    have hsize : packetSize handle g'.baseValueBufs + 4 < 65536 := by
      rw [← htrue.setPayloadSize]
      exact g'.setPayloadSize.toNat_lt
    refine ⟨lt_of_field (length_toLe _ _) hregisteredSize, ?_⟩
    -- a packet with any values tells its size
    obtain ⟨p, hfill⟩ : ∃ p, { g' with actionBuilder := { session := some controllerId } }.fill
        handle (fun t => (handle t).scalar.ofBytes []) = some p := by
      have hcontroller : ActionBuilder.controllerId { session := some controllerId }
          = some controllerId := by
        rw [ActionBuilder.controllerId]
        simp [hc]
      rw [fill, startBuilding]
      dsimp only
      rw [hcontroller]
      exact ⟨_, rfl⟩
    have hsent := htrue.sent _ _ p.1 p.2 hfill
    rw [(building_fill hids h hsize hfill).1.sentSize_eq] at hsent
    exact lt_of_field (length_toLe _ _) hsent
  · rintro ⟨hregisteredSize, hsentSize⟩
    have hcount := hregistered.length_le
    have hlt : packetSize handle g'.baseValueBufs + 4 < 65536 := by omega
    have hpayload : g'.setPayloadSize.toNat = packetSize handle g'.baseValueBufs + 4 := by
      rw [hset, UInt16.toNat_ofNat', Nat.mod_eq_of_lt hlt]
    refine ⟨hpayload, ?_, ?_, ?_, ?_, ?_⟩
    · rw [hdatagram, drop_encode, count_registration (by rw [List.length_map]; omega),
        List.length_map]
    · rw [hdatagram, drop_encode, announcedSize_registration,
        ofLe_toLe_of_lt (lt_of_lt_of_le (by omega : _ < 65536) (by decide))]
    · rw [hheader, ofLe_toLe_of_lt (lt_of_lt_of_le hregisteredSize (by decide))]
    · intro values builder b position hfill
      rw [(building_fill hids h hlt hfill).1.sentSize_eq,
        ofLe_toLe_of_lt (lt_of_lt_of_le hsentSize (by decide))]
    · intro values builder b position hfill
      obtain ⟨hbuilding, hposition⟩ := building_fill hids h hlt hfill
      rw [hpayload]
      exact ⟨hbuilding, by omega⟩

end Sizes

/-- Two bools fit. -/
theorem sizesTrue_two :
    SizesTrue (boolHandle 2) (boolGroup 2).2.2 ((boolGroup 2).2.1.getD []) := by
  have hconfigure : boolGroup 2 = (true, some ((boolGroup 2).2.1.getD []), (boolGroup 2).2.2) :=
    Prod.ext (by decide +kernel) (Prod.ext (by decide +kernel) rfl)
  exact (sizesTrue_iff ⟨by decide, by decide⟩ hconfigure).mpr
    ⟨by decide +kernel, by decide +kernel⟩

/-! ### More values than a packet has room for -/

/-- The name of the `k`-th number, in two characters. -/
def numberName (k : ℕ) : List UInt8 :=
  [UInt8.ofNat (33 + k / 91), UInt8.ofNat (33 + k % 91)]

/-- A table of `n` numbers of eight bytes. -/
def numberTable (n : ℕ) : TelemetryDefinitions where
  session := some 1
  defs := (List.range n).map fun k => ⟨numberName k, .ofBase .f64, UInt16.ofNat (k + 1)⟩

/-- A handle to each of them. -/
def numberHandle (n : ℕ) (t : Fin n) : TelemetryInfo where
  name := numberName t
  scalar := .double

/-- The group of `n` numbers, configured. -/
def numberGroup (n : ℕ) : Bool × Option (List UInt8) × TelemetryUpdateGroup (Fin n) :=
  configure (numberHandle n) (numberTable n) .insertion .sent true
    { groupId := 7, telemetries := List.finRange n, actionBuilder := { session := none } }

section Numbers

variable {n : ℕ}

theorem numberName_inj {k m : ℕ} (hk : k < 8281) (hm : m < 8281)
    (h : numberName k = numberName m) : k = m := by
  rw [numberName, numberName, List.cons.injEq, List.cons.injEq] at h
  obtain ⟨hhigh, hlow, -⟩ := h
  have hhigh := congrArg UInt8.toNat hhigh
  have hlow := congrArg UInt8.toNat hlow
  rw [UInt8.toNat_ofNat', UInt8.toNat_ofNat'] at hhigh hlow
  omega

theorem uniqueIds_numberTable (hn : n ≤ 8281) : (numberTable n).UniqueIds := by
  constructor
  · rw [numberTable]
    dsimp only
    rw [List.map_map]
    refine List.Nodup.map_on (fun k hk m hm h => ?_) List.nodup_range
    have h := congrArg UInt16.toNat h
    rw [List.mem_range] at hk hm
    simp only [Function.comp_apply, UInt16.toNat_ofNat'] at h
    omega
  · intro d hd hzero
    obtain ⟨k, hk, rfl⟩ := List.mem_map.mp hd
    have hzero := congrArg UInt16.toNat hzero
    rw [List.mem_range] at hk
    simp only [UInt16.toNat_ofNat', UInt16.toNat_zero] at hzero
    omega

theorem refId_number (hn : n ≤ 8281) (t : Fin n) :
    refId (numberHandle n) (numberTable n) t = UInt16.ofNat (t + 1) := by
  have hlt := t.isLt
  rw [refId]
  cases hfind : (numberTable n).find (numberHandle n t).name (numberHandle n t).type with
  | none =>
      have hmem : (⟨numberName t, .ofBase .f64, UInt16.ofNat (t + 1)⟩ : TelemetryDefinition)
          ∈ (numberTable n).defs := List.mem_map.mpr ⟨t, List.mem_range.mpr hlt, rfl⟩
      exact absurd (decide_eq_true ⟨rfl, rfl⟩) (List.find?_eq_none.mp hfind _ hmem)
  | some d =>
      obtain ⟨k, hk, rfl⟩ := List.mem_map.mp (List.mem_of_find?_eq_some hfind)
      have hfound := List.find?_some hfind
      rw [decide_eq_true_iff] at hfound
      have hname : numberName k = numberName t := hfound.1
      rw [List.mem_range] at hk
      obtain rfl : k = t := numberName_inj (by omega) (by omega) hname
      rfl

/-- All of them are registered. -/
theorem length_numbers (hn : n ≤ 8281) :
    (registeredHandles (numberHandle n) (numberTable n) .insertion (List.finRange n)).length = n := by
  have hids := uniqueIds_numberTable hn
  have hregistered : Registered (numberHandle n) (numberTable n) (List.finRange n)
    (registeredHandles (numberHandle n) (numberTable n) .insertion (List.finRange n)) :=
    registered_filter .insertion hids (List.finRange n)
  have hnodup : ((List.finRange n).map (refId (numberHandle n) (numberTable n))).Nodup := by
    refine List.Nodup.map_on (fun s _ t _ h => ?_) (List.nodup_finRange n)
    have hs := s.isLt
    have ht := t.isLt
    rw [refId_number hn, refId_number hn] at h
    have h := congrArg UInt16.toNat h
    rw [UInt16.toNat_ofNat', UInt16.toNat_ofNat'] at h
    omega
  have hperm := (List.perm_ext_iff_of_nodup hregistered.nodup hnodup).mpr fun id => by
    refine (mem_ids_iff hids).trans ?_
    rw [List.mem_map]
    constructor
    · rintro ⟨t, ht, hresolves⟩
      exact ⟨t, ht, ((resolvesTo_iff hids).mp hresolves).1⟩
    · rintro ⟨t, ht, rfl⟩
      refine ⟨t, ht, (resolvesTo_iff hids).mpr ⟨rfl, fun hzero => ?_⟩⟩
      rw [refId_number hn] at hzero
      have hzero := congrArg UInt16.toNat hzero
      rw [UInt16.toNat_ofNat', UInt16.toNat_zero] at hzero
      have := t.isLt
      omega
  have hlength := hperm.length_eq
  rw [List.length_map, List.length_map, List.length_finRange] at hlength
  exact hlength

/-- The size of a packet of numbers of eight bytes. -/
theorem packetSize_numbers (bufs : List (Fin n)) :
    packetSize (numberHandle n) bufs = 8 + 8 * bufs.length := by
  have hone : ∀ t, sizeIndex (numberHandle n) t = 1 := fun _ => rfl
  have hall : bufs.countP (sizeIndex (numberHandle n) · = 1) = bufs.length :=
    List.countP_eq_length.mpr fun t _ => decide_eq_true (hone t)
  have hnone : ∀ k : ℤ, k ≠ 1 → bufs.countP (sizeIndex (numberHandle n) · = k) = 0 :=
    fun k hk => List.countP_eq_zero.mpr fun t _ h => hk ((of_decide_eq_true h).symm.trans (hone t))
  rw [packetSize]
  dsimp only
  rw [hall, hnone 0 (by decide), hnone 2 (by decide), hnone 3 (by decide), hnone 4 (by decide)]
  omega

/-- **8191 numbers of eight bytes**: `send` reserves four bytes for a packet of 65540. -/
theorem not_sizesTrue :
    (numberTable 8191).UniqueIds ∧ (numberGroup 8191).1 = true ∧
      (numberGroup 8191).2.2.setPayloadSize = 4 ∧
      packetSize (numberHandle 8191) (numberGroup 8191).2.2.baseValueBufs + 4 = 65540 ∧
      ¬ SizesTrue (numberHandle 8191) (numberGroup 8191).2.2 ((numberGroup 8191).2.1.getD []) := by
  have hids := uniqueIds_numberTable (n := 8191) (by omega)
  have hconfigured : numberGroup 8191 = _ := configure_registered
    (g := { groupId := 7, telemetries := List.finRange 8191, actionBuilder := { session := none } })
    rfl (by decide : (1 : UInt16) ≠ 0) (List.ne_nil_of_length_pos (by rw [List.length_finRange]; omega))
    .sent true
  have hbufs : (numberGroup 8191).2.2.baseValueBufs
      = registeredHandles (numberHandle 8191) (numberTable 8191) .insertion (List.finRange 8191) := by
    rw [hconfigured]
  have hsize : packetSize (numberHandle 8191) (numberGroup 8191).2.2.baseValueBufs = 65536 := by
    rw [packetSize_numbers, hbufs, length_numbers (by omega)]
  have hset : (numberGroup 8191).2.2.setPayloadSize = 4 := by
    have hregistered : Registered (numberHandle 8191) (numberTable 8191) (List.finRange 8191)
      (registeredHandles (numberHandle 8191) (numberTable 8191) .insertion (List.finRange 8191)) :=
      registered_filter .insertion hids (List.finRange 8191)
    rw [hbufs] at hsize
    rw [hconfigured]
    dsimp only
    rw [hregistered.expectedSize_eq_packetSize, hsize]
    rfl
  refine ⟨hids, ?_, hset, by rw [hsize], fun h => ?_⟩
  · rw [hconfigured]
    rfl
  · have hwrong := h.setPayloadSize
    rw [hset, hsize] at hwrong
    exact absurd hwrong (by decide)

end Numbers

end TelemetryUpdateGroup

end ScApi
