import ScApi.TelemetryDecode

/-!
# Telemetry groups and the backend

Several groups of one session, as a program uses them: it changes the values of the handles, gives
handles to the groups, configures, sends and disables them, in any order. What the backend knows is
what it reads in the datagrams: the ids that are registered for a group, and for each telemetry the value
that came last.

The program is compared with what it has told the backend: for each group the handles it registered
last, and for each telemetry the value that some group sent last. The backend is not part of the
program; it reads the datagrams in the order in which they are sent, and misses none.

## Main results

* `ofBytes_encode`: an action is read back.
* `configure_told`, `disable_told`, `send_told`: what one call tells the backend.
* `step_invariant`: what one step keeps.
* `backend_knows`: the backend knows what it was told, in every run.
-/

open Bytes Buffer Runs

namespace ScApi

/-! ### The backend -/

/-- The action with the given bytes. -/
def Action.ofBytes (bytes : List UInt8) : Action where
  controllerId := UInt16.ofNat (ofLe (bytes.take 2))
  flags := UInt16.ofNat (ofLe ((bytes.drop 2).take 2))
  actionId := UInt16.ofNat (ofLe ((bytes.drop 4).take 2))
  payload := bytes.drop actionHeaderSize

/-- The values after some of them came, the last one behind the others. -/
def latest (updates : List (UInt16 × AnyValue)) (values : UInt16 → Option AnyValue) :
    UInt16 → Option AnyValue :=
  updates.foldl (fun values x => Function.update values x.1 (some x.2)) values

/-- What a backend knows of the telemetry of one controller. -/
structure TelemetryBackend where
  groups : UInt16 → List (UInt16 × Scalar) := fun _ => []
  values : UInt16 → Option AnyValue := fun _ => none

namespace TelemetryBackend

variable (definitions : TelemetryDefinitions)

/-- The backend reads an action. Actions of other controllers and encrypted ones are not about the
telemetry of this controller. -/
def read (backend : TelemetryBackend) (a : Action) : TelemetryBackend :=
  let group := UInt16.ofNat (ofLe (a.payload.take 2))
  if some a.controllerId ≠ definitions.session ∨ a.flags ≠ 0 then
    backend
  else if a.actionId = actionRegisterTelemetryGroup then
    { backend with
      groups := Function.update backend.groups group (definitions.typed (registeredIds a.payload)) }
  else if a.actionId = actionSetTelemetryGroup then
    { backend with values := latest (decode (backend.groups group) a.payload) backend.values }
  else
    backend

/-- The backend reads a datagram. -/
def receive (backend : TelemetryBackend) (datagram : List UInt8) : TelemetryBackend :=
  (actionFraming.split datagram).1.foldl (fun backend bytes => backend.read definitions (.ofBytes bytes))
    backend

/-- What the backend knows after some datagrams. -/
def after (datagrams : List (List UInt8)) : TelemetryBackend :=
  datagrams.foldl (receive definitions) {}

end TelemetryBackend

/-! ### The program -/

/-- What the backend was told: the handles of each group that were registered last, and the value of
each telemetry that was sent last. -/
structure Told (κ ι : Type*) where
  registered : κ → List ι := fun _ => []
  shown : UInt16 → Option AnyValue := fun _ => none

/-- The groups of a program on one session, and the values of their handles. -/
structure TelemetryUse (κ : Type*) {ι : Type*} (handle : ι → TelemetryInfo) where
  groups : κ → TelemetryUpdateGroup ι
  values : ∀ t, (handle t).scalar.Value
  sent : List (List UInt8) := []
  told : Told κ ι := {}

/-- A step of the program. A snapshot is what `getDefinitions` returned at some time. -/
inductive TelemetryStep (κ : Type*) {ι : Type*} (handle : ι → TelemetryInfo) where
  | assign (t : ι) (value : (handle t).scalar.Value)
  | set (k : κ) (telemetries : List ι)
  | add (k : κ) (telemetries : List ι)
  | configure (k : κ) (snapshot : TelemetryDefinitions) (answer : SocketAnswer) (later : Bool)
  | disable (k : κ) (answer : SocketAnswer) (later : Bool)
  | send (k : κ) (answer : SocketAnswer)

namespace Told

variable {κ ι : Type*} [DecidableEq κ]

/-- Some handles of a group are registered. -/
def register (k : κ) (bufs : List ι) (told : Told κ ι) : Told κ ι :=
  { told with registered := Function.update told.registered k bufs }

/-- The values of some handles are sent. -/
def publish (id : ι → UInt16) (value : ι → AnyValue) (bufs : List ι) (told : Told κ ι) : Told κ ι :=
  { told with shown := fun i => ((bufs.find? (id · = i)).map value).or (told.shown i) }

end Told

namespace TelemetryUse

open TelemetryUpdateGroup Sorting

variable {κ ι : Type*} [DecidableEq κ] [DecidableEq ι] {handle : ι → TelemetryInfo}

/-- The groups with the given ids before anything happens. -/
def start (groupIds : κ → UInt16) (values : ∀ t, (handle t).scalar.Value) : TelemetryUse κ handle where
  groups := fun k => { groupId := groupIds k, actionBuilder := { session := none } }
  values

/-- A call leaves a group behind, and tells the backend something if its datagram was sent. -/
def behind (k : κ) (g : TelemetryUpdateGroup ι) (complete : Bool) (datagram : Option (List UInt8))
    (told : Told κ ι) (w : TelemetryUse κ handle) : TelemetryUse κ handle :=
  let w := { w with groups := Function.update w.groups k g }
  match complete, datagram with
  | true, some datagram => { w with sent := w.sent ++ [datagram], told }
  | _, _ => w

/-- One step. -/
def step (definitions : TelemetryDefinitions) (std : StdSort ι) (w : TelemetryUse κ handle) :
    TelemetryStep κ handle → Option (TelemetryUse κ handle)
  | .assign t value => some { w with values := Function.update w.values t value }
  | .set k telemetries =>
      some { w with groups := Function.update w.groups k ((w.groups k).set telemetries) }
  | .add k telemetries =>
      some { w with groups := Function.update w.groups k ((w.groups k).add telemetries) }
  | .configure k snapshot answer later =>
      let (result, datagram, g) := (w.groups k).configure handle snapshot std answer later
      some (w.behind k g result datagram (w.told.register k g.baseValueBufs))
  | .disable k answer later =>
      let (result, datagram, g) := (w.groups k).disable answer later
      some (w.behind k g (result = .complete) datagram (w.told.register k []))
  | .send k answer =>
      let (result, datagram, g) := (w.groups k).send handle w.values answer
      some (w.behind k g (result = .complete) datagram
        (w.told.publish (refId handle definitions) (current handle w.values) g.baseValueBufs))

/-- The registration of some handles and their packets are not larger than their headers can tell. -/
def PacketsFit (handle : ι → TelemetryInfo) (bufs : List ι) : Prop :=
  actionHeaderSize + (6 + 2 * bufs.length) ≤ kMaxActionSize ∧
    actionHeaderSize + (expectedSize (entriesBySize handle bufs) + 4) ≤ kMaxActionSize

instance (bufs : List ι) : Decidable (PacketsFit handle bufs) :=
  inferInstanceAs (Decidable (_ ∧ _))

/-- The condition on a step. A snapshot has the definitions of the session from the first one on. Handles
are configured only as many as fit; a packet is made in an empty builder, and a bool in it does not come
on a bit on which another one was sent as true, unless it is true itself. -/
def Guarded (definitions : TelemetryDefinitions) (std : StdSort ι) (w : TelemetryUse κ handle) :
    TelemetryStep κ handle → Prop
  | .configure k snapshot _ _ =>
      snapshot.defs <+: definitions.defs ∧
        (snapshot.session = none ∨ snapshot.session = definitions.session) ∧
          PacketsFit handle (registeredHandles handle snapshot std (w.groups k).telemetries)
  | .disable k _ _ => (w.groups k).actionBuilder.buffer = []
  | .send k _ =>
      (w.groups k).prepared → (w.groups k).actionBuilder.buffer = [] ∧
        BoolsAgree handle definitions w.values (w.groups k).baseValueBufs (w.groups k).baseValueBufs
  | .assign _ _ | .set _ _ | .add _ _ => True

instance (definitions : TelemetryDefinitions) (values : ∀ t, (handle t).scalar.Value)
    (telemetries bufs : List ι) : Decidable (BoolsAgree handle definitions values telemetries bufs) :=
  decidable_of_iff (∀ i < (ofIndex handle bufs 0).length, ∀ j < i,
      ∀ t ∈ (ofIndex handle bufs 0)[i]?, ∀ u ∈ (ofIndex handle bufs 0)[j]?, j % 32 = i % 32 →
        isTrue handle values u → ∃ t' ∈ telemetries,
          refId handle definitions t' = refId handle definitions t ∧ isTrue handle values t')
    ⟨fun h i j t u ht hu hji => h i (List.getElem?_eq_some_iff.mp ht).1 j hji t ht u hu,
      fun h i _ j hji t ht u hu => h i j t u ht hu hji⟩

instance (definitions : TelemetryDefinitions) (std : StdSort ι) (w : TelemetryUse κ handle) :
    (l : TelemetryStep κ handle) → Decidable (Guarded definitions std w l)
  | .configure _ _ _ _ => inferInstanceAs (Decidable (_ ∧ _ ∧ _))
  | .disable _ _ _ => inferInstanceAs (Decidable (_ = _))
  | .send _ _ => inferInstanceAs (Decidable (_ → _ ∧ _))
  | .assign _ _ | .set _ _ | .add _ _ => inferInstanceAs (Decidable True)

end TelemetryUse

/-! ### What the backend reads -/

/-- **An action is read back.** -/
theorem Action.ofBytes_encode (a : Action) : Action.ofBytes a.encode = a := by
  have hfield : ∀ (front rest : List UInt8) (x : UInt16),
      UInt16.ofNat (ofLe (((front ++ toLe 2 x.toNat ++ rest).drop front.length).take 2)) = x := by
    intro front rest x
    rw [List.append_assoc, List.drop_left, List.take_left' (length_toLe _ _),
      ofLe_toLe_of_lt x.toNat_lt, UInt16.ofNat_toNat]
  have hpayload : a.encode.drop actionHeaderSize = a.payload := TelemetryUpdateGroup.drop_encode a
  obtain ⟨rest, hrest⟩ : ∃ rest, a.encode = toLe 2 a.controllerId.toNat ++ toLe 2 a.flags.toNat
      ++ toLe 2 a.actionId.toNat ++ rest := by
    refine ⟨toLe 2 a.size ++ a.payload, ?_⟩
    rw [encode, bytesWith, head]
    simp only [List.append_assoc]
  have hcontroller := hfield [] (toLe 2 a.flags.toNat ++ toLe 2 a.actionId.toNat ++ rest) a.controllerId
  have hflags := hfield (toLe 2 a.controllerId.toNat) (toLe 2 a.actionId.toNat ++ rest) a.flags
  have hid := hfield (toLe 2 a.controllerId.toNat ++ toLe 2 a.flags.toNat) rest a.actionId
  rw [List.nil_append, List.length_nil, List.drop_zero] at hcontroller
  rw [length_toLe] at hflags
  rw [List.length_append, length_toLe, length_toLe] at hid
  simp only [← List.append_assoc] at hcontroller hflags hid
  rw [← hrest] at hcontroller hflags hid
  rw [ofBytes, hcontroller, hflags, hid, hpayload]

/-- **The values that came last**, when they are of distinct telemetries. -/
theorem latest_map {ι : Type*} {id : ι → UInt16} {value : ι → AnyValue} {ts : List ι}
    (h : (ts.map id).Nodup) (values : UInt16 → Option AnyValue) :
    latest (ts.map fun t => (id t, value t)) values
      = fun i => ((ts.find? (id · = i)).map value).or (values i) := by
  induction ts generalizing values with
  | nil => rfl
  | cons t ts ih =>
      rw [List.map_cons, List.nodup_cons] at h
      have hrest := ih h.2 (Function.update values (id t) (some (value t)))
      rw [latest] at hrest ⊢
      rw [List.map_cons, List.foldl_cons, hrest]
      funext i
      by_cases hi : id t = i
      · have hfirst : (t :: ts).find? (id · = i) = some t :=
          List.find?_cons_of_pos (decide_eq_true hi)
        have hnone : ts.find? (id · = i) = none := by
          rw [List.find?_eq_none]
          intro u hu hid
          rw [decide_eq_true_iff] at hid
          exact h.1 (List.mem_map.mpr ⟨u, hu, hid.trans hi.symm⟩)
        rw [hnone, hfirst, ← hi, Function.update_self]
        rfl
      · have hbehind : (t :: ts).find? (id · = i) = ts.find? (id · = i) :=
          List.find?_cons_of_neg (by rwa [decide_eq_true_iff])
        rw [hbehind, Function.update_of_ne (Ne.symm hi)]

namespace TelemetryBackend

variable {definitions : TelemetryDefinitions} {controllerId : UInt16} {backend : TelemetryBackend}

/-- A datagram of one action. -/
theorem receive_encode {a : Action} (h : a.Fits) :
    backend.receive definitions a.encode = backend.read definitions a := by
  have hsplit := split_encode (List.forall_mem_singleton.mpr h)
  rw [List.map_singleton, List.flatten_cons, List.flatten_nil, List.append_nil] at hsplit
  rw [receive, hsplit, List.foldl_cons, List.foldl_nil, Action.ofBytes_encode]

/-- **The backend reads a registration.** -/
theorem read_registration (hsession : definitions.session = some controllerId) {groupId : UInt16}
    {ids : List UInt16} {size : ℕ} (hids : ids.length < 65536) :
    backend.read definitions ⟨controllerId, 0, actionRegisterTelemetryGroup,
        TelemetryUpdateGroup.registration groupId ids size⟩
      = { backend with groups := Function.update backend.groups groupId (definitions.typed ids) } := by
  have hgroup : UInt16.ofNat (ofLe
      ((TelemetryUpdateGroup.registration groupId ids size).take 2)) = groupId := by
    rw [TelemetryUpdateGroup.registration, List.append_assoc, List.append_assoc,
      List.take_left' (length_toLe _ _), ofLe_toLe_of_lt groupId.toNat_lt, UInt16.ofNat_toNat]
  rw [read]
  dsimp only
  rw [if_neg (by rw [hsession]; simp), if_pos rfl, hgroup,
    TelemetryUpdateGroup.registeredIds_registration hids]

/-- **The backend reads a packet of values.** -/
theorem read_packet (hsession : definitions.session = some controllerId) {groupId : UInt16}
    {payload : List UInt8} (hgroup : payload.take 2 = toLe 2 groupId.toNat) :
    backend.read definitions ⟨controllerId, 0, actionSetTelemetryGroup, payload⟩
      = { backend with values := latest (decode (backend.groups groupId) payload) backend.values } := by
  rw [read]
  dsimp only
  rw [if_neg (by rw [hsession]; simp), if_neg (by decide), if_pos rfl, hgroup,
    ofLe_toLe_of_lt groupId.toNat_lt, UInt16.ofNat_toNat]

/-- One more datagram. -/
theorem after_append (datagrams : List (List UInt8)) (datagram : List UInt8) :
    after definitions (datagrams ++ [datagram]) = (after definitions datagrams).receive definitions datagram := by
  rw [after, List.foldl_append, List.foldl_cons, List.foldl_nil, after]

end TelemetryBackend

/-! ### Sending without blocking -/

/-- A builder that is not idle hands its buffer to the socket. -/
theorem ActionBuilder.sendNonBlocking_eq {b : ActionBuilder} (hsession : b.session ≠ none)
    (hbuffer : b.buffer ≠ []) (answer : SocketAnswer) :
    ∃ result b', b.sendNonBlocking answer = (result, some b.finalize.buffer, b') ∧
      b'.session = b.session := by
  have hidle : ¬ b.idle = true := by
    rw [idle, decide_eq_true_iff, not_or]
    exact ⟨hsession, hbuffer⟩
  rw [sendNonBlocking, if_neg hidle]
  cases answer with
  | sent | wouldBlock | error => exact ⟨_, _, rfl, rfl⟩

namespace TelemetryUpdateGroup

open ActionBuilder

variable {ι : Type*} {handle : ι → TelemetryInfo} {definitions : TelemetryDefinitions}
  {g : TelemetryUpdateGroup ι} {controllerId : UInt16}

/-! ### What a snapshot resolves -/

/-- **What resolves in a snapshot** resolves in the same way later. -/
theorem refId_of_snapshot {snapshot : TelemetryDefinitions} (hsnap : snapshot.defs <+: definitions.defs)
    {t : ι} (h : refId handle snapshot t ≠ 0) :
    refId handle definitions t = refId handle snapshot t := by
  obtain ⟨more, hmore⟩ := hsnap
  rw [refId, TelemetryDefinitions.find] at h ⊢
  rw [refId, TelemetryDefinitions.find, ← hmore, List.find?_append]
  cases hfind : snapshot.defs.find? fun d => d.name = (handle t).name ∧ d.type = (handle t).type with
  | none => exact absurd (by rw [hfind]) h
  | some d => rfl

theorem UniqueIds.of_snapshot {snapshot : TelemetryDefinitions}
    (hsnap : snapshot.defs <+: definitions.defs) (h : definitions.UniqueIds) :
    snapshot.UniqueIds where
  nodup := h.nodup.sublist (hsnap.sublist.map _)
  ne_zero := fun d hd => h.ne_zero d (hsnap.subset hd)

/-- The handles that a snapshot registers. -/
theorem Registered.of_snapshot {snapshot : TelemetryDefinitions} {telemetries bufs : List ι}
    (hsnap : snapshot.defs <+: definitions.defs) (h : Registered handle snapshot telemetries bufs) :
    Registered handle definitions bufs bufs := by
  have hids : bufs.map (refId handle definitions) = bufs.map (refId handle snapshot) :=
    List.map_congr_left fun t ht => refId_of_snapshot hsnap (h.resolved t ht)
  refine ⟨fun _ ht => ht, fun t ht => ?_, h.sorted, hids ▸ h.nodup⟩
  rw [refId_of_snapshot hsnap (h.resolved t ht)]
  exact h.resolved t ht

/-! ### What one call tells the backend -/

/-- A group that was configured on the session, and its handles. -/
structure Configured (handle : ι → TelemetryInfo) (definitions : TelemetryDefinitions)
    (g : TelemetryUpdateGroup ι) : Prop where
  registered : Registered handle definitions g.baseValueBufs g.baseValueBufs
  entries : g.baseValueEntriesBySize = entriesBySize handle g.baseValueBufs
  setSize : g.setPayloadSize = UInt16.ofNat (expectedSize g.baseValueEntriesBySize + 4)
  fits : TelemetryUse.PacketsFit handle g.baseValueBufs
  session : g.actionBuilder.session = definitions.session

/-- **A packet decodes to the current values** of the handles, in their order. -/
theorem decode_packet (hids : definitions.UniqueIds) {values : ∀ t, (handle t).scalar.Value}
    {bufs : List ι} {front : List UInt8} (h : Registered handle definitions bufs bufs)
    (hagree : BoolsAgree handle definitions values bufs bufs)
    (hfront : front.length = expectedSize (entriesBySize handle bufs) + 4) :
    decode (definitions.typed (bufs.map (refId handle definitions)))
        (overwrite (overwrite front 4 (wordBytes (boolWords (flags handle values bufs) 0 0)))
          (valuesStart (ofIndex handle bufs 0).length) (valueBytes handle values (rest handle bufs)))
      = bufs.map fun t => (refId handle definitions t, current handle values t) := by
  have hexpected := h.expectedSize_eq
  have hwords : 4 + (wordBytes (boolWords (flags handle values bufs) 0 0)).length ≤ front.length := by
    rw [length_wordBytes, length_boolWords, flags, List.length_map, hfront, hexpected, valuesStart]
    omega
  obtain ⟨packet, hpacket⟩ : ∃ packet, packet = overwrite
      (overwrite front 4 (wordBytes (boolWords (flags handle values bufs) 0 0)))
        (valuesStart (ofIndex handle bufs 0).length) (valueBytes handle values (rest handle bufs)) :=
    ⟨_, rfl⟩
  obtain ⟨tail, hrest⟩ : ∃ tail, packet.drop (valuesStart (ofIndex handle bufs 0).length)
      = valueBytes handle values (rest handle bufs) ++ tail := by
    rw [hpacket, drop_overwrite (by rw [length_overwrite hwords]; omega)]
    exact ⟨_, rfl⟩
  have hlength : (bufs.map (refId handle definitions)).length < 65536 :=
    (List.length_map _).trans_lt (Nat.lt_succ_of_le h.length_le)
  have hread : registeredIds (registration 0 (bufs.map (refId handle definitions)) 0)
      = bufs.map (refId handle definitions) := registeredIds_registration hlength
  have hbits : Decodes handle definitions values bufs
      (registration 0 (bufs.map (refId handle definitions)) 0) packet := by
    refine (decodes_iff_bits hids h hread hrest).mpr ((bits_iff hids h fun i hi => ?_).mpr hagree)
    rw [hpacket]
    exact decodeBit_iff hi rfl (by omega)
  have hfst := hbits.ids
  have hsnd := hbits.values
  rw [hread] at hfst hsnd
  rw [← hpacket]
  refine List.ext_getElem ?_ fun i hi hi' => ?_
  · have hlen := congrArg List.length hfst
    rw [List.length_map, List.length_map] at hlen
    rw [hlen, List.length_map]
  · have hbuf : i < bufs.length := by rwa [List.length_map] at hi'
    obtain ⟨t, ht, hid, hvalue⟩ := hsnd _ (List.getElem_mem hi)
    have hi₁ : ((decode (definitions.typed (bufs.map (refId handle definitions))) packet)[i]).1
        = refId handle definitions bufs[i] := by
      have hget := List.getElem_of_eq hfst (i := i) (by rwa [List.length_map])
      rwa [List.getElem_map, List.getElem_map] at hget
    have htail : t = bufs[i] :=
      List.inj_on_of_nodup_map h.nodup ht (List.getElem_mem hbuf) (hid.trans hi₁)
    rw [List.getElem_map]
    exact Prod.ext hi₁ (by rw [← hvalue, htail])

/-- A packet in the own builder of its group, and what it decodes to. -/
theorem Configured.fill_eq (h : Configured handle definitions g) (hids : definitions.UniqueIds)
    (hsession : definitions.session = some controllerId) (hc : controllerId ≠ 0)
    (hempty : g.actionBuilder.buffer = []) {values : ∀ t, (handle t).scalar.Value}
    (hagree : BoolsAgree handle definitions values g.baseValueBufs g.baseValueBufs) :
    ∃ b position size payload, g.fill handle values = some (b, position) ∧
      b.session = g.actionBuilder.session ∧ b.curStartIdx = 0 ∧
      b.buffer = actionHeader controllerId 0 actionSetTelemetryGroup size ++ payload ∧
      payload.length = expectedSize g.baseValueEntriesBySize + 4 ∧
      payload.take 2 = toLe 2 g.groupId.toNat ∧
      decode (definitions.typed (g.baseValueBufs.map (refId handle definitions))) payload
        = g.baseValueBufs.map fun t => (refId handle definitions t, current handle values t) := by
  have hfits := h.fits.2
  rw [← h.entries, kMaxActionSize, actionHeaderSize] at hfits
  have hsize : g.setPayloadSize.toNat = expectedSize g.baseValueEntriesBySize + 4 := by
    rw [h.setSize, UInt16.toNat_ofNat', Nat.mod_eq_of_lt (by omega)]
  have hcontroller : g.actionBuilder.controllerId = some controllerId := by
    rw [ActionBuilder.controllerId, h.session, hsession]
    simp [hc]
  obtain ⟨n, hn⟩ : ∃ n, n = expectedSize g.baseValueEntriesBySize + 4 := ⟨_, rfl⟩
  obtain ⟨b₀, hstart, hsession₀, hcur, hbuffer⟩ : ∃ b₀, g.actionBuilder.startBuilding
      actionSetTelemetryGroup n 0 = (some actionHeaderSize, b₀) ∧
      b₀.session = g.actionBuilder.session ∧ b₀.curStartIdx = 0 ∧
      b₀.buffer = actionHeader controllerId 0 actionSetTelemetryGroup
        (UInt16.ofNat (actionHeaderSize + n)) ++ List.replicate n 0 :=
    buffer_startBuilding hempty hcontroller
  have hbuilding := (building_startBuilding hstart).1
  rw [hn] at hbuilding
  have hlength : (actionHeader controllerId 0 actionSetTelemetryGroup
      (UInt16.ofNat (actionHeaderSize + n))).length = b₀.curStartIdx + actionHeaderSize := by
    rw [hcur]
    simp [actionHeader, actionHeaderSize]
  -- the four writes make the payload
  have h₁ := buffer_writePayload hbuffer hlength 0 (toLe 2 g.groupId.toNat)
  have h₂ := buffer_writePayload h₁ hlength 2 [0, 0]
  have h₃ := buffer_writePayload h₂ hlength 4
    (wordBytes (boolWords (flags handle values g.baseValueBufs) 0 0))
  have h₄ := buffer_writePayload h₃ hlength (valuesStart (ofIndex handle g.baseValueBufs 0).length)
    (valueBytes handle values (rest handle g.baseValueBufs))
  have hfill : g.fillPayload handle values b₀ = _ := h.registered.fillPayload_eq h.entries hbuilding
  have hfilled := (h.registered.payload_fillPayload values h.entries hbuilding).1
  obtain ⟨front, hfront⟩ : ∃ front, front
    = overwrite (overwrite (List.replicate n 0) 0 (toLe 2 g.groupId.toNat)) 2 [0, 0] := ⟨_, rfl⟩
  have hzeros : (overwrite (List.replicate n 0) 0 (toLe 2 g.groupId.toNat)).length = n := by
    rw [length_overwrite (by rw [length_toLe, List.length_replicate]; omega), List.length_replicate]
  have hfrontLength : front.length = n := by
    rw [hfront, length_overwrite (by
      rw [hzeros, List.length_cons, List.length_cons, List.length_nil]; omega), hzeros]
  have hgroup : front.take 2 = toLe 2 g.groupId.toNat := by
    rw [hfront, take_overwrite (le_refl 2) (by rw [hzeros]; omega), overwrite_zero,
      List.take_left' (length_toLe _ _)]
  have hexpected := h.registered.expectedSize_eq
  rw [← h.entries] at hexpected
  have hwords : 4 + (wordBytes (boolWords (flags handle values g.baseValueBufs) 0 0)).length
      ≤ front.length := by
    rw [length_wordBytes, length_boolWords, flags, List.length_map, hfrontLength, hn, hexpected,
      valuesStart]
    omega
  have hstartLe : 2 ≤ valuesStart (ofIndex handle g.baseValueBufs 0).length ∧
      valuesStart (ofIndex handle g.baseValueBufs 0).length ≤ n := by
    rw [hn, hexpected, valuesStart]
    omega
  rw [← hfront] at h₄
  have hmade : g.fill handle values = some (g.fillPayload handle values b₀) := by
    rw [fill, hsize, ← hn, hstart]
  rw [hfill] at hmade hfilled
  refine ⟨_, _, _, _, hmade, hsession₀, hcur, h₄, ?_, ?_, ?_⟩
  · rw [ActionBuilder.Building, h₄, List.length_append, hlength] at hfilled
    exact Nat.add_left_cancel hfilled
  · rw [take_overwrite hstartLe.1 (by rw [length_overwrite hwords, hfrontLength]; exact hstartLe.2),
      take_overwrite (by omega) (by omega), hgroup]
  · exact decode_packet hids h.registered hagree (by rw [hfrontLength, hn, h.entries])

/-- **What `send` tells the backend**: it hands one packet to the socket, which decodes to the current
values. -/
theorem Configured.send_told (h : Configured handle definitions g) (hids : definitions.UniqueIds)
    (hsession : definitions.session = some controllerId) (hc : controllerId ≠ 0)
    (hprepared : g.prepared = true) (hempty : g.actionBuilder.buffer = [])
    {values : ∀ t, (handle t).scalar.Value}
    (hagree : BoolsAgree handle definitions values g.baseValueBufs g.baseValueBufs)
    (answer : SocketAnswer) :
    ∃ result b payload, g.send handle values answer = (result,
        some (Action.encode ⟨controllerId, 0, actionSetTelemetryGroup, payload⟩),
          { g with actionBuilder := b }) ∧
      b.session = g.actionBuilder.session ∧
      (⟨controllerId, 0, actionSetTelemetryGroup, payload⟩ : Action).Fits ∧
      payload.take 2 = toLe 2 g.groupId.toNat ∧
      decode (definitions.typed (g.baseValueBufs.map (refId handle definitions))) payload
        = g.baseValueBufs.map fun t => (refId handle definitions t, current handle values t) := by
  obtain ⟨b, position, size, payload, hfill, hb, hcur, hbuffer, hlength, hgroup, hdecode⟩ :=
    h.fill_eq hids hsession hc hempty hagree
  have hnonempty : b.buffer ≠ [] := by
    rw [hbuffer]
    exact List.append_ne_nil_of_left_ne_nil (List.ne_nil_of_length_pos (by simp [actionHeader])) _
  obtain ⟨result, b', hsend, hb'⟩ := sendNonBlocking_eq
    (by rw [hb, h.session, hsession]; exact Option.some_ne_none _) hnonempty answer
  have hfits := h.fits.2
  rw [← h.entries] at hfits
  refine ⟨result, b', payload, ?_, hb'.trans hb, ?_, hgroup, hdecode⟩
  · rw [send, if_pos hprepared, hfill]
    dsimp only
    rw [hsend, buffer_finalize hcur hbuffer]
  · rw [Action.Fits, Action.size, hlength]
    exact hfits

/-- **What `disable` tells the backend**: no id is registered any more. -/
theorem disable_told (hsession : g.actionBuilder.session = some controllerId) (hc : controllerId ≠ 0)
    (hempty : g.actionBuilder.buffer = []) (answer : SocketAnswer) (later : Bool) :
    g.disable answer later = (if completes answer later then .complete else .failed,
      some (Action.encode ⟨controllerId, 0, actionRegisterTelemetryGroup,
        registration g.groupId [] 0⟩),
      { g with actionBuilder := { session := g.actionBuilder.session }, prepared := false }) := by
  have hcontroller : g.actionBuilder.controllerId = some controllerId := by
    rw [ActionBuilder.controllerId, hsession]
    simp [hc]
  obtain ⟨b₀, hstart, hsession₀, hcur, hbuffer⟩ : ∃ b₀, g.actionBuilder.startBuilding
      actionRegisterTelemetryGroup 6 0 = (some actionHeaderSize, b₀) ∧
      b₀.session = g.actionBuilder.session ∧ b₀.curStartIdx = 0 ∧
      b₀.buffer = actionHeader controllerId 0 actionRegisterTelemetryGroup
        (UInt16.ofNat (actionHeaderSize + 6)) ++ List.replicate 6 0 :=
    buffer_startBuilding hempty hcontroller
  have hlength : (actionHeader controllerId 0 actionRegisterTelemetryGroup
      (UInt16.ofNat (actionHeaderSize + 6))).length = b₀.curStartIdx + actionHeaderSize := by
    rw [hcur]
    simp [actionHeader, actionHeaderSize]
  have h₁ := buffer_writePayload hbuffer hlength 0 (toLe 2 g.groupId.toNat)
  have h₂ := buffer_writePayload h₁ hlength 2 [0, 0]
  have h₃ := buffer_writePayload h₂ hlength 4 [0, 0]
  have hpayload : overwrite (overwrite (overwrite (List.replicate 6 0) 0 (toLe 2 g.groupId.toNat)) 2
      [0, 0]) 4 [0, 0] = registration g.groupId [] 0 := rfl
  obtain ⟨b, hb⟩ : ∃ b, b = ((b₀.writePayload 0 (toLe 2 g.groupId.toNat)).writePayload 2
    [0, 0]).writePayload 4 [0, 0] := ⟨_, rfl⟩
  have hsession' : b.session = g.actionBuilder.session := by
    rw [hb]
    exact hsession₀
  have hcur' : b.curStartIdx = 0 := by
    rw [hb]
    exact hcur
  rw [← hb, hpayload] at h₃
  have hnonempty : b.buffer ≠ [] := by
    rw [h₃]
    exact List.append_ne_nil_of_left_ne_nil (List.ne_nil_of_length_pos (by simp [actionHeader])) _
  rw [disable, hstart]
  dsimp only
  rw [← hb, sendBlocking_eq (by rw [hsession', hsession]; exact Option.some_ne_none _) hnonempty,
    buffer_finalize hcur' h₃, hsession']

end TelemetryUpdateGroup

namespace TelemetryUse

open TelemetryUpdateGroup ActionBuilder TelemetryBackend Sorting

variable {κ ι : Type*} {handle : ι → TelemetryInfo}
  {definitions : TelemetryDefinitions} {std : StdSort ι} {groupIds : κ → UInt16}
  {controllerId : UInt16} {w w' : TelemetryUse κ handle} {k : κ}

/-! ### What the backend knows -/

/-- **The backend knows what it was told**: the ids and types of the handles of each group, no other
group, and the values of all telemetries. -/
structure Knows (handle : ι → TelemetryInfo) (definitions : TelemetryDefinitions)
    (groupIds : κ → UInt16) (backend : TelemetryBackend) (told : Told κ ι) : Prop where
  groups : ∀ k, backend.groups (groupIds k)
    = (told.registered k).map fun t => (refId handle definitions t, (handle t).scalar)
  others : ∀ i, (∀ k, groupIds k ≠ i) → backend.groups i = []
  values : backend.values = told.shown

section

variable {backend : TelemetryBackend} {told : Told κ ι}

/-- A packet of values arrives. -/
theorem Knows.publish (h : Knows handle definitions groupIds backend told)
    (hsession : definitions.session = some controllerId) (hids : definitions.UniqueIds)
    {bufs : List ι} (hbufs : Registered handle definitions bufs bufs)
    (hregistered : told.registered k = bufs) {value : ι → AnyValue} {payload : List UInt8}
    (hfits : (⟨controllerId, 0, actionSetTelemetryGroup, payload⟩ : Action).Fits)
    (hgroup : payload.take 2 = toLe 2 (groupIds k).toNat)
    (hdecode : decode (definitions.typed (bufs.map (refId handle definitions))) payload
      = bufs.map fun t => (refId handle definitions t, value t)) :
    Knows handle definitions groupIds (backend.receive definitions (Action.encode ⟨controllerId, 0,
        actionSetTelemetryGroup, payload⟩))
      (told.publish (refId handle definitions) value bufs) := by
  have hknown : backend.groups (groupIds k)
      = definitions.typed (bufs.map (refId handle definitions)) := by
    rw [h.groups k, hregistered, typed_eq hids hbufs.resolved]
  rw [receive_encode hfits, read_packet hsession hgroup, hknown, hdecode, latest_map hbufs.nodup,
    h.values]
  exact ⟨h.groups, h.others, rfl⟩

variable [DecidableEq κ]

/-- A registration arrives. -/
theorem Knows.register (h : Knows handle definitions groupIds backend told)
    (hsession : definitions.session = some controllerId) (hids : definitions.UniqueIds)
    (hgroups : Function.Injective groupIds) {bufs : List ι} {size : ℕ}
    (hresolved : ∀ t ∈ bufs, refId handle definitions t ≠ 0)
    (hfits : actionHeaderSize + (6 + 2 * bufs.length) ≤ kMaxActionSize) :
    Knows handle definitions groupIds (backend.receive definitions (Action.encode ⟨controllerId, 0,
        actionRegisterTelemetryGroup, registration (groupIds k) (bufs.map (refId handle definitions))
          size⟩)) (told.register k bufs) := by
  rw [actionHeaderSize, kMaxActionSize] at hfits
  have hlength : (bufs.map (refId handle definitions)).length = bufs.length := List.length_map _
  rw [receive_encode (by
      rw [Action.Fits, Action.size, length_registration, hlength, actionHeaderSize]
      exact hfits),
    read_registration hsession (by omega), typed_eq hids hresolved]
  refine ⟨fun j => ?_, fun i hi => ?_, h.values⟩
  · by_cases hj : j = k
    · rw [Told.register, hj]
      simp only [Function.update_self]
    · rw [Told.register]
      simp only [Function.update_of_ne hj, Function.update_of_ne fun heq => hj (hgroups heq)]
      exact h.groups j
  · dsimp only
    rw [Function.update_of_ne (Ne.symm (hi k))]
    exact h.others i hi

end

/-! ### What one step keeps -/

/-- **The invariant.** A group that is prepared was configured on the session, and its handles are those
that the backend was told last. -/
structure Invariant (definitions : TelemetryDefinitions) (groupIds : κ → UInt16)
    (w : TelemetryUse κ handle) : Prop where
  groupId : ∀ k, (w.groups k).groupId = groupIds k
  session : ∀ k, (w.groups k).actionBuilder.session = none ∨
    (w.groups k).actionBuilder.session = definitions.session
  ready : ∀ k, (w.groups k).prepared = true →
    Configured handle definitions (w.groups k) ∧ w.told.registered k = (w.groups k).baseValueBufs
  knows : Knows handle definitions groupIds (after definitions w.sent) w.told

theorem invariant_start (values : ∀ t, (handle t).scalar.Value) :
    Invariant definitions groupIds (start groupIds values) where
  groupId := fun _ => rfl
  session := fun _ => .inl rfl
  ready := by
    intro k h
    cases h
  knows := ⟨fun _ => rfl, fun _ _ => rfl, rfl⟩

section

variable [DecidableEq κ]

/-- One group changes, and the backend may be told something about it. -/
theorem Invariant.update (hw : Invariant definitions groupIds w) {g : TelemetryUpdateGroup ι}
    {sent : List (List UInt8)} {told : Told κ ι} (hgroup : g.groupId = groupIds k)
    (hsession : g.actionBuilder.session = none ∨ g.actionBuilder.session = definitions.session)
    (hready : g.prepared = true → Configured handle definitions g ∧ told.registered k = g.baseValueBufs)
    (hothers : ∀ j, j ≠ k → told.registered j = w.told.registered j)
    (hknows : Knows handle definitions groupIds (after definitions sent) told) :
    Invariant definitions groupIds
      { w with groups := Function.update w.groups k g, sent, told } := by
  have hcases : ∀ {P : κ → TelemetryUpdateGroup ι → Prop}, P k g → (∀ j, j ≠ k → P j (w.groups j)) →
      ∀ j, P j (Function.update w.groups k g j) := by
    intro P hk hrest j
    by_cases hj : j = k
    · rw [hj, Function.update_self]
      exact hk
    · rw [Function.update_of_ne hj]
      exact hrest j hj
  refine ⟨?_, ?_, ?_, hknows⟩
  · exact hcases (P := fun j g => g.groupId = groupIds j) hgroup fun j _ => hw.groupId j
  · exact hcases (P := fun _ g => g.actionBuilder.session = none ∨
      g.actionBuilder.session = definitions.session) hsession fun j _ => hw.session j
  · refine hcases (P := fun j g => g.prepared = true → Configured handle definitions g ∧
      told.registered j = g.baseValueBufs) hready fun j hj hprepared => ?_
    rw [hothers j hj]
    exact hw.ready j hprepared

/-- A call that tells the backend nothing. -/
theorem Invariant.behind_quiet (hw : Invariant definitions groupIds w) {g : TelemetryUpdateGroup ι}
    {datagram : Option (List UInt8)} {told : Told κ ι} (hgroup : g.groupId = groupIds k)
    (hsession : g.actionBuilder.session = none ∨ g.actionBuilder.session = definitions.session)
    (hready : g.prepared = true →
      Configured handle definitions g ∧ w.told.registered k = g.baseValueBufs) :
    Invariant definitions groupIds (w.behind k g false datagram told) :=
  hw.update hgroup hsession hready (fun _ _ => rfl) hw.knows

/-- A call whose datagram is sent. -/
theorem Invariant.behind_sent (hw : Invariant definitions groupIds w) {g : TelemetryUpdateGroup ι}
    {datagram : List UInt8} {told : Told κ ι} (hgroup : g.groupId = groupIds k)
    (hsession : g.actionBuilder.session = none ∨ g.actionBuilder.session = definitions.session)
    (hready : g.prepared = true → Configured handle definitions g ∧ told.registered k = g.baseValueBufs)
    (hothers : ∀ j, j ≠ k → told.registered j = w.told.registered j)
    (hknows : Knows handle definitions groupIds
      ((after definitions w.sent).receive definitions datagram) told) :
    Invariant definitions groupIds (w.behind k g true (some datagram) told) := by
  rw [← after_append] at hknows
  exact hw.update hgroup hsession hready hothers hknows

variable [DecidableEq ι]

/-- **`configure`.** -/
theorem Invariant.configure (hw : Invariant definitions groupIds w) (hids : definitions.UniqueIds)
    (hsession : definitions.session = some controllerId) (hc : controllerId ≠ 0)
    (hgroups : Function.Injective groupIds) {snapshot : TelemetryDefinitions} {answer : SocketAnswer}
    {later : Bool} (hok : Guarded definitions std w (.configure k snapshot answer later))
    (h : w.step definitions std (.configure k snapshot answer later) = some w') :
    Invariant definitions groupIds w' := by
  obtain ⟨hsnap, hsnapshot, hfits⟩ := hok
  rw [step] at h
  by_cases hguard : snapshot.session = none ∨ (w.groups k).telemetries = []
  · -- the call returns at once
    have hfails : (w.groups k).configure handle snapshot std answer later
        = (false, none, w.groups k) := if_pos (by rwa [List.isEmpty_iff])
    rw [hfails] at h
    obtain rfl := Option.some.inj h
    exact hw.behind_quiet (hw.groupId k) (hw.session k) (hw.ready k)
  · rw [not_or] at hguard
    have hsame : snapshot.session = some controllerId :=
      (hsnapshot.resolve_left hguard.1).trans hsession
    rw [configure_registered hsame hc hguard.2] at h
    obtain ⟨bufs, hbufs⟩ :
      ∃ bufs, bufs = registeredHandles handle snapshot std (w.groups k).telemetries := ⟨_, rfl⟩
    have hregistered : Registered handle definitions bufs bufs := by
      rw [hbufs]
      exact Registered.of_snapshot hsnap
        (registered_filter std (UniqueIds.of_snapshot hsnap hids) (w.groups k).telemetries)
    have hrefs : bufs.map (refId handle snapshot) = bufs.map (refId handle definitions) := by
      refine List.map_congr_left fun t ht => (refId_of_snapshot hsnap ?_).symm
      rw [hbufs] at ht
      simpa using List.of_mem_filter ht
    rw [← hbufs] at hfits
    dsimp only at h
    rw [← hbufs, hrefs, hw.groupId k] at h
    obtain rfl := Option.some.inj h
    cases completes answer later with
    | false =>
        refine hw.behind_quiet rfl (.inr (hsame.trans hsession.symm)) ?_
        intro hprepared
        cases hprepared
    | true =>
        refine hw.behind_sent rfl (.inr (hsame.trans hsession.symm)) (fun _ => ⟨?_, ?_⟩) ?_
          (hw.knows.register hsession hids hgroups hregistered.resolved hfits.1)
        · exact ⟨hregistered, rfl, rfl, hfits, hsame.trans hsession.symm⟩
        · exact Function.update_self _ _ _
        · exact fun j hj => Function.update_of_ne hj _ _

/-- **`disable`.** -/
theorem Invariant.disable (hw : Invariant definitions groupIds w) (hids : definitions.UniqueIds)
    (hsession : definitions.session = some controllerId) (hc : controllerId ≠ 0)
    (hgroups : Function.Injective groupIds) {answer : SocketAnswer} {later : Bool}
    (hok : Guarded definitions std w (.disable k answer later))
    (h : w.step definitions std (.disable k answer later) = some w') :
    Invariant definitions groupIds w' := by
  rw [step] at h
  rcases hw.session k with hnone | hsame
  · -- a group that was never configured
    have hfails : (w.groups k).disable answer later = (.failed, none, w.groups k) := by
      rw [TelemetryUpdateGroup.disable, startBuilding, ActionBuilder.controllerId, hnone]
      rfl
    rw [hfails] at h
    obtain rfl := Option.some.inj h
    exact hw.behind_quiet (hw.groupId k) (hw.session k) (hw.ready k)
  · rw [disable_told (hsame.trans hsession) hc hok] at h
    have hunprepared : ∀ {P : Prop}, false = true → P := by
      intro P hfalse
      cases hfalse
    dsimp only at h
    rw [hw.groupId k] at h
    obtain rfl := Option.some.inj h
    cases completes answer later with
    | false => exact hw.behind_quiet rfl (hw.session k) hunprepared
    | true =>
        have hknows : Knows handle definitions groupIds ((after definitions w.sent).receive definitions
            (Action.encode ⟨controllerId, 0, actionRegisterTelemetryGroup,
              registration (groupIds k) ([].map (refId handle definitions)) 0⟩))
            (w.told.register k []) :=
          hw.knows.register hsession hids hgroups (List.forall_mem_nil _)
            (by rw [List.length_nil]; decide)
        exact hw.behind_sent rfl (hw.session k) hunprepared
          (fun j hj => Function.update_of_ne hj _ _) hknows

/-- **`send`.** -/
theorem Invariant.send (hw : Invariant definitions groupIds w) (hids : definitions.UniqueIds)
    (hsession : definitions.session = some controllerId) (hc : controllerId ≠ 0)
    {answer : SocketAnswer} (hok : Guarded definitions std w (.send k answer))
    (h : w.step definitions std (.send k answer) = some w') : Invariant definitions groupIds w' := by
  rw [step] at h
  cases hprepared : (w.groups k).prepared with
  | false =>
      have hfails : (w.groups k).send handle w.values answer = (.failed, none, w.groups k) :=
        if_neg (by rw [hprepared]; exact Bool.false_ne_true)
      rw [hfails] at h
      obtain rfl := Option.some.inj h
      exact hw.behind_quiet (hw.groupId k) (hw.session k) (hw.ready k)
  | true =>
      obtain ⟨hempty, hagree⟩ := hok hprepared
      obtain ⟨hready, htold⟩ := hw.ready k hprepared
      obtain ⟨result, b, payload, hsend, hb, hfits, hgroup, hdecode⟩ :=
        hready.send_told hids hsession hc hprepared hempty hagree answer
      have hready' : Configured handle definitions { w.groups k with actionBuilder := b } :=
        ⟨hready.registered, hready.entries, hready.setSize, hready.fits, hb.trans hready.session⟩
      rw [hw.groupId k] at hgroup
      rw [hsend] at h
      obtain rfl := Option.some.inj h
      by_cases hcomplete : result = .complete
      · rw [decide_eq_true hcomplete]
        exact hw.behind_sent (hw.groupId k) (.inr hready'.session) (fun _ => ⟨hready', htold⟩)
          (fun _ _ => rfl) (hw.knows.publish hsession hids hready.registered htold hfits hgroup hdecode)
      · rw [decide_eq_false hcomplete]
        exact hw.behind_quiet (hw.groupId k) (.inr hready'.session) fun _ => ⟨hready', htold⟩

/-- **One step** keeps the invariant. -/
theorem step_invariant (hids : definitions.UniqueIds)
    (hsession : definitions.session = some controllerId) (hc : controllerId ≠ 0)
    (hgroups : Function.Injective groupIds) {l : TelemetryStep κ handle}
    (hw : Invariant definitions groupIds w) (hok : Guarded definitions std w l)
    (h : w.step definitions std l = some w') : Invariant definitions groupIds w' := by
  cases l with
  | assign t value =>
      obtain rfl := Option.some.inj h
      exact ⟨hw.groupId, hw.session, hw.ready, hw.knows⟩
  | set k telemetries | add k telemetries =>
      obtain rfl := Option.some.inj h
      refine hw.update (hw.groupId k) (hw.session k) ?_ (fun _ _ => rfl) hw.knows
      intro hprepared
      cases hprepared
  | configure k snapshot answer later => exact hw.configure hids hsession hc hgroups hok h
  | disable k answer later => exact hw.disable hids hsession hc hgroups hok h
  | send k answer => exact hw.send hids hsession hc hok h

/-- **The backend knows what it was told**, in every run of groups with different ids whose steps meet
the condition; and a group that is prepared is registered with its current handles. -/
theorem backend_knows (hids : definitions.UniqueIds)
    (hsession : definitions.session = some controllerId) (hc : controllerId ≠ 0)
    (hgroups : Function.Injective groupIds) {values : ∀ t, (handle t).scalar.Value}
    {ls : List (TelemetryStep κ handle)}
    (hok : Runs.Meets (step definitions std) (Guarded definitions std) (start groupIds values) ls)
    (h : exec (step definitions std) (start groupIds values) ls = some w) :
    Knows handle definitions groupIds (after definitions w.sent) w.told ∧
      ∀ k, (w.groups k).prepared = true → w.told.registered k = (w.groups k).baseValueBufs := by
  have hw := hok.invariant (step_invariant hids hsession hc hgroups) (invariant_start values) h
  exact ⟨hw.knows, fun k hprepared => (hw.ready k hprepared).2⟩

end

/-- Two groups share a bool, and the second one sends a new value of it before the first is disabled. -/
def boolRun : List (TelemetryStep Bool (boolHandle 2)) :=
  [.set false [0, 1], .configure false (boolTable 2) .sent true, .send false .sent, .add true [1],
    .configure true (boolTable 2) .wouldBlock true, .assign 1 1, .send true .sent,
    .disable false .sent true]

theorem backend_knows_bools :
    ∃ w, exec (step (boolTable 2) .insertion) (start (fun k => if k then 8 else 7) (firstTrue 2)) boolRun
        = some w ∧
      Knows (boolHandle 2) (boolTable 2) (fun k => if k then 8 else 7) (after (boolTable 2) w.sent)
        w.told ∧
      ∀ k, (w.groups k).prepared = true → w.told.registered k = (w.groups k).baseValueBufs := by
  have hok : Runs.Meets (step (boolTable 2) .insertion) (Guarded (boolTable 2) .insertion)
      (start (fun k => if k then 8 else 7) (firstTrue 2)) boolRun := by
    decide +kernel
  have hgroups : Function.Injective fun k : Bool => if k then (8 : UInt16) else 7 := by
    decide
  exact ⟨_, rfl, backend_knows ⟨by decide, by decide⟩ rfl (by decide : (1 : UInt16) ≠ 0) hgroups hok rfl⟩

/-- The backend shows the new value, and the first group is gone. -/
example : ((exec (step (boolTable 2) .insertion) (start (fun k => if k then 8 else 7) (firstTrue 2))
      boolRun).map fun w => ((after (boolTable 2) w.sent).values 2,
        (after (boolTable 2) w.sent).groups 7)) = some (some ⟨.bool, 1⟩, []) := by
  decide +kernel

end TelemetryUse

end ScApi
