import ScApi.TelemetryPacket

/-!
# What `configure` sends

On a registered session `configure` makes one action from the handles that resolve. The size of a
packet is never zero, not even without a value: the words for the bools are rounded up together with
the four bytes in front of them. So the test that is to leave a group without a resolved handle alone
never holds, and such a group is registered without an id.

## Main results

* `expectedSize_pos`: the size of a packet is not zero.
* `configure_registered`: the result, the datagram and the group, on a registered session.
* `configure_cases`: what a successful `configure` registers, keeps and sends.
* `mem_ids_iff`: the ids that are registered are those of the handles that resolve.
* `configuresRight_iff`: when `configure` does what it is meant for.
-/

open Bytes Buffer Sorting

namespace ScApi

/-! ### One blocking send -/

namespace ActionBuilder

/-- Whether a blocking send succeeds. -/
def completes (answer : SocketAnswer) (later : Bool) : Bool :=
  answer = .sent ∨ answer = .wouldBlock ∧ later

variable {b : ActionBuilder}

theorem sendBlocking_eq (hsession : b.session ≠ none) (hbuffer : b.buffer ≠ [])
    (answer : SocketAnswer) (later : Bool) :
    b.sendBlocking answer later = (if completes answer later then .complete else .failed,
      some b.finalize.buffer, { session := b.session }) := by
  have hidle : ¬ b.idle = true := by
    rw [idle, decide_eq_true_iff, not_or]
    exact ⟨hsession, hbuffer⟩
  rw [sendBlocking, if_neg hidle]
  cases answer with
  | sent | error => rfl
  | wouldBlock => cases later <;> rfl

/-- A write into the payload leaves what is in front of it. -/
theorem buffer_writePayload {head payload : List UInt8} (hb : b.buffer = head ++ payload)
    (hhead : head.length = b.curStartIdx + actionHeaderSize) (i : ℕ) (bytes : List UInt8) :
    (b.writePayload i bytes).buffer = head ++ overwrite payload i bytes := by
  rw [writePayload]
  dsimp only
  rw [hb, ← hhead, overwrite_append_right]

/-- The header and the payload of a builder that starts with an empty buffer. -/
theorem buffer_startBuilding {controllerId actionId flags : UInt16} {n : ℕ}
    (hempty : b.buffer = []) (hc : b.controllerId = some controllerId) :
    ∃ b', b.startBuilding actionId n flags = (some actionHeaderSize, b') ∧
      b'.session = b.session ∧ b'.curStartIdx = 0 ∧
      b'.buffer = actionHeader controllerId flags actionId (UInt16.ofNat (actionHeaderSize + n))
        ++ List.replicate n 0 := by
  have hsize : b.size32 = 0 := by rw [size32, hempty, List.length_nil, Nat.zero_mod]
  have hresize : resize 0 b.buffer (b.size32 + actionHeaderSize + n)
      = List.replicate actionHeaderSize 0 ++ List.replicate n (0 : UInt8) := by
    rw [hempty, hsize, resize_of_length_le (Nat.zero_le _), List.length_nil, Nat.zero_add,
      Nat.sub_zero, List.nil_append, ← List.replicate_add]
  have hheader : (actionHeader controllerId flags actionId
      (UInt16.ofNat (actionHeaderSize + n))).length = actionHeaderSize := by
    simp [actionHeader, actionHeaderSize]
  have hwrite : overwrite (List.replicate actionHeaderSize 0 ++ List.replicate n 0) 0
      (actionHeader controllerId flags actionId (UInt16.ofNat (actionHeaderSize + n)))
      = actionHeader controllerId flags actionId (UInt16.ofNat (actionHeaderSize + n))
        ++ List.replicate n 0 :=
    overwrite_middle (l := []) (hheader.trans List.length_replicate.symm)
  rw [startBuilding, hc]
  dsimp only
  rw [hresize, hwrite, hsize, Nat.zero_add]
  exact ⟨_, rfl, rfl, rfl, rfl⟩

/-- Writing the size makes the action complete. -/
theorem buffer_finalize {controllerId actionId flags size : UInt16} {payload : List UInt8}
    (hcur : b.curStartIdx = 0)
    (hbuffer : b.buffer = actionHeader controllerId flags actionId size ++ payload) :
    b.finalize.buffer = Action.encode ⟨controllerId, flags, actionId, payload⟩ := by
  have hfront : (toLe 2 controllerId.toNat ++ toLe 2 flags.toNat ++ toLe 2 actionId.toNat).length
      = sizeOffset := by
    simp [sizeOffset]
  have hlength : b.buffer.length = actionHeaderSize + payload.length := by
    rw [hbuffer, List.length_append]
    simp [actionHeader, actionHeaderSize]
  rw [finalize]
  dsimp only
  rw [hlength, hbuffer, hcur, Nat.zero_add, Nat.sub_zero, actionHeader, ← hfront,
    overwrite_middle (by rw [length_toLe, length_toLe])]
  rfl

end ActionBuilder

namespace TelemetryUpdateGroup

open ActionBuilder

variable {ι : Type*} {handle : ι → TelemetryInfo} {definitions : TelemetryDefinitions}

/-! ### What is sent -/

/-- The payload of a registration. -/
def registration (groupId : UInt16) (ids : List UInt16) (size : ℕ) : List UInt8 :=
  toLe 2 groupId.toNat ++ toLe 2 ids.length ++ toLe 2 size ++ ids.flatMap fun id => toLe 2 id.toNat

theorem length_registration (groupId : UInt16) (ids : List UInt16) (size : ℕ) :
    (registration groupId ids size).length = 6 + 2 * ids.length := by
  rw [registration, List.length_append, List.length_append, List.length_append, length_toLe,
    length_toLe, length_toLe, length_flatMap fun _ => length_toLe _ _]

theorem count_registration {groupId : UInt16} {ids : List UInt16} {size : ℕ}
    (h : ids.length < 65536) :
    ofLe (((registration groupId ids size).drop 2).take 2) = ids.length := by
  have hsplit : registration groupId ids size = toLe 2 groupId.toNat ++ (toLe 2 ids.length
      ++ (toLe 2 size ++ ids.flatMap fun id => toLe 2 id.toNat)) := by
    rw [registration]
    simp only [List.append_assoc]
  rw [hsplit, List.drop_left' (length_toLe _ _), List.take_left' (length_toLe _ _),
    ofLe_toLe_of_lt h]

theorem drop_encode (a : Action) : a.encode.drop actionHeaderSize = a.payload := by
  rw [Action.encode, Action.bytesWith]
  exact List.drop_left' (a.length_head (length_toLe _ _))

/-- **The writes into the payload of a registration**, over whatever was there. -/
theorem overwrite_registration {front ids group count size : List UInt8}
    (hfront : front.length = 6 + ids.length) (hgroup : group.length = 2) (hcount : count.length = 2)
    (hsize : size.length = 2) :
    overwrite (overwrite (overwrite (overwrite front 6 ids) 0 group) 2 count) 4 size
      = group ++ count ++ size ++ ids := by
  obtain ⟨x, y, z, hx, hy, hz, hsplit⟩ : ∃ x y z : List UInt8, x.length = 2 ∧ y.length = 2 ∧
      z.length = 2 ∧ overwrite front 6 ids = x ++ (y ++ (z ++ ids)) := by
    refine ⟨front.take 2, (front.drop 2).take 2, (front.drop 4).take 2, ?_, ?_, ?_, ?_⟩
    · rw [List.length_take]
      omega
    · rw [List.length_take, List.length_drop]
      omega
    · rw [List.length_take, List.length_drop]
      omega
    · have htake : front.take 6 = front.take 2 ++ ((front.drop 2).take 2 ++ (front.drop 4).take 2) := by
        rw [List.take_add (i := 2) (j := 4), List.take_add (l := front.drop 2) (i := 2) (j := 2),
          List.drop_drop]
      rw [overwrite, List.drop_of_length_le hfront.le, List.append_nil, htake]
      simp only [List.append_assoc]
  have h₀ : overwrite (x ++ (y ++ (z ++ ids))) 0 group = group ++ (y ++ (z ++ ids)) :=
    overwrite_middle (l := []) (hgroup.trans hx.symm)
  have h₁ : overwrite (group ++ y ++ (z ++ ids)) group.length count = group ++ count ++ (z ++ ids) :=
    overwrite_middle (hcount.trans hy.symm)
  have h₂ : overwrite (group ++ count ++ z ++ ids) (group ++ count).length size
      = group ++ count ++ size ++ ids := overwrite_middle (hsize.trans hz.symm)
  rw [hgroup] at h₁
  rw [List.length_append, hgroup, hcount] at h₂
  rw [hsplit, h₀, ← List.append_assoc group, h₁, ← List.append_assoc (group ++ count), h₂]

/-- **The size of a packet is not zero**, whatever is registered. -/
theorem expectedSize_pos (entries : ℤ → UInt16) : 0 < expectedSize entries := by
  rw [expectedSize]
  omega

/-- The handles behind sorting and `std::unique`. -/
def sortedHandles (handle : ι → TelemetryInfo) (definitions : TelemetryDefinitions)
    (std : StdSort ι) (telemetries : List ι) : List ι :=
  unique (same handle definitions) (std.sort (before handle definitions) telemetries)

/-- The handles that are registered. -/
def registeredHandles (handle : ι → TelemetryInfo) (definitions : TelemetryDefinitions)
    (std : StdSort ι) (telemetries : List ι) : List ι :=
  (sortedHandles handle definitions std telemetries).filter (refId handle definitions · ≠ 0)

section Configure

variable {std : StdSort ι} {g : TelemetryUpdateGroup ι} {controllerId : UInt16}

/-- **What `configure` does on a registered session.** -/
theorem configure_registered (hsession : definitions.session = some controllerId)
    (hc : controllerId ≠ 0) (hne : g.telemetries ≠ []) (answer : SocketAnswer) (later : Bool) :
    configure handle definitions std answer later g =
      let bufs := registeredHandles handle definitions std g.telemetries
      let size := expectedSize (entriesBySize handle bufs)
      (completes answer later,
        some (Action.encode ⟨controllerId, 0, actionRegisterTelemetryGroup,
          registration g.groupId (bufs.map (refId handle definitions)) size⟩),
        { g with
          telemetries := sortedHandles handle definitions std g.telemetries
          baseValueBufs := bufs
          baseValueEntriesBySize := entriesBySize handle bufs
          actionBuilder := { session := definitions.session }
          setPayloadSize := UInt16.ofNat (size + 4)
          prepared := completes answer later }) := by
  have hguard : ¬ (definitions.session = none ∨ g.telemetries.isEmpty = true) := by
    rw [hsession, List.isEmpty_iff]
    exact fun h => h.elim (Option.some_ne_none _) hne
  obtain ⟨bufs, hbufs⟩ :
      ∃ bufs, bufs = registeredHandles handle definitions std g.telemetries := ⟨_, rfl⟩
  rw [configure, if_neg hguard]
  dsimp only
  rw [← sortedHandles, ← registeredHandles, ← hbufs]
  obtain ⟨size, hsize⟩ : ∃ size, size = expectedSize (entriesBySize handle bufs) := ⟨_, rfl⟩
  have hsizeNe : ¬ size = 0 := by
    have := expectedSize_pos (entriesBySize handle bufs)
    omega
  rw [← hsize, if_neg hsizeNe]
  obtain ⟨b, hb⟩ : ∃ b : ActionBuilder, b = { session := definitions.session } := ⟨_, rfl⟩
  have hcontroller : b.controllerId = some controllerId := by
    rw [ActionBuilder.controllerId, hb, hsession]
    simp [hc]
  rw [← hb]
  obtain ⟨b₀, hstart, hsession₀, hcur, hbuffer⟩ : ∃ b₀, b.startBuilding
      actionRegisterTelemetryGroup (6 + 2 * bufs.length) 0 = (some actionHeaderSize, b₀) ∧
      b₀.session = b.session ∧ b₀.curStartIdx = 0 ∧
      b₀.buffer = actionHeader controllerId 0 actionRegisterTelemetryGroup
        (UInt16.ofNat (actionHeaderSize + (6 + 2 * bufs.length)))
          ++ List.replicate (6 + 2 * bufs.length) 0 :=
    buffer_startBuilding (by rw [hb]) hcontroller
  have hbuilding := (building_startBuilding hstart).1
  rw [hstart]
  dsimp only
  rw [writeIds_eq hbuilding (by rw [List.length_map])]
  obtain ⟨ids, hids⟩ : ∃ ids, ids = (bufs.map (refId handle definitions)).flatMap
    fun id => toLe 2 id.toNat := ⟨_, rfl⟩
  have hidsLength : ids.length = 2 * bufs.length := by
    rw [hids, length_flatMap (w := 2) (fun _ => length_toLe _ _), List.length_map]
  have hlength : (actionHeader controllerId 0 actionRegisterTelemetryGroup
      (UInt16.ofNat (actionHeaderSize + (6 + 2 * bufs.length)))).length
        = b₀.curStartIdx + actionHeaderSize := by
    rw [hcur]
    simp [actionHeader, actionHeaderSize]
  rw [← hids]
  -- the four writes make the payload
  have h₁ := buffer_writePayload hbuffer hlength 6 ids
  have h₂ := buffer_writePayload h₁ hlength 0 (toLe 2 g.groupId.toNat)
  have h₃ := buffer_writePayload h₂ hlength 2 (toLe 2 bufs.length)
  have h₄ := buffer_writePayload h₃ hlength 4 (toLe 2 size)
  rw [overwrite_registration (by rw [List.length_replicate, hidsLength]) (length_toLe _ _)
    (length_toLe _ _) (length_toLe _ _)] at h₄
  obtain ⟨b₄, hb₄⟩ : ∃ b₄, b₄ = (((b₀.writePayload 6 ids).writePayload 0
    (toLe 2 g.groupId.toNat)).writePayload 2 (toLe 2 bufs.length)).writePayload 4 (toLe 2 size) :=
    ⟨_, rfl⟩
  have hsession₄ : b₄.session = some controllerId := by
    have hkept : b₄.session = b₀.session := by
      rw [hb₄]
      rfl
    rw [hkept, hsession₀, hb, hsession]
  have hcur₄ : b₄.curStartIdx = 0 := by
    rw [hb₄]
    exact hcur
  rw [← hb₄] at h₄ ⊢
  have hfinal := buffer_finalize hcur₄ h₄
  have hnonempty : b₄.buffer ≠ [] := by
    intro hnil
    have hlen := congrArg List.length (hnil.symm.trans h₄)
    rw [List.length_nil, List.length_append, hlength, actionHeaderSize] at hlen
    omega
  rw [sendBlocking_eq (by rw [hsession₄]; exact Option.some_ne_none _) hnonempty, hfinal, hsession₄,
    hb, hsession]
  have hpayload : registration g.groupId (bufs.map (refId handle definitions)) size
      = toLe 2 g.groupId.toNat ++ toLe 2 bufs.length ++ toLe 2 size ++ ids := by
    rw [registration, List.length_map, hids]
  rw [hpayload]
  cases completes answer later <;> rfl

variable {answer : SocketAnswer} {later : Bool} {datagram : List UInt8} {g' : TelemetryUpdateGroup ι}

/-- **A successful `configure`** has a registered session and some handle. -/
theorem exists_session
    (h : configure handle definitions std answer later g = (true, some datagram, g')) :
    ∃ controllerId, definitions.session = some controllerId ∧ controllerId ≠ 0 ∧
      g.telemetries ≠ [] := by
  rw [configure] at h
  by_cases hguard : definitions.session = none ∨ g.telemetries.isEmpty = true
  · rw [if_pos hguard] at h
    cases h
  rw [not_or, List.isEmpty_iff] at hguard
  obtain ⟨controllerId, hsession⟩ := Option.ne_none_iff_exists'.mp hguard.1
  refine ⟨controllerId, hsession, ?_, hguard.2⟩
  rintro rfl
  rw [if_neg (by rw [not_or, List.isEmpty_iff]; exact hguard)] at h
  have hnone : ∀ n, ActionBuilder.startBuilding actionRegisterTelemetryGroup n 0
      { session := definitions.session } = (none, { session := definitions.session }) := by
    intro n
    rw [hsession]
    rfl
  dsimp only at h
  rw [hnone] at h
  split_ifs at h <;> cases h

/-- **What a successful `configure` registers, keeps and sends.** -/
theorem configure_cases (hids : definitions.UniqueIds)
    (h : configure handle definitions std answer later g = (true, some datagram, g')) :
    Registered handle definitions g.telemetries g'.baseValueBufs ∧
      g'.baseValueEntriesBySize = entriesBySize handle g'.baseValueBufs ∧
      g'.setPayloadSize = UInt16.ofNat (expectedSize g'.baseValueEntriesBySize + 4) ∧
      ∃ controllerId, controllerId ≠ 0 ∧ datagram = Action.encode ⟨controllerId, 0,
        actionRegisterTelemetryGroup, registration g.groupId
          (g'.baseValueBufs.map (refId handle definitions))
          (expectedSize g'.baseValueEntriesBySize)⟩ := by
  obtain ⟨controllerId, hsession, hc, hne⟩ := exists_session h
  rw [configure_registered hsession hc hne] at h
  obtain ⟨-, h⟩ := Prod.mk.inj h
  obtain ⟨hdatagram, rfl⟩ := Prod.mk.inj h
  exact ⟨registered_filter std hids g.telemetries, rfl, rfl, controllerId, hc,
    (Option.some.inj hdatagram).symm⟩

end Configure

/-! ### Which ids are registered -/

/-- A handle resolves to the telemetry with an id. -/
def ResolvesTo (handle : ι → TelemetryInfo) (definitions : TelemetryDefinitions) (t : ι)
    (id : UInt16) : Prop :=
  ∃ d, definitions.find (handle t).name (handle t).type = some d ∧ d.id = id

/-- The index of the size of the telemetry with an id. -/
def idSizeIndex (definitions : TelemetryDefinitions) (id : UInt16) : ℤ :=
  (definitions.scalarOf id).elim (-1) fun s => baseTypeSizeIndex s.baseType

section Ids

variable {std : StdSort ι} {telemetries : List ι} {t : ι} {id : UInt16}

theorem resolvesTo_iff (hids : definitions.UniqueIds) :
    ResolvesTo handle definitions t id ↔ refId handle definitions t = id ∧ id ≠ 0 := by
  rw [ResolvesTo, refId]
  cases hfind : definitions.find (handle t).name (handle t).type with
  | none =>
      refine iff_of_false (fun h => by simp at h) ?_
      rintro ⟨rfl, hne⟩
      exact hne rfl
  | some d =>
      have hne := hids.ne_zero d (List.mem_of_find?_eq_some hfind)
      constructor
      · rintro ⟨d', heq, rfl⟩
        obtain rfl := Option.some.inj heq
        exact ⟨rfl, hne⟩
      · rintro ⟨rfl, -⟩
        exact ⟨d, rfl, rfl⟩

/-- **Each handle that resolves is registered**, or one with its id is. -/
theorem exists_registered (ht : t ∈ telemetries) (hresolved : refId handle definitions t ≠ 0) :
    ∃ t' ∈ registeredHandles handle definitions std telemetries,
      refId handle definitions t' = refId handle definitions t := by
  have hsorted : t ∈ std.sort (before handle definitions) telemetries :=
    (std.perm _ _).mem_iff.mpr ht
  obtain ⟨t', ht', hor⟩ : ∃ t' ∈ sortedHandles handle definitions std telemetries,
    t' = t ∨ same handle definitions t' t = true := exists_mem_unique hsorted
  have hid : refId handle definitions t' = refId handle definitions t := by
    rcases hor with rfl | hsame
    · rfl
    · rw [same] at hsame
      split_ifs at hsame
      exact of_decide_eq_true hsame
  exact ⟨t', List.mem_filter.mpr ⟨ht', by rw [hid]; exact decide_eq_true hresolved⟩, hid⟩

/-- **The ids that are registered** are those of the handles that resolve. -/
theorem mem_ids_iff (hids : definitions.UniqueIds) :
    id ∈ (registeredHandles handle definitions std telemetries).map (refId handle definitions) ↔
      ∃ t ∈ telemetries, ResolvesTo handle definitions t id := by
  have hregistered : Registered handle definitions telemetries
    (registeredHandles handle definitions std telemetries) := registered_filter std hids telemetries
  rw [List.mem_map]
  constructor
  · rintro ⟨t, ht, rfl⟩
    exact ⟨t, hregistered.mem t ht, (resolvesTo_iff hids).mpr ⟨rfl, hregistered.resolved t ht⟩⟩
  · rintro ⟨t, ht, hresolves⟩
    obtain ⟨rfl, hne⟩ := (resolvesTo_iff hids).mp hresolves
    exact exists_registered ht hne

theorem idSizeIndex_refId (hids : definitions.UniqueIds)
    (hresolved : refId handle definitions t ≠ 0) :
    idSizeIndex definitions (refId handle definitions t) = sizeIndex handle t := by
  rw [idSizeIndex, scalarOf_refId hids hresolved, sizeIndex_eq]
  rfl

/-- The ids come in the order of the sizes. -/
theorem Registered.ids_pairwise {bufs : List ι} (hids : definitions.UniqueIds)
    (h : Registered handle definitions telemetries bufs) :
    (bufs.map (refId handle definitions)).Pairwise fun a b =>
      idSizeIndex definitions a ≤ idSizeIndex definitions b := by
  rw [List.pairwise_map]
  refine List.Pairwise.imp_of_mem (fun ha hb hle => ?_) h.sorted
  rwa [idSizeIndex_refId hids (h.resolved _ ha), idSizeIndex_refId hids (h.resolved _ hb)]

end Ids

/-! ### When `configure` does what it is meant for -/

/-- **The datagram registers some ids**: it is one action, which counts the ids and lists each of them
once, in the order of the sizes, and they are the ids of the handles that resolve. -/
structure RegistersIds (handle : ι → TelemetryInfo) (definitions : TelemetryDefinitions)
    (g : TelemetryUpdateGroup ι) (ids : List UInt16) (datagram : List UInt8) : Prop where
  action : ∃ controllerId size, datagram = Action.encode ⟨controllerId, 0,
    actionRegisterTelemetryGroup, registration g.groupId ids size⟩
  single : actionFraming.split datagram = ([datagram], [])
  count : ofLe (((datagram.drop actionHeaderSize).drop 2).take 2) = ids.length
  once : ids.Nodup
  resolved : ∀ id, id ∈ ids ↔ ∃ t ∈ g.telemetries, ResolvesTo handle definitions t id
  bySize : ids.Pairwise fun a b => idSizeIndex definitions a ≤ idSizeIndex definitions b

/-- **What `configure` is meant for**: it succeeds when some handle resolves, registers the handles that
do, and sends nothing when none does. -/
structure ConfiguresRight (handle : ι → TelemetryInfo) (definitions : TelemetryDefinitions)
    (g : TelemetryUpdateGroup ι)
    (outcome : Bool × Option (List UInt8) × TelemetryUpdateGroup ι) : Prop where
  success : outcome.1 = true ↔ ∃ t ∈ g.telemetries, ∃ id, ResolvesTo handle definitions t id
  silent : (¬ ∃ t ∈ g.telemetries, ∃ id, ResolvesTo handle definitions t id) → outcome.2.1 = none
  registers : (∃ t ∈ g.telemetries, ∃ id, ResolvesTo handle definitions t id) →
    ∃ datagram ids, outcome.2.1 = some datagram ∧ RegistersIds handle definitions g ids datagram

/-- The registration of the handles that resolve. -/
theorem registersIds (std : StdSort ι) (hids : definitions.UniqueIds) {g : TelemetryUpdateGroup ι}
    (hlength : g.telemetries.length < 32000) (controllerId : UInt16) (size : ℕ) :
    RegistersIds handle definitions g
      ((registeredHandles handle definitions std g.telemetries).map (refId handle definitions))
      (Action.encode ⟨controllerId, 0, actionRegisterTelemetryGroup, registration g.groupId
        ((registeredHandles handle definitions std g.telemetries).map (refId handle definitions))
        size⟩) := by
  have hregistered : Registered handle definitions g.telemetries
    (registeredHandles handle definitions std g.telemetries) :=
    registered_filter std hids g.telemetries
  obtain ⟨ids, heq⟩ : ∃ ids, ids = (registeredHandles handle definitions std g.telemetries).map
    (refId handle definitions) := ⟨_, rfl⟩
  have hcount : ids.length < 32000 := by
    have hsorted := ((std.perm (before handle definitions) g.telemetries).length_eq)
    have hunique := (unique_sublist (same handle definitions)
      (std.sort (before handle definitions) g.telemetries)).length_le
    have hfilter := List.length_filter_le (refId handle definitions · ≠ 0)
      (sortedHandles handle definitions std g.telemetries)
    rw [heq, List.length_map]
    exact hfilter.trans_lt ((hunique.trans hsorted.le).trans_lt hlength)
  have honce := hregistered.nodup
  have hbySize := hregistered.ids_pairwise hids
  have hmem : ∀ id, id ∈ (registeredHandles handle definitions std g.telemetries).map
      (refId handle definitions) ↔ ∃ t ∈ g.telemetries, ResolvesTo handle definitions t id :=
    fun _ => mem_ids_iff hids
  rw [← heq] at honce hbySize hmem ⊢
  refine ⟨⟨_, _, rfl⟩, ?_, ?_, honce, hmem, hbySize⟩
  · have hfits : (⟨controllerId, 0, actionRegisterTelemetryGroup,
        registration g.groupId ids size⟩ : Action).Fits := by
      rw [Action.Fits, Action.size, length_registration, actionHeaderSize]
      omega
    have hsplit := split_encode (List.forall_mem_singleton.mpr hfits)
    simpa using hsplit
  · rw [drop_encode]
    exact count_registration (by omega)

/-- **When `configure` does what it is meant for**, on a session whose sends succeed: when there is no
handle at all, or one that resolves. -/
theorem configuresRight_iff (std : StdSort ι) (hids : definitions.UniqueIds)
    {g : TelemetryUpdateGroup ι} {controllerId : UInt16} {answer : SocketAnswer} {later : Bool}
    (hsession : definitions.session = some controllerId) (hc : controllerId ≠ 0)
    (hsends : completes answer later = true) (hlength : g.telemetries.length < 32000) :
    ConfiguresRight handle definitions g (configure handle definitions std answer later g) ↔
      g.telemetries = [] ∨ ∃ t ∈ g.telemetries, ∃ id, ResolvesTo handle definitions t id := by
  by_cases hnil : g.telemetries = []
  · have hfails : configure handle definitions std answer later g = (false, none, g) :=
      if_pos (.inr (List.isEmpty_iff.mpr hnil))
    have hnone : ¬ ∃ t ∈ g.telemetries, ∃ id, ResolvesTo handle definitions t id := by
      rw [hnil]
      simp
    rw [hfails]
    exact iff_of_true ⟨iff_of_false Bool.false_ne_true hnone, fun _ => rfl, fun h => absurd h hnone⟩
      (.inl hnil)
  · rw [or_iff_right hnil, configure_registered hsession hc hnil, hsends]
    constructor
    · intro h
      exact h.success.mp rfl
    · intro h
      exact ⟨iff_of_true rfl h, fun hnone => absurd h hnone,
        fun _ => ⟨_, _, rfl, registersIds std hids hlength controllerId _⟩⟩

/-- A table of `n` bools. -/
def boolTable (n : ℕ) : TelemetryDefinitions where
  session := some 1
  defs := (List.range n).map fun k =>
    ⟨[UInt8.ofNat k], .ofBase .boolean, UInt16.ofNat (k + 1)⟩

/-- A handle to each of `n` bools. -/
def boolHandle (n : ℕ) (t : Fin n) : TelemetryInfo where
  name := [UInt8.ofNat t]
  scalar := .bool

/-- The group of `n` bools, configured. -/
def boolGroup (n : ℕ) : Bool × Option (List UInt8) × TelemetryUpdateGroup (Fin n) :=
  configure (boolHandle n) (boolTable n) .insertion .sent true
    { groupId := 7, telemetries := List.finRange n, actionBuilder := { session := none } }

theorem configuresRight_two :
    ConfiguresRight (boolHandle 2) (boolTable 2)
      { groupId := 7, telemetries := List.finRange 2, actionBuilder := { session := none } }
      (boolGroup 2) :=
  (configuresRight_iff .insertion ⟨by decide, by decide⟩ rfl (by decide : (1 : UInt16) ≠ 0) rfl
    (by decide)).mpr (.inr ⟨0, by decide, 1, ⟨[0], .ofBase .boolean, 1⟩, by decide +kernel, rfl⟩)

/-- **Without a telemetry of that name**, a group of one bool is registered all the same, without an
id. -/
theorem not_configuresRight :
    ∃ g, configure (boolHandle 1) ⟨some 1, []⟩ .insertion .sent true
        { groupId := 7, telemetries := [0], actionBuilder := { session := none } }
      = (true, some (Action.encode ⟨1, 0, actionRegisterTelemetryGroup, registration 7 [] 8⟩), g) ∧
    ¬ ConfiguresRight (boolHandle 1) ⟨some 1, []⟩
      { groupId := 7, telemetries := [0], actionBuilder := { session := none } }
      (configure (boolHandle 1) ⟨some 1, []⟩ .insertion .sent true
        { groupId := 7, telemetries := [0], actionBuilder := { session := none } }) := by
  refine ⟨_, configure_registered rfl (by decide) (by decide) .sent true, fun h => ?_⟩
  rw [configure_registered rfl (by decide : (1 : UInt16) ≠ 0) (by decide) .sent true] at h
  obtain ⟨t, -, id, d, hfind, -⟩ := h.success.mp rfl
  cases hfind

end TelemetryUpdateGroup

end ScApi
