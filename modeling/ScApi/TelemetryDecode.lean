import ScApi.TelemetryRegistration

/-!
# What the backend reads from a telemetry packet

The backend knows the ids of a group from its registration and their types from the definitions. So
it can decode the packets of the group: it takes the bools, in the order of their ids, from the bits
of little-endian 32-bit words, goes on at the next multiple of eight, and takes the values of eight,
four, two and one bytes from there.

`writeBools` never clears its word, so a bool is sent as true as soon as an earlier bool on the same
bit was. The packet is right exactly when this makes no difference.

## Main results

* `registeredIds_registration`: the ids in a registration.
* `decode_eq`: what a packet decodes to.
* `decodes_iff`: when a packet decodes to the current values.
-/

open Bytes Buffer Sorting

namespace ScApi

/-! ### Decoding -/

/-- The packet size in the payload of a registration. -/
def announcedSize (registered : List UInt8) : ℕ :=
  ofLe ((registered.drop 4).take 2)

/-- The ids in the payload of a registration. -/
def registeredIds (registered : List UInt8) : List UInt16 :=
  (List.range (ofLe ((registered.drop 2).take 2))).map fun k =>
    UInt16.ofNat (ofLe ((registered.drop (6 + 2 * k)).take 2))

/-- A value with its type. -/
abbrev AnyValue := (t : Scalar) × t.Value

/-- Bit `i` of the 32-bit words of a packet. -/
def decodeBit (packet : List UInt8) (i : ℕ) : Bool :=
  (ofLe ((packet.drop (4 + 4 * (i / 32))).take 4)).testBit (i % 32)

/-- The bools of a packet. -/
def decodeBools (ids : List UInt16) (packet : List UInt8) : List (UInt16 × AnyValue) :=
  ids.mapIdx fun i id => (id, ⟨.bool, BitVec.ofBool (decodeBit packet i)⟩)

/-- Values one behind another. -/
def decodeValues : List (UInt16 × Scalar) → List UInt8 → List (UInt16 × AnyValue)
  | [], _ => []
  | (id, t) :: ids, bytes =>
      (id, ⟨t, t.ofBytes (bytes.take t.size)⟩) :: decodeValues ids (bytes.drop t.size)

/-- The values of a packet, by the ids that are registered. -/
def decode (ids : List (UInt16 × Scalar)) (packet : List UInt8) : List (UInt16 × AnyValue) :=
  let bools := (ids.filter (·.2 = .bool)).map Prod.fst
  let ofSize := fun n => ids.filter fun x => x.2 ≠ .bool ∧ x.2.size = n
  decodeBools bools packet ++
    decodeValues (ofSize 8 ++ ofSize 4 ++ ofSize 2 ++ ofSize 1)
      (packet.drop ((4 + 4 * ((bools.length + 31) / 32) + 7) / 8 * 8))

namespace TelemetryUpdateGroup

variable {ι : Type*} {handle : ι → TelemetryInfo} {definitions : TelemetryDefinitions}

/-! ### What the backend is told -/

/-- The size that is announced is the one in the registration. -/
theorem announcedSize_registration (groupId : UInt16) (ids : List UInt16) (size : ℕ) :
    announcedSize (registration groupId ids size) = ofLe (toLe 2 size) := by
  have hsplit : registration groupId ids size = toLe 2 groupId.toNat ++ toLe 2 ids.length
      ++ (toLe 2 size ++ ids.flatMap fun id => toLe 2 id.toNat) := by
    rw [registration]
    simp only [List.append_assoc]
  rw [announcedSize, hsplit, List.drop_left' (by rw [List.length_append, length_toLe, length_toLe]),
    List.take_left' (length_toLe _ _)]

/-- **The ids are read in the order in which they are registered.** -/
theorem registeredIds_registration {groupId : UInt16} {ids : List UInt16} {size : ℕ}
    (h : ids.length < 65536) : registeredIds (registration groupId ids size) = ids := by
  have hfront : (toLe 2 groupId.toNat ++ toLe 2 ids.length ++ toLe 2 size).length = 6 := by
    rw [List.length_append, List.length_append, length_toLe, length_toLe, length_toLe]
  have hid : ∀ k (hk : k < ids.length),
      UInt16.ofNat (ofLe (((registration groupId ids size).drop (6 + 2 * k)).take 2)) = ids[k] := by
    intro k hk
    rw [registration, ← hfront, ← List.drop_drop, List.drop_left,
      read_flatMap (fun _ => length_toLe _ _) hk, ofLe_toLe_of_lt (UInt16.toNat_lt _),
      UInt16.ofNat_toNat]
  rw [registeredIds, count_registration h]
  refine List.ext_getElem (by simp) fun k hk _ => ?_
  rw [List.length_map, List.length_range] at hk
  rw [List.getElem_map, List.getElem_range, hid k hk]

/-! ### What the backend decodes -/

section Decode

variable {values : ∀ t, (handle t).scalar.Value}

/-- The current value of a handle. -/
def current (handle : ι → TelemetryInfo) (values : ∀ t, (handle t).scalar.Value) (t : ι) :
    AnyValue :=
  ⟨(handle t).scalar, values t⟩

/-- A handle of a bool that is true. -/
def isTrue (handle : ι → TelemetryInfo) (values : ∀ t, (handle t).scalar.Value) (t : ι) : Bool :=
  toBool (serialized handle values t)

theorem current_of_bool {t : ι} (h : (handle t).scalar = .bool) :
    current handle values t = ⟨.bool, BitVec.ofBool (isTrue handle values t)⟩ := by
  have key : ∀ (s : Scalar) (v : s.Value), s = .bool →
      (⟨s, v⟩ : AnyValue) = ⟨.bool, BitVec.ofBool (toBool (Scalar.bytes v))⟩ := by
    rintro s v rfl
    rcases BitVec.eq_zero_or_eq_one v with rfl | rfl <;> rfl
  exact key _ _ h

theorem typed_eq (hids : definitions.UniqueIds) {bufs : List ι}
    (h : ∀ t ∈ bufs, refId handle definitions t ≠ 0) :
    definitions.typed (bufs.map (refId handle definitions))
      = bufs.map fun t => (refId handle definitions t, (handle t).scalar) := by
  induction bufs with
  | nil => rfl
  | cons t bufs ih =>
      have htail := ih fun u hu => h u (List.mem_cons_of_mem _ hu)
      rw [TelemetryDefinitions.typed] at htail
      rw [TelemetryDefinitions.typed, List.map_cons, List.filterMap_cons,
        scalarOf_refId hids (h t List.mem_cons_self), Option.map_some, htail, List.map_cons]

/-- **Values are decoded from their bytes.** -/
theorem decodeValues_valueBytes (ts : List ι) (tail : List UInt8) :
    decodeValues (ts.map fun t => (refId handle definitions t, (handle t).scalar))
        (valueBytes handle values ts ++ tail)
      = ts.map fun t => (refId handle definitions t, current handle values t) := by
  induction ts with
  | nil => rfl
  | cons t ts ih =>
      rw [valueBytes, List.flatMap_cons, List.append_assoc, List.map_cons, decodeValues,
        List.take_left' (length_serialized t), List.drop_left' (length_serialized t), serialized,
        Scalar.ofBytes_bytes, List.map_cons, current]
      exact congrArg _ ih

/-- The ids of one size. -/
theorem filter_typed {bufs : List ι} {k : ℤ} {w : ℕ}
    (h : (k, w) ∈ [((1 : ℤ), 8), (2, 4), (3, 2), (4, 1)]) :
    ((bufs.map fun t => (refId handle definitions t, (handle t).scalar)).filter fun x =>
        x.2 ≠ .bool ∧ x.2.size = w)
      = (ofIndex handle bufs k).map fun t => (refId handle definitions t, (handle t).scalar) := by
  rw [List.filter_map, ofIndex]
  congr 1
  refine List.filter_congr fun t _ => ?_
  rw [Function.comp_apply, decide_eq_decide, sizeIndex_eq, baseTypeSizeIndex_eq_iff h]

/-- The ids of the bools. -/
theorem filter_typed_bool {bufs : List ι} :
    ((bufs.map fun t => (refId handle definitions t, (handle t).scalar)).filter fun x =>
        x.2 = .bool)
      = (ofIndex handle bufs 0).map fun t => (refId handle definitions t, (handle t).scalar) := by
  rw [List.filter_map, ofIndex]
  congr 1
  refine List.filter_congr fun t _ => ?_
  rw [Function.comp_apply, decide_eq_decide, sizeIndex_eq, baseTypeSizeIndex_eq_zero_iff]

/-- **A packet decodes** to the bits of its bools and the current values behind them. -/
theorem decode_eq {bufs : List ι} {packet tail : List UInt8}
    (hrest : packet.drop (valuesStart (ofIndex handle bufs 0).length)
      = valueBytes handle values (rest handle bufs) ++ tail) :
    decode (bufs.map fun t => (refId handle definitions t, (handle t).scalar)) packet
      = decodeBools ((ofIndex handle bufs 0).map (refId handle definitions)) packet
        ++ (rest handle bufs).map fun t => (refId handle definitions t, current handle values t) := by
  rw [decode]
  dsimp only
  rw [filter_typed_bool, filter_typed (k := 1) (by simp), filter_typed (k := 2) (by simp),
    filter_typed (k := 3) (by simp), filter_typed (k := 4) (by simp), ← List.map_append,
    ← List.map_append, ← List.map_append, List.length_map, List.length_map, List.map_map]
  rw [valuesStart] at hrest
  rw [hrest, ← rest, decodeValues_valueBytes]
  rfl

/-- **A bit of a packet** is set by every bool on it so far. -/
theorem decodeBit_iff {bufs : List ι} {front new : List UInt8} {start i : ℕ}
    (hi : i < (ofIndex handle bufs 0).length)
    (hstart : start = valuesStart (ofIndex handle bufs 0).length) (hfront : start ≤ front.length) :
    decodeBit (overwrite (overwrite front 4 (wordBytes (boolWords (flags handle values bufs) 0 0)))
        start new) i = true ↔
      ∃ j u, (ofIndex handle bufs 0)[j]? = some u ∧ isTrue handle values u ∧ j % 32 = i % 32 ∧
        j ≤ i := by
  obtain ⟨words, hwords⟩ :
      ∃ words, words = boolWords (flags handle values bufs) 0 0 := ⟨_, rfl⟩
  have hcount : words.length = ((ofIndex handle bufs 0).length + 31) / 32 := by
    rw [hwords, length_boolWords, flags, List.length_map, Nat.zero_add, Nat.zero_div, Nat.sub_zero]
  have hm : i / 32 < words.length := by omega
  rw [valuesStart] at hstart
  rw [decodeBit, ← hwords, read_overwrite_of_le
    (by rw [length_overwrite (by rw [length_wordBytes]; omega)]; omega) (by omega),
    read_overwrite (by omega) (by rw [length_wordBytes]; omega), wordBytes,
    read_flatMap (fun _ => length_toLe _ _) hm, ofLe_toLe_of_lt (words[i / 32]).isLt,
    BitVec.testBit_toNat]
  subst hwords
  rw [getLsbD_boolWords hm, or_iff_right (by simp)]
  refine exists_congr fun j => ?_
  rw [flags, List.getElem?_map, Option.map_eq_some_iff]
  constructor
  · rintro ⟨⟨u, hu, htrue⟩, hmod, hdiv⟩
    exact ⟨u, hu, htrue, by omega, by omega⟩
  · rintro ⟨u, hu, htrue, hmod, hle⟩
    exact ⟨⟨u, hu, htrue⟩, by omega, by omega⟩

/-- Every bool that comes on a bit already sent as true is itself true, in some handle of its id. -/
def BoolsAgree (handle : ι → TelemetryInfo) (definitions : TelemetryDefinitions)
    (values : ∀ t, (handle t).scalar.Value) (telemetries bufs : List ι) : Prop :=
  ∀ i j t u, (ofIndex handle bufs 0)[i]? = some t → (ofIndex handle bufs 0)[j]? = some u →
    j < i → j % 32 = i % 32 → isTrue handle values u →
      ∃ t' ∈ telemetries, refId handle definitions t' = refId handle definitions t ∧
        isTrue handle values t'

/-- A packet that decodes, by a registration, to the current value of a handle of each id. -/
structure Decodes (handle : ι → TelemetryInfo) (definitions : TelemetryDefinitions)
    (values : ∀ t, (handle t).scalar.Value) (telemetries : List ι)
    (registered packet : List UInt8) : Prop where
  ids : (decode (definitions.typed (registeredIds registered)) packet).map Prod.fst
    = registeredIds registered
  values : ∀ x ∈ decode (definitions.typed (registeredIds registered)) packet,
    ∃ t ∈ telemetries, refId handle definitions t = x.1 ∧ current handle values t = x.2

/-- The handles with the id of a bool are bools. -/
theorem current_of_refId {telemetries bufs : List ι} (hids : definitions.UniqueIds)
    (h : Registered handle definitions telemetries bufs) {t t' : ι}
    (ht : t ∈ ofIndex handle bufs 0)
    (hid : refId handle definitions t' = refId handle definitions t) :
    current handle values t' = ⟨.bool, BitVec.ofBool (isTrue handle values t')⟩ := by
  have hindex : sizeIndex handle t = 0 := by simpa using List.of_mem_filter ht
  rw [sizeIndex_eq, baseTypeSizeIndex_eq_zero_iff] at hindex
  have hne : refId handle definitions t' ≠ 0 := by
    rw [hid]
    exact h.resolved t (List.mem_of_mem_filter ht)
  exact current_of_bool ((scalar_eq_of_refId_eq hids hne hid).trans hindex)

/-- The bits of a packet are the values of handles with these ids exactly when the bools agree. -/
theorem bits_iff {telemetries bufs : List ι} (hids : definitions.UniqueIds)
    (h : Registered handle definitions telemetries bufs) {bit : ℕ → Bool}
    (hbit : ∀ i < (ofIndex handle bufs 0).length, bit i = true ↔
      ∃ j u, (ofIndex handle bufs 0)[j]? = some u ∧ isTrue handle values u ∧ j % 32 = i % 32 ∧
        j ≤ i) :
    (∀ i t, (ofIndex handle bufs 0)[i]? = some t → ∃ t' ∈ telemetries,
        refId handle definitions t' = refId handle definitions t ∧
          current handle values t' = ⟨.bool, BitVec.ofBool (bit i)⟩) ↔
      BoolsAgree handle definitions values telemetries bufs := by
  have hlt : ∀ {i : ℕ} {t : ι}, (ofIndex handle bufs 0)[i]? = some t →
      i < (ofIndex handle bufs 0).length := fun ht => (List.getElem?_eq_some_iff.mp ht).1
  have hbool : ∀ {i : ℕ} {t t' : ι}, (ofIndex handle bufs 0)[i]? = some t →
      refId handle definitions t' = refId handle definitions t →
      current handle values t' = ⟨.bool, BitVec.ofBool (isTrue handle values t')⟩ :=
    fun ht hid => current_of_refId hids h (List.mem_of_getElem? ht) hid
  have hmem : ∀ {i : ℕ} {t : ι}, (ofIndex handle bufs 0)[i]? = some t → t ∈ telemetries :=
    fun ht => h.mem _ (List.mem_of_mem_filter (List.mem_of_getElem? ht))
  constructor
  · intro hvalues i j t u ht hu hji hmod htrue
    obtain ⟨t', ht', hid, hcurrent⟩ := hvalues i t ht
    have hset : bit i = true := (hbit i (hlt ht)).mpr ⟨j, u, hu, htrue, hmod, hji.le⟩
    rw [hbool ht hid, hset] at hcurrent
    refine ⟨t', ht', hid, ?_⟩
    cases hfalse : isTrue handle values t' with
    | true => rfl
    | false =>
        rw [hfalse] at hcurrent
        have hbits : BitVec.ofBool false = BitVec.ofBool true :=
          eq_of_heq (Sigma.mk.inj hcurrent).2
        exact absurd hbits (by decide)
  · intro hagree i t ht
    cases htrue : isTrue handle values t with
    | true =>
        have hset : bit i = true := (hbit i (hlt ht)).mpr ⟨i, t, ht, htrue, rfl, le_refl i⟩
        exact ⟨t, hmem ht, rfl, by rw [hbool ht rfl, htrue, hset]⟩
    | false =>
        cases hset : bit i with
        | false => exact ⟨t, hmem ht, rfl, by rw [hbool ht rfl, htrue]⟩
        | true =>
            obtain ⟨j, u, hu, htrue', hmod, hle⟩ := (hbit i (hlt ht)).mp hset
            have hji : j < i := by
              refine lt_of_le_of_ne hle fun heq => ?_
              rw [heq, ht, Option.some.injEq] at hu
              rw [hu, htrue'] at htrue
              exact absurd htrue (by decide)
            obtain ⟨t', ht', hid, htrue''⟩ := hagree i j t u ht hu hji hmod htrue'
            exact ⟨t', ht', hid, by rw [hbool ht hid, htrue'']⟩

theorem map_fst_decodeBools (ids : List UInt16) (packet : List UInt8) :
    (decodeBools ids packet).map Prod.fst = ids := by
  refine List.ext_getElem (by simp [decodeBools]) fun i hi _ => ?_
  simp [decodeBools]

/-- The values of a packet are current exactly when its bits are. -/
theorem decodes_iff_bits (hids : definitions.UniqueIds) {telemetries bufs : List ι}
    (h : Registered handle definitions telemetries bufs) {registered packet tail : List UInt8}
    (hread : registeredIds registered = bufs.map (refId handle definitions))
    (hrest : packet.drop (valuesStart (ofIndex handle bufs 0).length)
      = valueBytes handle values (rest handle bufs) ++ tail) :
    Decodes handle definitions values telemetries registered packet ↔
      ∀ i t, (ofIndex handle bufs 0)[i]? = some t → ∃ t' ∈ telemetries,
        refId handle definitions t' = refId handle definitions t ∧
          current handle values t' = ⟨.bool, BitVec.ofBool (decodeBit packet i)⟩ := by
  have hdecode : decode (definitions.typed (registeredIds registered)) packet
      = decodeBools ((ofIndex handle bufs 0).map (refId handle definitions)) packet
        ++ (rest handle bufs).map fun t =>
          (refId handle definitions t, current handle values t) := by
    rw [hread, typed_eq hids h.resolved, decode_eq hrest]
  constructor
  · rintro ⟨-, hvalues⟩ i t ht
    obtain ⟨hi, rfl⟩ := List.getElem?_eq_some_iff.mp ht
    refine hvalues (refId handle definitions (ofIndex handle bufs 0)[i],
      ⟨.bool, BitVec.ofBool (decodeBit packet i)⟩) ?_
    rw [hdecode, List.mem_append, decodeBools, List.mem_mapIdx]
    exact Or.inl ⟨i, by rwa [List.length_map], by rw [List.getElem_map]⟩
  · intro hbits
    refine ⟨?_, fun x hx => ?_⟩
    · have hcut := congrArg (List.map (refId handle definitions)) h.cut
      rw [hdecode, hread, hcut, List.map_append, map_fst_decodeBools, List.map_map, rest]
      simp only [List.map_append, List.append_assoc]
      rfl
    · rw [hdecode, List.mem_append] at hx
      rcases hx with hx | hx
      · rw [decodeBools, List.mem_mapIdx] at hx
        obtain ⟨i, hi, rfl⟩ := hx
        rw [List.length_map] at hi
        rw [List.getElem_map]
        exact hbits i _ (List.getElem?_eq_getElem hi)
      · obtain ⟨t, ht, rfl⟩ := List.mem_map.mp hx
        have hbuf : t ∈ bufs := by
          rw [h.cut, List.append_assoc, List.append_assoc, List.append_assoc, List.mem_append]
          rw [rest, List.append_assoc, List.append_assoc] at ht
          exact Or.inr ht
        exact ⟨t, h.mem t hbuf, rfl, rfl⟩

/-- **A telemetry packet decodes to the current values**, and is as long as announced, exactly when
its bools agree. It may be written into any builder. -/
theorem decodes_iff (std : StdSort ι) {answer : SocketAnswer} {later : Bool}
    {g g' : TelemetryUpdateGroup ι} {datagram : List UInt8} (hids : definitions.UniqueIds)
    (hconfigure : configure handle definitions std answer later g = (true, some datagram, g'))
    (hsize : expectedSize g'.baseValueEntriesBySize + 4 < 65536)
    (values : ∀ t, (handle t).scalar.Value) (builder : ActionBuilder) {b : ActionBuilder}
    {position : ℕ}
    (hfill : { g' with actionBuilder := builder }.fill handle values = some (b, position)) :
    (Decodes handle definitions values g.telemetries (datagram.drop actionHeaderSize) b.payload ∧
      position = announcedSize (datagram.drop actionHeaderSize)) ↔
        BoolsAgree handle definitions values g.telemetries g'.baseValueBufs := by
  obtain ⟨h, hentries, hset, controllerId, -, hdatagram⟩ := configure_cases hids hconfigure
  have hlength : (g'.baseValueBufs.map (refId handle definitions)).length < 65536 :=
    (List.length_map _).trans_lt (Nat.lt_succ_of_le h.length_le)
  have hread : registeredIds (datagram.drop actionHeaderSize)
      = g'.baseValueBufs.map (refId handle definitions) := by
    rw [hdatagram, drop_encode, registeredIds_registration hlength]
  have hannounced : announcedSize (datagram.drop actionHeaderSize)
      = expectedSize g'.baseValueEntriesBySize := by
    rw [hdatagram, drop_encode, announcedSize_registration, ofLe_toLe_of_lt (by omega)]
  obtain ⟨-, hposition, before, hbefore, hpayload⟩ := h.fill_cases hentries hset hsize hfill
  have hexpected := h.expectedSize_eq
  rw [← hentries] at hexpected
  have hwords : 4 + (wordBytes (boolWords (flags handle values g'.baseValueBufs) 0 0)).length
      ≤ before.length := by
    rw [length_wordBytes, length_boolWords, flags, List.length_map, hbefore, hexpected,
      valuesStart]
    omega
  obtain ⟨tail, hrest⟩ : ∃ tail,
      b.payload.drop (valuesStart (ofIndex handle g'.baseValueBufs 0).length)
        = valueBytes handle values (rest handle g'.baseValueBufs) ++ tail := by
    have hdrop := congrArg
      (List.drop (valuesStart (ofIndex handle g'.baseValueBufs 0).length)) hpayload
    rw [drop_overwrite (by rw [length_overwrite hwords]; omega)] at hdrop
    exact ⟨_, hdrop⟩
  rw [and_iff_left (hposition.trans hannounced.symm), decodes_iff_bits hids h hread hrest]
  refine bits_iff hids h fun i hi => ?_
  rw [hpayload]
  exact decodeBit_iff hi rfl (by omega)

/-- The first bool is true. -/
def firstTrue (n : ℕ) (t : Fin n) : (boolHandle n t).scalar.Value :=
  BitVec.ofBool (t.val = 0)

/-- The builder and the position after `send` has written the bools. -/
def boolPacket (n : ℕ) : Option (ActionBuilder × ℕ) :=
  (boolGroup n).2.2.fill (boolHandle n) (firstTrue n)

theorem decodes_iff_two : ∃ b position, boolPacket 2 = some (b, position) ∧
    Decodes (boolHandle 2) (boolTable 2) (firstTrue 2) (List.finRange 2)
      (((boolGroup 2).2.1.getD []).drop actionHeaderSize) b.payload ∧
    position = announcedSize (((boolGroup 2).2.1.getD []).drop actionHeaderSize) := by
  have hids : (boolTable 2).UniqueIds := ⟨by decide, by decide⟩
  have hconfigure : boolGroup 2 = (true, some ((boolGroup 2).2.1.getD []), (boolGroup 2).2.2) :=
    Prod.ext (by decide +kernel) (Prod.ext (by decide +kernel) rfl)
  obtain ⟨⟨b, position⟩, hfill⟩ := Option.isSome_iff_exists.mp
    (show (boolPacket 2).isSome by decide +kernel)
  have hagree : BoolsAgree (boolHandle 2) (boolTable 2) (firstTrue 2) (List.finRange 2)
      (boolGroup 2).2.2.baseValueBufs := by
    have hlength : (ofIndex (boolHandle 2) (boolGroup 2).2.2.baseValueBufs 0).length = 2 := by
      decide +kernel
    intro i j t u ht _ hji hmod _
    have hi := (List.getElem?_eq_some_iff.mp ht).1
    omega
  exact ⟨b, position, hfill, (decodes_iff .insertion hids hconfigure (by decide +kernel)
    (firstTrue 2) (boolGroup 2).2.2.actionBuilder hfill).mpr hagree⟩

/-- **Past one word of bools** a packet does not decode: the 33rd bool is on the bit of the first. -/
theorem not_decodes :
    (boolTable 33).UniqueIds ∧ (boolGroup 33).1 = true ∧ (boolPacket 33).isSome ∧
      ¬Decodes (boolHandle 33) (boolTable 33) (firstTrue 33) (List.finRange 33)
        (((boolGroup 33).2.1.getD []).drop actionHeaderSize)
        (((boolPacket 33).map fun p => p.1.payload).getD []) := by
  refine ⟨⟨by decide +kernel, by decide +kernel⟩, by decide +kernel, by decide +kernel, fun h => ?_⟩
  obtain ⟨t, ht, hid, hvalue⟩ := h.values (33, ⟨.bool, 1⟩) (by decide +kernel)
  revert t
  decide +kernel

end Decode

end TelemetryUpdateGroup

end ScApi
