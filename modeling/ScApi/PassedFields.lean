import ScApi.ArrayKeys
import ScApi.BsonArrays
import ScApi.SubDocuments

/-!
# Fields as they are passed

The fields that a program adds behind those of a document are what it passes to the builder. The builder
writes something else for a bool that it adds to an array, and for the key of an array element from the
hundredth on; and a request on whose builder something is left is not given away. Without these, a
document is copied, ended at once, or gone on from with the bytes of what was passed; and with any of
them some bytes differ, because nothing that is written later changes them.

## Main results

* `right_of_bytes`: written bytes that are those of what was passed.
* `AddsFields.exists_written`: the same for calls on a document.
* `initializeFrom_under`: requests with something left.
* `continues_subDocument_iff`: when the bytes are those of what was passed.
-/

open Bytes Buffer Bson BoundedRead Relating

namespace ScApi

open BsonBuilder

/-! ### What is written and what is passed -/

/-- The key that an index gets when its buffer holds zeros. -/
def zeroKey (idx : ℕ) : List UInt8 :=
  (fillArrayDocKey (List.replicate 8 0) idx).dropLast

/-- **The keys of a buffer of zeros** are no longer than the indices, and right for the first hundred
only. -/
theorem zeroKey_spec {idx : ℕ} (h : idx < 1000000) :
    fillArrayDocKey (List.replicate 8 0) idx = zeroKey idx ++ [0] ∧
      (zeroKey idx).length ≤ (arrayKey idx).length ∧ (zeroKey idx = arrayKey idx → idx < 100) := by
  have hbuf : (List.replicate 8 (0 : UInt8)).length = 8 := List.length_replicate ..
  obtain ⟨k, digits, hk, -, hbytes, hle, hright⟩ := exists_key hbuf h
  have hfill : fillArrayDocKey (List.replicate 8 0) idx = digits ++ [0] :=
    (fillArrayDocKey_of_checked hbuf hk).trans hbytes
  have hdigits : zeroKey idx = digits := by
    rw [zeroKey, hfill, List.dropLast_concat]
  rw [hdigits]
  exact ⟨hfill, hle, fun heq => lt_of_foreseen_zeros (hright.mp heq)⟩

theorem fills_zeroKey : Platform.tight.Fills zeroKey 1000000 :=
  ⟨by decide, fun _ _ h => (zeroKey_spec h).1⟩

/-- Headers with the key that is written and the one that is meant. -/
theorem header_right {kind : Kind} {idx : ℕ} {name x y : List UInt8} {typeByte : UInt8}
    (hidx : kind = .array → idx < 1000000)
    (h : header typeByte (keyBy zeroKey name idx kind) ++ x
      = header typeByte (keyFor name idx kind) ++ y) : (kind = .array → idx < 100) ∧ x = y := by
  cases kind with
  | doc => exact ⟨nofun, List.append_cancel_left h⟩
  | array =>
      obtain ⟨-, hle, hright⟩ := zeroKey_spec (hidx rfl)
      have hkeys : zeroKey idx ++ [0] ++ x = arrayKey idx ++ [0] ++ y := (List.cons.inj h).2
      have heq : zeroKey idx = arrayKey idx :=
        key_eq_of_prefix (zero_notMem_arrayKey idx) hle (List.prefix_append _ _)
          (hkeys.symm ▸ List.prefix_append _ _)
      rw [heq] at hkeys
      exact ⟨fun _ => hright heq, List.append_cancel_left hkeys⟩

/-- Values that are written and that are meant. -/
theorem value_right {kind : Kind} {name x y : List UInt8} {v : Leaf}
    (h : ((keyIn name kind).stored v).bytes ++ x = v.bytes ++ y) :
    (kind = .array → ∀ b, v ≠ .bool b) ∧ x = y := by
  obtain ⟨hvalue, hrest⟩ := List.append_inj h (BuilderKey.length_stored _ _)
  refine ⟨?_, hrest⟩
  rintro rfl b rfl
  have hflip : [if !b then (1 : UInt8) else 0] = [if b then 1 else 0] := hvalue
  cases b <;> exact absurd hflip (by decide)

/-- Documents are the same when their bodies are. -/
theorem document_right {body body' x y : List UInt8} (h : document body ++ x = document body' ++ y) :
    body ++ ([0] ++ x) = body' ++ ([0] ++ y) := by
  simp only [document, List.append_assoc] at h
  exact (List.append_inj h (by rw [length_toLe, length_toLe])).2

/-- **What is written is no longer** than what is passed. -/
theorem length_storedBy_le {kind : Kind} {idx : ℕ} {els : Elements}
    (h : ArraysWithin 1000000 kind idx els) :
    (storedBy zeroKey kind idx els).bytes.length ≤ (rekey kind idx els).bytes.length := by
  have hkey : ∀ {kind : Kind} {idx : ℕ} (name : List UInt8), (kind = .array → idx < 1000000) →
      (keyBy zeroKey name idx kind).length ≤ (keyFor name idx kind).length := by
    intro kind idx name hidx
    cases kind with
    | doc => exact le_rfl
    | array => exact (zeroKey_spec (hidx rfl)).2.1
  induction els generalizing kind idx with
  | nil => exact le_rfl
  | leaf name v rest ih =>
      have hname := hkey name h.1
      have hrest := ih h.2
      simp only [storedBy, rekey, Elements.bytes, List.length_append, length_header,
        BuilderKey.length_stored]
      omega
  | sub kind' name body rest ihbody ihrest =>
      have hname := hkey name h.1
      have hbody := ihbody h.2.1
      have hrest := ihrest h.2.2
      simp only [storedBy, rekey, Elements.bytes, List.length_append, length_header, length_document]
      omega

/-- **Written bytes that are those of what was passed**: the arrays are short, there is no bool in them,
and both end at the same place. -/
theorem right_of_bytes {els : Elements} {kind : Kind} {idx : ℕ} {x y : List UInt8}
    (h : ArraysWithin 1000000 kind idx els)
    (hbytes : (storedBy zeroKey kind idx els).bytes ++ x = (rekey kind idx els).bytes ++ y) :
    ShortArrays kind idx els ∧ NoBoolInArray kind els ∧ x = y := by
  induction els generalizing kind idx x y with
  | nil => exact ⟨trivial, trivial, hbytes⟩
  | leaf name v rest ih =>
      simp only [storedBy, rekey, Elements.bytes, List.append_assoc, BuilderKey.typeByte_stored]
        at hbytes
      obtain ⟨hidx, hvalue⟩ := header_right h.1 hbytes
      obtain ⟨hbool, hrest⟩ := value_right hvalue
      obtain ⟨hshort, hbools, hend⟩ := ih h.2 hrest
      exact ⟨⟨hidx, hshort⟩, ⟨hbool, hbools⟩, hend⟩
  | sub kind' name body rest ihbody ihrest =>
      simp only [storedBy, rekey, Elements.bytes, List.append_assoc] at hbytes
      obtain ⟨hidx, hdoc⟩ := header_right h.1 hbytes
      obtain ⟨hshort, hbools, hbehind⟩ := ihbody h.2.1 (document_right hdoc)
      obtain ⟨hshort', hbools', hend⟩ := ihrest h.2.2 (List.append_cancel_left hbehind)
      exact ⟨⟨hidx, hshort, hshort'⟩, ⟨hbools, hbools'⟩, hend⟩

/-- **The elements of an array as they are passed.** The builder supports a million of them. -/
structure PassedArray (els body : Elements) : Prop where
  within : ArraysWithin 1000000 .array 0 els
  body_eq : body = rekey .array 0 els

/-- **An array for which the builder writes what is passed**: it has at most a hundred elements, none of
them is a bool, and the same holds of the arrays in it. -/
structure RightArray (els body : Elements) : Prop where
  short : ShortArrays .array 0 els
  noBool : NoBoolInArray .array els
  body_eq : body = rekey .array 0 els

theorem RightArray.stored {els body : Elements} (h : RightArray els body) : StoredArray els body := by
  refine ⟨h.short.within, h.body_eq.trans ?_⟩
  rw [storedBy_arrayKey]
  exact ((stored_eq_rekey_iff .array 0 els).mpr h.noBool).symm

/-- **What the calls for some fields write**, and when it is what was passed. -/
theorem AddsFields.exists_written {calls : List BuilderCall} {fields : Elements}
    (h : AddsFields PassedArray calls fields) :
    ∃ written, AddsFields (WrittenArray zeroKey 1000000) calls written ∧
      written.bytes.length ≤ fields.bytes.length ∧
      ∀ x y, written.bytes ++ x = fields.bytes ++ y → AddsFields RightArray calls fields ∧ x = y := by
  induction h with
  | done => exact ⟨.nil, .done, le_rfl, fun x y hxy => ⟨.done, hxy⟩⟩
  | value name v rest ih =>
      obtain ⟨written, hwritten, hle, hright⟩ := ih
      refine ⟨_, .value name v hwritten, ?_, fun x y hxy => ?_⟩
      · simp only [Elements.bytes, List.length_append]
        omega
      · simp only [Elements.bytes, List.append_assoc, List.append_cancel_left_eq] at hxy
        obtain ⟨hfields, hend⟩ := hright x y hxy
        exact ⟨.value name v hfields, hend⟩
  | bytes name subtype hn rest ih =>
      obtain ⟨written, hwritten, hle, hright⟩ := ih
      refine ⟨_, .bytes name subtype hn hwritten, ?_, fun x y hxy => ?_⟩
      · simp only [Elements.bytes, List.length_append]
        omega
      · simp only [Elements.bytes, List.append_assoc, List.append_cancel_left_eq] at hxy
        obtain ⟨hfields, hend⟩ := hright x y hxy
        exact ⟨.bytes name subtype hn hfields, hend⟩
  | copied name content more rest ih =>
      obtain ⟨written, hwritten, hle, hright⟩ := ih
      refine ⟨_, .copied name content more hwritten, ?_, fun x y hxy => ?_⟩
      · simp only [Elements.bytes, List.length_append]
        omega
      · simp only [Elements.bytes, List.append_assoc, List.append_cancel_left_eq] at hxy
        obtain ⟨hfields, hend⟩ := hright x y hxy
        exact ⟨.copied name content more hfields, hend⟩
  | document name inside rest ihbody ihrest =>
      obtain ⟨body, hbody, hlebody, hrightbody⟩ := ihbody
      obtain ⟨written, hwritten, hle, hright⟩ := ihrest
      refine ⟨_, .document name hbody hwritten, ?_, fun x y hxy => ?_⟩
      · simp only [Elements.bytes, List.length_append, length_document]
        omega
      · simp only [Elements.bytes, List.append_assoc, List.append_cancel_left_eq] at hxy
        obtain ⟨hinside, hbehind⟩ := hrightbody _ _ (document_right hxy)
        obtain ⟨hfields, hend⟩ := hright x y (List.append_cancel_left hbehind)
        exact ⟨.document name hinside hfields, hend⟩
  | continued name content more inside rest ihbody ihrest =>
      obtain ⟨body, hbody, hlebody, hrightbody⟩ := ihbody
      obtain ⟨written, hwritten, hle, hright⟩ := ihrest
      refine ⟨_, .continued name content more hbody hwritten, ?_, fun x y hxy => ?_⟩
      · simp only [Elements.bytes, Elements.bytes_append, List.length_append, length_document]
        omega
      · simp only [Elements.bytes, List.append_assoc, List.append_cancel_left_eq] at hxy
        have hbodies := document_right hxy
        simp only [Elements.bytes_append, List.append_assoc, List.append_cancel_left_eq] at hbodies
        obtain ⟨hinside, hbehind⟩ := hrightbody _ _ hbodies
        obtain ⟨hfields, hend⟩ := hright x y (List.append_cancel_left hbehind)
        exact ⟨.continued name content more hinside hfields, hend⟩
  | @array calls fields els body name inside rest ih =>
      obtain ⟨hwithin, rfl⟩ := inside
      obtain ⟨written, hwritten, hle, hright⟩ := ih
      refine ⟨_, .array name ⟨hwithin, rfl⟩ hwritten, ?_, fun x y hxy => ?_⟩
      · have hlebody := length_storedBy_le hwithin
        simp only [Elements.bytes, List.length_append, length_document]
        omega
      · simp only [Elements.bytes, List.append_assoc, List.append_cancel_left_eq] at hxy
        obtain ⟨hshort, hbool, hbehind⟩ := right_of_bytes hwithin (document_right hxy)
        obtain ⟨hfields, hend⟩ := hright x y (List.append_cancel_left hbehind)
        exact ⟨.array name ⟨hshort, hbool, rfl⟩ hfields, hend⟩

/-! ### Builders with something left -/

/-- The same platform with zeros in every key buffer. -/
def Platform.zeroed (platform : Platform) : Platform :=
  { platform with
    keyBuffer := fun _ => List.replicate 8 0
    length_keyBuffer := fun _ => List.length_replicate .. }

section Zeroed

variable {platform : Platform} {b : BsonBuilder}

/-- What the key buffer holds is not seen in the keys of the first hundred indices. -/
theorem insert_zeroed {key : BuilderKey} (hidx : key = .index → ∃ (idx : ℕ) (counters : List ℤ),
      b.arrayIdxCounters = (idx : ℤ) :: counters ∧ idx < 100) (elementType : UInt8) (size : ℤ) :
    key.insert platform elementType size b = key.insert platform.zeroed elementType size b := by
  cases key with
  | name n => rfl
  | index =>
      obtain ⟨idx, counters, hcons, hlt⟩ := hidx rfl
      simp only [BuilderKey.insert, verifyCapacityAndInsertArrayKey, hcons, fillArrayDocKey_eq hlt]
      rfl

theorem perform_zeroed {ok : Bool} {c : BuilderCall} (h : BuilderRun.IndexBelow 100 ⟨b, ok⟩ c) :
    c.perform platform b = c.perform platform.zeroed b := by
  cases c with
  | add key v =>
      have hinsert : ∀ elementType size, key.insert platform elementType size b
          = key.insert platform.zeroed elementType size b :=
        insert_zeroed fun hindex => h (congrArg some hindex)
      rw [BuilderCall.perform_add, BuilderCall.perform_add]
      cases key.stored v <;> simp only [addLeaf, addElement, addString, addBytes, hinsert]
  | addBytes key bytes byteCount subtype =>
      have hinsert : ∀ elementType size, key.insert platform elementType size b
          = key.insert platform.zeroed elementType size b :=
        insert_zeroed fun hindex => h (congrArg some hindex)
      rw [BuilderCall.perform_addBytes, BuilderCall.perform_addBytes]
      simp only [addBytes, hinsert]
  | addSubDoc name subDocument => rfl
  | «begin» key kind =>
      have hinsert : ∀ elementType size, key.insert platform elementType size b
          = key.insert platform.zeroed elementType size b :=
        insert_zeroed fun hindex => h (congrArg some hindex)
      rw [BuilderCall.perform_begin, BuilderCall.perform_begin]
      simp only [beginContainer, hinsert]
  | beginFrom name subDocument => rfl
  | close kind => cases kind <;> rfl

/-- **Calls on top of something left** succeed like those without it, if they take indices of at most
two digits. -/
theorem exec_under {left : Leftover} {f f' : BsonBuilder} {ok ok' : Bool} {calls : List BuilderCall}
    (h : left.Under f b)
    (hexec : Runs.exec (BuilderRun.step platform) ⟨f, ok⟩ calls = some ⟨f', ok'⟩)
    (hmeets : Runs.Meets (BuilderRun.step platform) (BuilderRun.IndexBelow 100) ⟨f, ok⟩ calls) :
    ∃ b', Runs.exec (BuilderRun.step platform) ⟨b, ok⟩ calls = some ⟨b', ok'⟩ ∧
      left.Under f' b' := by
  induction calls generalizing f b ok with
  | nil =>
      obtain ⟨rfl, rfl⟩ := BuilderRun.mk.inj (Option.some.inj hexec)
      exact ⟨b, rfl, h⟩
  | cons c calls ih =>
      obtain ⟨s, hstep, hrest⟩ := Runs.exec_cons.mp hexec
      obtain ⟨hindex, hmeets'⟩ := hmeets
      have hindex' : BuilderRun.IndexBelow 100 ⟨b, ok⟩ c := by
        intro hkey
        obtain ⟨idx, counters, hcons, hlt⟩ := hindex hkey
        refine ⟨idx, counters ++ left.arrayIdxCounters, ?_, hlt⟩
        exact h.arrayIdxCounters.trans (congrArg (· ++ left.arrayIdxCounters) hcons)
      have hfollow : left.FollowsWith (c.perform platform.zeroed f) (c.perform platform.zeroed b) :=
        (Leftover.callsAlike_under (fun _ _ => rfl) left).perform h c
      rw [← perform_zeroed hindex, ← perform_zeroed hindex'] at hfollow
      rw [BuilderRun.step] at hstep
      dsimp only at hstep
      cases hperform : c.perform platform f with
      | error stop =>
          rw [hperform] at hstep
          exact absurd hstep (by simp)
      | ok p =>
          obtain ⟨made, f₁⟩ := p
          rw [hperform] at hstep hfollow
          obtain rfl := Option.some.inj hstep
          obtain ⟨⟨made', b₁⟩, hb₁, hmade, hunder⟩ := hfollow.exists_of_ok
          obtain rfl : made = made' := hmade
          have hstep' : BuilderRun.step platform ⟨b, ok⟩ c = some ⟨b₁, ok && made⟩ := by
            rw [BuilderRun.step, hb₁]
          have hmeets₁ := hmeets' ⟨f₁, ok && made⟩ (by rw [BuilderRun.step, hperform])
          obtain ⟨b', hexec', hunder'⟩ := ih hunder hrest hmeets₁
          exact ⟨b', Runs.exec_cons.mpr ⟨_, hstep', hexec'⟩, hunder'⟩

end Zeroed

/-! ### Requests with something left -/

section Requests

open CommandRequest Writing

variable {platform : Platform} {bound : ℕ} {b : BsonBuilder} {calls : List BuilderCall}
  {content fields : Elements}

/-- A request that holds its document is given away exactly when nothing that is left in it counts as
open or failed. -/
theorem giveAway_under_iff {left : Leftover} {f : BsonBuilder} {hole : List UInt8} {e : Elements}
    (h : left.Under f b) (hw : Writing [] 0 ⟨hole, e, [], []⟩ [] 0 f) (herr : f.errorFlag = false) :
    (∃ b', giveAway b = .ok (document e.bytes, b')) ↔ b.depth = 0 ∧ b.errorFlag = false := by
  constructor
  · rintro ⟨b', hgive⟩
    by_contra hleft
    have hfailed : b.depth ≠ 0 ∨ b.errorFlag = true := by
      rw [not_and_or, Bool.not_eq_false] at hleft
      exact hleft
    rw [giveAway_left hfailed] at hgive
    have hlen := congrArg List.length (Prod.mk.inj (Except.ok.inj hgive)).1
    rw [length_document, List.length_nil] at hlen
    omega
  · intro hb
    obtain ⟨tail, f', hfinish, hbuf, -⟩ := hw.finish rfl herr
    have hfollow := h.finish ⟨hw.depth, herr⟩ hb
    rw [hfinish] at hfollow
    obtain ⟨⟨place, b'⟩, hb', hplace, hunder⟩ := hfollow.exists_of_ok
    obtain rfl := hplace
    exact ⟨_, giveAway_of_finish hb' (hunder.buffer.trans hbuf)⟩

/-- **A request goes on from a document**, and fields are added to it, whatever is left in it. -/
theorem initializeFrom_under (hbound : bound < 2147483648) (hgrow : platform.GrowsWithin bound)
    (hcap : b.container.getD 0 < 2147483648)
    (hdepth : -2147483648 ≤ b.depth ∧ b.depth < 2147483648) (more : List UInt8)
    (hfields : AddsFields StoredArray calls fields) (service command : List UInt8)
    (cmdId : BitVec 32) (hsize : 100 + (document content.bytes).length ≤ bound)
    (hfits : (document (encoding service command (content.append fields) cmdId).bytes).length
      ≤ bound) :
    ∃ b₀ b₁ b₂ f hole,
      initializeFrom platform service command (document content.bytes ++ more) b = .ok b₀ ∧
      Runs.exec (BuilderRun.step platform) ⟨b₀, true⟩ calls = some ⟨b₁, true⟩ ∧
      closeCommand platform cmdId b₁ = .ok b₂ ∧ b.leftover.Under f b₂ ∧
      Writing [] 0 ⟨hole, encoding service command (content.append fields) cmdId, [], []⟩ [] 0 f ∧
      f.errorFlag = false := by
  have hless : service.length + command.length + content.bytes.length + 48 ≤ bound := by
    rw [length_encoding, Elements.bytes_append, List.length_append] at hfits
    omega
  have hidle : (newOn b).Idle := ⟨rfl, rfl, rfl, rfl⟩
  obtain ⟨startHole, cmdHole, hole, f₀, hinit, hw, hv, herr, hstart⟩ :=
    initializeFrom_idle hidle hcap hgrow hbound service command content more hsize hless
  obtain ⟨f₁, f₂, hexec, hmeets, hclose, hw₂, herr₂⟩ := closeCommand_opened hbound cmdId hw hv herr
    hstart platform.fills_arrayKey hfields hfits
  have hfollow := @follows_initializeFrom platform b hdepth service command
    (document content.bytes ++ more)
  rw [hinit] at hfollow
  obtain ⟨b₀, hb₀, hunder₀⟩ := hfollow.exists_of_ok
  obtain ⟨b₁, hb₁, hunder₁⟩ := exec_under hunder₀ hexec hmeets
  have hcloses := related_closeCommand platform hunder₁ cmdId
  rw [hclose] at hcloses
  obtain ⟨b₂, hb₂, hunder₂⟩ := hcloses.exists_of_ok
  exact ⟨b₀, b₁, b₂, f₂, startHole, hb₀, hb₁, hb₂, hunder₂, hw₂, herr₂⟩

/-- What is left in a request is what counts at its end. -/
theorem depth_errorFlag_of_under {f c : BsonBuilder} {d : Draft}
    (hdepth : -2147483648 ≤ b.depth ∧ b.depth < 2147483648) (h : b.leftover.Under f c)
    (hw : Writing [] 0 d [] 0 f) (hlayers : d.layers = []) (herr : f.errorFlag = false) :
    c.depth = b.depth ∧ c.errorFlag = b.errorFlag := by
  have hzero : f.depth = 0 := by
    rw [hw.depth, hlayers]
    rfl
  refine ⟨?_, ?_⟩
  · rw [h.depth, hzero, zero_add]
    exact wrap32_of_range hdepth.1 hdepth.2
  · rw [h.errorFlag, herr]
    exact Bool.false_or _

/-! ### When the bytes are those of what was passed -/

/-- **A document is copied, or gone on from, with the bytes of what is passed**: by every builder that
has room for it, and by the request with the given builder, for every id, service and command. -/
structure ContinuesRight (bound : ℕ) (name : List UInt8) (content : Elements) (more : List UInt8)
    (calls : List BuilderCall) (fields : Elements) (b : BsonBuilder) : Prop where
  appends : ∀ platform front footer d c, Writing front footer d [] 0 c → Roomy platform bound c →
    d.usage front footer + (Elements.sub .doc name (content.append fields) .nil).bytes.length
      ≤ bound →
    Appends platform c [.addSubDoc name (document content.bytes ++ more)]
        (Entry.bytes (name, .sub .doc content)) ∧
      Appends platform c [.beginFrom name (document content.bytes ++ more), .close .doc]
        (Entry.bytes (name, .sub .doc content)) ∧
      Appends platform c
        (.beginFrom name (document content.bytes ++ more) :: (calls ++ [.close .doc]))
        (Entry.bytes (name, .sub .doc (content.append fields)))
  request : ∀ platform service command cmdId, platform.GrowsWithin bound →
    100 + (document content.bytes).length ≤ bound →
    (document (encoding service command (content.append fields) cmdId).bytes).length ≤ bound →
    ∃ b₀ b₁ b₂,
      initializeFrom platform service command (document content.bytes ++ more) b = .ok b₀ ∧
      Runs.exec (BuilderRun.step platform) ⟨b₀, true⟩ calls = some ⟨b₁, true⟩ ∧
      finalize platform cmdId b₁
        = .ok (document (encoding service command (content.append fields) cmdId).bytes, b₂)

/-- The same calls append the same bytes. -/
theorem Appends.unique {bytes bytes' : List UInt8} (h : Appends platform b calls bytes)
    (h' : Appends platform b calls bytes') : ∃ x y, bytes ++ x = bytes' ++ y := by
  obtain ⟨c, y, hexec, hbuf, -⟩ := h
  obtain ⟨c', x, hexec', hbuf', -⟩ := h'
  obtain ⟨rfl, -⟩ := BuilderRun.mk.inj (Option.some.inj (hexec.symm.trans hexec'))
  rw [hbuf', List.append_assoc, List.append_assoc] at hbuf
  exact ⟨y, x, (List.append_cancel_left hbuf).symm⟩

/-- A document that goes on with what was passed is only written for arrays that are right. -/
theorem ContinuesRight.right {name more : List UInt8} (h : ContinuesRight bound name content more
      calls fields b) (hbound : bound < 2147483648) (hfields : AddsFields PassedArray calls fields)
    (hfits : name.length + content.bytes.length + fields.bytes.length + 200 ≤ bound) :
    AddsFields RightArray calls fields := by
  obtain ⟨written, hwritten, hle, hright⟩ := hfields.exists_written
  have hgrow : Platform.tight.GrowsWithin bound := Platform.growsWithin_tight hbound
  obtain ⟨front, hole, hfront, -, hw, hv, -⟩ := @writing_initializeVector .tight [] 0 0 0 bound
    le_rfl (by decide) hgrow (by omega) hbound
  have hroomy : Roomy .tight bound (BsonBuilder.initializeVector [] 0 0 0 .tight {}) := .inl ⟨hv, hgrow⟩
  have husage : (⟨hole, .nil, [], []⟩ : Draft).usage front 0 = 5 := by
    have hhole : hole.length = 4 := hw.holes.1
    simp only [Draft.usage, Draft.spine, Draft.spineOf, Elements.bytes, List.append_nil,
      List.length_append, hfront, hhole, List.length_nil]
  have hlen : ∀ e : Elements, (Elements.sub .doc name e .nil).bytes.length
      = name.length + e.bytes.length + 7 := by
    intro e
    simp only [Elements.bytes, List.append_nil, List.length_append, length_header, length_document]
    omega
  have hsize := Elements.bytes_append content fields
  have hsize' := Elements.bytes_append content written
  obtain ⟨-, -, hpassed⟩ := h.appends .tight front 0 _ _ hw hroomy (by
    rw [husage, hlen, hsize, List.length_append]
    omega)
  obtain ⟨-, -, happends⟩ := hw.subDocument_appends hbound hroomy name content more fills_zeroKey
    hwritten (by
      rw [husage, hlen, hsize', List.length_append]
      omega)
  obtain ⟨x, y, hxy⟩ := happends.unique hpassed
  -- the keys, the sizes and the fields of the document are the same in both
  have hdocs : document (content.append written).bytes ++ x
      = document (content.append fields).bytes ++ y := by
    simp only [Entry.bytes, Value.bytes, List.append_assoc] at hxy
    exact List.append_cancel_left hxy
  have hbodies := document_right hdocs
  rw [hsize, hsize', List.append_assoc, List.append_assoc, List.append_cancel_left_eq] at hbodies
  exact (hright _ _ hbodies).1

/-- **When a document is copied, or gone on from, with the bytes of what is passed**: no array to which
the calls add elements has more than a hundred of them or a bool, and nothing that is left in the request
counts as open or failed. -/
theorem continues_subDocument_iff (hbound : bound < 2147483648) (name : List UInt8)
    (content : Elements) (more : List UInt8) (hfields : AddsFields PassedArray calls fields)
    (hfits : name.length + content.bytes.length + fields.bytes.length + 200 ≤ bound)
    (hcap : b.container.getD 0 < 2147483648)
    (hdepth : -2147483648 ≤ b.depth ∧ b.depth < 2147483648) :
    ContinuesRight bound name content more calls fields b ↔
      AddsFields RightArray calls fields ∧ b.depth = 0 ∧ b.errorFlag = false := by
  constructor
  · intro h
    have hright := h.right hbound hfields hfits
    refine ⟨hright, ?_⟩
    have hstored := hright.mono fun _ _ => RightArray.stored
    have hgrow : Platform.tight.GrowsWithin bound := Platform.growsWithin_tight hbound
    have hsize : 100 + (document content.bytes).length ≤ bound := by
      rw [length_document]
      omega
    have hrequest : (document (encoding [] [] (content.append fields) 0).bytes).length ≤ bound := by
      rw [length_encoding, Elements.bytes_append, List.length_append, List.length_nil]
      omega
    obtain ⟨b₀, b₁, b₂, hinit, hexec, hfinal⟩ := h.request .tight [] [] 0 hgrow hsize hrequest
    obtain ⟨b₀', b₁', b₂', f, hole, hinit', hexec', hclose, hunder, hw, herr⟩ :=
      initializeFrom_under hbound hgrow hcap hdepth more hstored [] [] 0 hsize hrequest
    obtain rfl := Except.ok.inj (hinit.symm.trans hinit')
    obtain ⟨rfl, -⟩ := BuilderRun.mk.inj (Option.some.inj (hexec.symm.trans hexec'))
    rw [finalize_eq, hclose] at hfinal
    obtain ⟨hdeep, hflag⟩ := depth_errorFlag_of_under hdepth hunder hw rfl herr
    rw [← hdeep, ← hflag]
    exact (giveAway_under_iff hunder hw herr).mp ⟨_, hfinal⟩
  · rintro ⟨hright, hidle⟩
    have hstored := hright.mono fun _ _ => RightArray.stored
    refine ⟨fun platform front footer d c h hv hroom => ?_, ?_⟩
    · exact h.subDocument_appends hbound hv name content more platform.fills_arrayKey hstored hroom
    · intro platform service command cmdId hgrow hsize hrequest
      obtain ⟨b₀, b₁, b₂, f, hole, hinit, hexec, hclose, hunder, hw, herr⟩ :=
        initializeFrom_under hbound hgrow hcap hdepth more hstored service command cmdId hsize hrequest
      obtain ⟨hdeep, hflag⟩ := depth_errorFlag_of_under hdepth hunder hw rfl herr
      rw [← hdeep, ← hflag] at hidle
      obtain ⟨b₃, hgive⟩ := (giveAway_under_iff hunder hw herr).mpr hidle
      refine ⟨b₀, b₁, b₃, hinit, hexec, ?_⟩
      rw [finalize_eq, hclose]
      exact hgive

/-- A document with a number in it, to which a document with a bool and an array are added. -/
theorem continues_subDocument_nested :
    ContinuesRight 400 [97] (.leaf [98] (.i32 7) .nil) [1]
      [.begin (.name [99]) .doc, .add (.name [100]) (.bool true), .close .doc,
        .begin (.name [101]) .array, .add .index (.i32 8), .close .array]
      (.sub .doc [99] (.leaf [100] (.bool true) .nil)
        (.sub .array [101] (rekey .array 0 (.leaf [] (.i32 8) .nil)) .nil)) {} :=
  (continues_subDocument_iff (by decide) [97] (.leaf [98] (.i32 7) .nil) [1]
    (.document [99] (.value [100] (.bool true) .done)
      (.array [101] (⟨⟨fun _ => by decide, trivial⟩, rfl⟩ : PassedArray (.leaf [] (.i32 8) .nil) _)
        .done))
    (by decide +kernel) (by decide) (by decide)).mpr
    ⟨.document [99] (.value [100] (.bool true) .done)
      (.array [101] (⟨⟨fun _ => by decide, trivial⟩, ⟨fun _ _ => nofun, trivial⟩, rfl⟩ :
        RightArray (.leaf [] (.i32 8) .nil) _) .done), rfl, rfl⟩

/-- **A bool in an array** that is added to a document is written as the other one. -/
theorem not_continues_subDocument :
    ¬ ∀ (bound : ℕ) (name : List UInt8) (content : Elements) (more : List UInt8)
      (calls : List BuilderCall) (fields : Elements), bound < 2147483648 →
      AddsFields PassedArray calls fields →
      name.length + content.bytes.length + fields.bytes.length + 200 ≤ bound →
      ContinuesRight bound name content more calls fields {} := by
  intro h
  have hcontinues := h 300 [97] .nil [] [.begin (.name [98]) .array, .add .index (.bool true),
      .close .array] (.sub .array [98] (rekey .array 0 (.leaf [] (.bool true) .nil)) .nil) (by decide)
    (.array [98] (⟨⟨fun _ => by decide, trivial⟩, rfl⟩ : PassedArray (.leaf [] (.bool true) .nil) _)
      .done) (by decide +kernel)
  have hroom : Roomy .tight 300 (BsonBuilder.initializeBuffer (List.replicate 300 0) {}) :=
    .inr ⟨rfl, by decide +kernel, by decide +kernel⟩
  obtain ⟨-, -, c, tail, hexec, hbuf, -⟩ := hcontinues.appends .tight [] 0 _ _
    (writing_initializeBuffer (by decide +kernel)) hroom (by decide +kernel)
  have hrun : (Runs.exec (BuilderRun.step .tight)
      ⟨BsonBuilder.initializeBuffer (List.replicate 300 0) {}, true⟩
      (.beginFrom [97] (document (Elements.bytes .nil) ++ [])
        :: ([.begin (.name [98]) .array, .add .index (.bool true), .close .array]
          ++ [.close .doc]))).map (fun s => s.builder.buffer[21]?) = some (some 0) := by
    decide +kernel
  rw [hexec] at hrun
  have hzero : c.buffer[21]? = some 0 := Option.some.inj hrun
  rw [hbuf, List.getElem?_append_left (by decide +kernel)] at hzero
  exact absurd hzero (by decide +kernel)

end Requests

end ScApi
