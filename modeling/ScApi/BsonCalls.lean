import ScApi.BsonWriting
import ScApi.Lib.Runs

/-!
# Calls of the BSON builder

The member functions for documents and for arrays come in pairs: they differ in how the key of the
element is made. A `BuilderKey` says which of the two is meant, and a `BuilderCall` is a member
function with its arguments. A run makes one call after the other and notes whether all of them have succeeded.

## Main results

* `Writing.addLeaf`, `Writing.addElement`: an element that had room is a part of the draft.
* `Writing.beginContainer`, `Writing.close`: containers.
* `BuilderKey.insert_eq`: both ways to make a key are one write of the element's header.
-/

open Bytes Buffer Bson

namespace ScApi

/-- Where a call puts its element: under a name, or under the next index. -/
inductive BuilderKey where
  | name (name : List UInt8)
  | index
  deriving DecidableEq, Repr

/-- A member function with its arguments. -/
inductive BuilderCall where
  | add (key : BuilderKey) (v : Leaf)
  | addBytes (key : BuilderKey) (bytes : List UInt8) (byteCount : ℤ) (subtype : UInt8)
  | addSubDoc (name subDocument : List UInt8)
  | begin (key : BuilderKey) (kind : Kind)
  | beginFrom (name subDocument : List UInt8)
  | close (kind : Kind)
  deriving DecidableEq, Repr

namespace BuilderKey

/-- The containers that a call with this key is meant for. -/
def kind : BuilderKey → Kind
  | name _ => .doc
  | index => .array

/-- The member function that makes the key. -/
def insert (platform : Platform) : BuilderKey → UInt8 → ℤ → BsonBuilder → Build (Bool × BsonBuilder)
  | name n, elementType => BsonBuilder.verifyCapacityAndInsertKey platform elementType n
  | index, elementType => BsonBuilder.verifyCapacityAndInsertArrayKey platform elementType

/-- The value that comes to lie in the buffer. -/
def stored : BuilderKey → Leaf → Leaf
  | index, .bool value => .bool (!value)
  | _, v => v

@[simp] theorem typeByte_stored (key : BuilderKey) (v : Leaf) :
    (key.stored v).typeByte = v.typeByte := by
  cases key <;> cases v <;> rfl

@[simp] theorem length_stored (key : BuilderKey) (v : Leaf) :
    (key.stored v).bytes.length = v.bytes.length := by
  cases key <;> cases v <;> rfl

/-- The builder with the index taken. -/
def taken (b : BsonBuilder) : BuilderKey → BsonBuilder
  | name _ => b
  | index => { b with
      arrayIdxCounters := match b.arrayIdxCounters with
        | [] => []
        | idx :: counters => wrap32 (idx + 1) :: counters }

/-- The key with its NUL byte. -/
def bytes (platform : Platform) (b : BsonBuilder) : BuilderKey → List UInt8
  | name n => n ++ [0]
  | index => BsonBuilder.fillArrayDocKey (platform.keyBuffer b) (b.arrayIdxCounters.headD 0)

end BuilderKey

namespace BuilderCall

/-- The call is made. The functions that close a container have no result, and count as successful. -/
def perform (platform : Platform) : BuilderCall → BsonBuilder → Build (Bool × BsonBuilder)
  | add (.name n) v => BsonBuilder.docAddElement platform n v
  | add .index v => BsonBuilder.arrayAddElement platform v
  | addBytes (.name n) bytes byteCount subtype =>
      BsonBuilder.docAddBytes platform n bytes byteCount subtype
  | addBytes .index bytes byteCount subtype =>
      BsonBuilder.arrayAddBytes platform bytes byteCount subtype
  | addSubDoc n subDocument => BsonBuilder.docAddSubDoc platform n subDocument
  | begin (.name n) .doc => BsonBuilder.docBeginSubDoc platform n
  | begin (.name n) .array => BsonBuilder.docBeginSubArray platform n
  | begin .index .doc => BsonBuilder.arrayBeginSubDoc platform
  | begin .index .array => BsonBuilder.arrayBeginSubArray platform
  | beginFrom n subDocument => BsonBuilder.docBeginSubDocFrom platform n subDocument
  | close .doc => fun b => do
      let b ← b.endDocument
      pure (true, b)
  | close .array => fun b => do
      let b ← b.endArray
      pure (true, b)

/-- The key of the element that a call adds. -/
def key : BuilderCall → Option BuilderKey
  | add key _ => some key
  | addBytes key _ _ _ => some key
  | addSubDoc name _ => some (.name name)
  | begin key _ => some key
  | beginFrom name _ => some (.name name)
  | close _ => none

end BuilderCall

/-- A builder, and whether all calls were successful. -/
structure BuilderRun where
  builder : BsonBuilder
  succeeded : Bool
  deriving DecidableEq, Repr

/-- One call. There is no next state when the builder stops. -/
def BuilderRun.step (platform : Platform) (s : BuilderRun) (c : BuilderCall) : Option BuilderRun :=
  match c.perform platform s.builder with
  | .ok (ok, builder) => some ⟨builder, s.succeeded && ok⟩
  | .error _ => none

/-- An index that is taken is less than `n`. -/
def BuilderRun.IndexBelow (n : ℕ) (s : BuilderRun) (c : BuilderCall) : Prop :=
  c.key = some .index → ∃ (idx : ℕ) (counters : List ℤ),
    s.builder.arrayIdxCounters = (idx : ℤ) :: counters ∧ idx < n

theorem BuilderRun.IndexBelow.of_key {n : ℕ} {s : BuilderRun} {c : BuilderCall}
    (h : c.key ≠ some .index) : s.IndexBelow n c :=
  fun hkey => absurd hkey h

namespace BsonBuilder

/-- A value behind a key that `insert` makes. -/
def addLeaf (insert : UInt8 → ℤ → BsonBuilder → Build (Bool × BsonBuilder)) :
    Leaf → BsonBuilder → Build (Bool × BsonBuilder)
  | .bool value => addElement (insert 0x08 1) [if value then 1 else 0]
  | .double value => addElement (insert 0x01 8) (toLe 8 value.toNat)
  | .i32 value => addElement (insert 0x10 4) (toLe 4 value.toNat)
  | .i64 value => addElement (insert 0x12 8) (toLe 8 value.toNat)
  | .null => insert 0x0A 0
  | .string value => addString (insert 0x02) value
  | .binary data subtype => addBytes (insert 0x05) data (wrap32 data.length) subtype

end BsonBuilder

theorem BuilderCall.perform_add (platform : Platform) (key : BuilderKey) (v : Leaf) :
    (BuilderCall.add key v).perform platform
      = BsonBuilder.addLeaf (key.insert platform) (key.stored v) := by
  cases key with
  | name n => cases v <;> rfl
  | index =>
      cases v with
      | bool value => cases value <;> rfl
      | _ => rfl

theorem BuilderCall.perform_addBytes (platform : Platform) (key : BuilderKey) (bytes : List UInt8) (byteCount : ℤ)
    (subtype : UInt8) : (BuilderCall.addBytes key bytes byteCount subtype).perform platform
      = BsonBuilder.addBytes (key.insert platform 0x05) bytes byteCount subtype := by
  cases key <;> rfl

theorem BuilderCall.perform_begin (platform : Platform) (key : BuilderKey) (kind : Kind) :
    (BuilderCall.begin key kind).perform platform
      = BsonBuilder.beginContainer (key.insert platform kind.typeByte 5) kind := by
  cases key <;> cases kind <;> rfl

/-- **A document is copied** up to its end, whatever lies behind it. -/
theorem BsonBuilder.docAddSubDoc_eq (platform : Platform) (name : List UInt8) {body : List UInt8}
    (hlen : (document body).length < 2147483648) (tail : List UInt8) (b : BsonBuilder) :
    b.docAddSubDoc platform name (document body ++ tail)
      = addElement (verifyCapacityAndInsertKey platform 0x03 name (document body).length)
        (document body) b := by
  have hsize : (document body ++ tail).take 4 = (document body).take 4 := by
    rw [List.take_append_of_le_length (by rw [length_document]; omega)]
  rw [docAddSubDoc, hsize, toI32_take_document hlen, if_neg (by omega), Int.toNat_natCast,
    List.take_left]

theorem perform_close_iff {platform : Platform} {b b' : BsonBuilder} :
    (BuilderCall.close .doc).perform platform b = .ok (true, b') ↔ b.endDocument = .ok b' := by
  show (do let b ← b.endDocument; pure (true, b)) = _ ↔ _
  cases b.endDocument <;> simp [bind, Except.bind, pure, Except.pure]

/-- **Both ways to make a key** write the header of an element. -/
theorem BuilderKey.insert_eq {platform : Platform} {key : BuilderKey} {b : BsonBuilder} {k : List UInt8}
    (typeByte : UInt8) (size : ℤ) (hk : key.bytes platform b = k ++ [0])
    (hne : key = .index → b.arrayIdxCounters ≠ []) :
    key.insert platform typeByte size b
      = (key.taken b).insertHeader platform (header typeByte k) size := by
  cases key with
  | name n =>
      obtain rfl : n = k := List.append_cancel_right hk
      rfl
  | index =>
      obtain ⟨idx, counters, hcons⟩ := List.exists_cons_of_ne_nil (hne rfl)
      rw [BuilderKey.bytes, hcons, List.headD_cons] at hk
      rw [BuilderKey.insert, BsonBuilder.verifyCapacityAndInsertArrayKey, hcons]
      dsimp only
      rw [hk, header, BuilderKey.taken, hcons]

/-- Taking an index changes nothing else. -/
theorem BuilderKey.taken_same (key : BuilderKey) (b : BsonBuilder) :
    SameBacking b (key.taken b) ∧ (key.taken b).currentUsage = b.currentUsage ∧
      (key.taken b).capacity = b.capacity := by
  cases key <;> exact ⟨⟨rfl, rfl, rfl, rfl⟩, rfl, rfl⟩

namespace Writing

variable {front : List UInt8} {footer : ℕ} {d : Draft} {b b₁ : BsonBuilder}

/-- The index of the next element is taken. -/
theorem taken {key : BuilderKey} (h : Writing front footer d [] 0 b)
    (hidx : key = .index → ∃ (idx : ℤ) (counters : List ℤ), d.counters = idx :: counters ∧
      0 ≤ idx ∧ idx < 2147483647) :
    Writing front footer (d.tick key.kind 1) [] 0 (key.taken b) := by
  have harrays : (d.tick key.kind 1).counters.length = (d.tick key.kind 1).arrays.length :=
    (Draft.length_counters_tick key.kind 1 d).trans h.arrays
  cases key with
  | name n => exact h
  | index =>
      obtain ⟨idx, counters, hcons, h0, hlt⟩ := hidx rfl
      refine ⟨h.buffer, h.holes, h.offset, h.usage, h.room, h.small, h.capacity, h.stack, ?_, harrays,
        h.depth, h.start⟩
      simp only [BuilderKey.taken, h.counters, BuilderKey.kind, Draft.tick, hcons, Nat.cast_one]
      rw [wrap32_of_range (by omega) (by omega)]

/-- The key of the next element is made. -/
theorem insert_eq {platform : Platform} {key : BuilderKey} {k : List UInt8} (typeByte : UInt8)
    (size : ℤ) (h : Writing front footer d [] 0 b) (hk : key.bytes platform b = k ++ [0])
    (hidx : key = .index → ∃ (idx : ℤ) (counters : List ℤ), d.counters = idx :: counters ∧
      0 ≤ idx ∧ idx < 2147483647) :
    key.insert platform typeByte size b
      = (key.taken b).insertHeader platform (header typeByte k) size := by
  refine BuilderKey.insert_eq typeByte size hk fun hkey => ?_
  obtain ⟨idx, counters, hcons, -⟩ := hidx hkey
  rw [h.counters, hcons]
  exact List.cons_ne_nil _ _

/-- There is room for some more bytes. -/
theorem verifyEnoughCapacity_of_le {platform : Platform} {n : ℕ} (h : Writing front footer d [] 0 b)
    (hle : b.currentUsage + n ≤ b.capacity) :
    b.verifyEnoughCapacity platform n = .ok (true, b) := by
  have husage := h.usage
  have hrange := wrap32_range b.buffer.length
  have hwrap : wrap32 (b.currentUsage + n) = b.currentUsage + n := by
    rw [h.capacity] at hle
    exact wrap32_of_range (by omega) (by omega)
  rw [BsonBuilder.verifyEnoughCapacity, hwrap, if_pos hle]
  rfl

/-- **A value behind its key**: the element is complete. -/
theorem addElement {insert : BsonBuilder → Build (Bool × BsonBuilder)} {written value : List UInt8}
    {e : Elements} (hinsert : insert b = .ok (true, b₁))
    (h : Writing front footer d written value.length b₁) (he : e.bytes = written ++ value) :
    ∃ b', BsonBuilder.addElement insert value b = .ok (true, b') ∧
      Writing front footer (d.add e) [] 0 b' ∧ SameBacking b₁ b' := by
  obtain ⟨b', hb', hw, hsame⟩ := h.writeValue le_rfl
  rw [Nat.sub_self, ← he] at hw
  refine ⟨b', ?_, hw.add, hsame⟩
  rw [BsonBuilder.addElement, hinsert]
  show (do let b ← b₁.writeValue value; pure (true, b)) = _
  rw [hb']
  rfl

/-- A string behind its key. Its NUL byte is written last. -/
theorem addString {insert : ℤ → BsonBuilder → Build (Bool × BsonBuilder)}
    {written value : List UInt8} {e : Elements}
    (hinsert : insert (value.length + 5 : ℕ) b = .ok (true, b₁))
    (h : Writing front footer d written (value.length + 5) b₁)
    (he : e.bytes = written ++ (Leaf.string value).bytes) :
    ∃ b', BsonBuilder.addString insert value b = .ok (true, b') ∧
      Writing front footer (d.add e) [] 0 b' ∧ SameBacking b₁ b' := by
  obtain ⟨tail, hbuf⟩ := h.buffer
  obtain ⟨first, hfirst⟩ : ∃ first, first = toLe 4 (value.length + 1) ++ value := ⟨_, rfl⟩
  have hroom := h.room
  have hsmall := h.small
  have hlen : first.length = value.length + 4 := by
    rw [hfirst, List.length_append, length_toLe, Nat.add_comm]
  have hlen' : (first ++ [(0 : UInt8)]).length = value.length + 5 := by
    rw [List.length_append, hlen, List.length_singleton]
  have hdata : wrap32 (wrap32 value.length + 1) = (value.length + 1 : ℕ) := by
    rw [wrap32_natCast (by omega), wrap32_of_range (by omega) (by omega), Nat.cast_succ]
  have hsize : wrap32 (((value.length + 1 : ℕ) : ℤ) + 4) = (value.length + 5 : ℕ) := by
    rw [wrap32_of_range (by omega) (by omega)]
    omega
  have hend : wrap32 (b₁.offset + (value.length + 5 : ℕ)) - 1
      = (d.spine front ++ written ++ first).length := by
    have hall : (d.spine front ++ written ++ first).length
        = (d.spine front ++ written).length + first.length := List.length_append
    rw [hall, hlen, h.offset, wrap32_of_range (by omega) (by omega)]
    omega
  obtain ⟨hw, hsame⟩ := h.advance hbuf hlen'.le
  rw [hlen'] at hsame
  rw [hlen', Nat.sub_self] at hw
  have hstring : written ++ (first ++ [0]) = e.bytes := by rw [he, hfirst, Leaf.bytes]
  rw [hstring] at hw
  refine ⟨_, ?_, hw.add, hsame⟩
  have hput : b₁.write b₁.offset (ofI32 (value.length + 1 : ℕ) ++ value)
      = .ok { b₁ with buffer := d.spine front ++ written ++ first ++ tail.drop first.length } := by
    rw [ofI32_natCast (by omega), ← hfirst]
    exact h.write_end hbuf (by omega)
  have hnul : { b₁ with buffer := d.spine front ++ written ++ first ++ tail.drop first.length
        : BsonBuilder }.write (d.spine front ++ written ++ first).length [0]
      = .ok { b₁ with
        buffer := d.spine front ++ written ++ (first ++ [0]) ++ tail.drop (value.length + 5) } := by
    have hbuflen := congrArg List.length hbuf
    have hin : (d.spine front ++ written ++ first).length + [(0 : UInt8)].length
        ≤ (d.spine front ++ written ++ first ++ tail.drop first.length).length := by
      simp only [List.length_append, List.length_drop, List.length_singleton] at hroom hbuflen ⊢
      omega
    rw [BsonBuilder.write_end rfl hin, List.drop_drop, hlen, List.length_singleton,
      List.append_assoc (d.spine front ++ written) first [0]]
  rw [BsonBuilder.addString, hdata, hsize, hinsert]
  show (do
    let b ← b₁.write b₁.offset (ofI32 (value.length + 1 : ℕ) ++ value)
    let b' ← b.write (wrap32 (b.offset + (value.length + 5 : ℕ)) - 1) [0]
    pure (true, { b' with offset := wrap32 (b.offset + (value.length + 5 : ℕ)) })) = _
  rw [hput]
  show (do
    let b' ← { b₁ with buffer := d.spine front ++ written ++ first ++ tail.drop first.length
        : BsonBuilder }.write (wrap32 (b₁.offset + (value.length + 5 : ℕ)) - 1) [0]
    pure (true, { b' with offset := wrap32 (b₁.offset + (value.length + 5 : ℕ)) })) = _
  rw [hend, hnul]
  rfl

/-- Bytes with their number behind a key. -/
theorem addBytes {insert : ℤ → BsonBuilder → Build (Bool × BsonBuilder)}
    {written bytes : List UInt8} {n : ℕ} {subtype : UInt8} {e : Elements}
    (hinsert : insert (n + 5 : ℕ) b = .ok (true, b₁)) (hn : n ≤ bytes.length)
    (h : Writing front footer d written (n + 5) b₁)
    (he : e.bytes = written ++ (Leaf.binary (bytes.take n) subtype).bytes) :
    ∃ b', BsonBuilder.addBytes insert bytes n subtype b = .ok (true, b') ∧
      Writing front footer (d.add e) [] 0 b' ∧ SameBacking b₁ b' := by
  have hsmall := h.small
  have htake : (bytes.take n).length = n := List.length_take_of_le hn
  have hvalue : (Leaf.binary (bytes.take n) subtype).bytes
      = ofI32 n ++ subtype :: bytes.take n := by
    rw [Leaf.bytes, htake, ofI32_natCast (by omega)]
  have hlen : (ofI32 n ++ subtype :: bytes.take n).length = n + 5 := by
    rw [List.length_append, length_ofI32, List.length_cons, htake]
    omega
  rw [hvalue] at he
  rw [← hlen] at h hinsert
  obtain ⟨b', hb', hw, hsame⟩ := addElement hinsert h he
  refine ⟨b', ?_, hw, hsame⟩
  have hsize : wrap32 ((n : ℤ) + 5) = ((ofI32 n ++ subtype :: bytes.take n).length : ℕ) := by
    rw [hlen, wrap32_of_range (by omega) (by omega)]
    omega
  rw [BsonBuilder.addBytes, if_neg (by omega), hsize, ← hb', BsonBuilder.addElement]
  dsimp only
  rw [hinsert, Int.toNat_natCast]
  dsimp only [bind, Except.bind]
  rw [if_pos rfl, if_pos rfl, BsonBuilder.writeValue]
  cases b₁.write b₁.offset (ofI32 n ++ subtype :: bytes.take n) with
  | error e => rfl
  | ok b => rfl

/-- **A leaf behind its key**: the element is complete. -/
theorem addLeaf {insert : UInt8 → ℤ → BsonBuilder → Build (Bool × BsonBuilder)} {key : List UInt8}
    {v : Leaf} (hinsert : insert v.typeByte v.bytes.length b = .ok (true, b₁))
    (h : Writing front footer d (header v.typeByte key) v.bytes.length b₁) :
    ∃ b', BsonBuilder.addLeaf insert v b = .ok (true, b') ∧
      Writing front footer (d.add (.leaf key v .nil)) [] 0 b' ∧ SameBacking b₁ b' := by
  have he : (Elements.leaf key v .nil).bytes = header v.typeByte key ++ v.bytes := by
    rw [Elements.bytes, Elements.bytes, List.append_nil]
  cases v with
  | bool value => exact addElement hinsert h he
  | double bits =>
      rw [Leaf.length_bytes_double] at hinsert
      exact addElement hinsert h he
  | i32 v =>
      rw [Leaf.length_bytes_i32] at hinsert
      exact addElement hinsert h he
  | i64 v =>
      rw [Leaf.length_bytes_i64] at hinsert
      exact addElement hinsert h he
  | null =>
      have hnil : (Leaf.null).bytes = [] := rfl
      rw [hnil, List.append_nil] at he
      rw [← he] at h
      exact ⟨b₁, hinsert, h.add, SameBacking.refl b₁⟩
  | string s =>
      rw [Leaf.length_bytes_string] at hinsert h
      exact addString hinsert h he
  | binary data subtype =>
      rw [Leaf.length_bytes_binary] at hinsert h
      have hsmall := h.small
      rw [BsonBuilder.addLeaf, wrap32_natCast (by omega)]
      exact addBytes hinsert le_rfl h (by rw [List.take_length]; exact he)

/-- **A container begins behind its key.** -/
theorem beginContainer {insert : BsonBuilder → Build (Bool × BsonBuilder)} {kind : Kind}
    {key : List UInt8} (hinsert : insert b = .ok (true, b₁))
    (h : Writing front footer d (header kind.typeByte key) 5 b₁) :
    ∃ hole b', BsonBuilder.beginContainer insert kind b = .ok (true, b') ∧
      Writing front footer (d.push ⟨kind, key, hole, .nil⟩) [] 0 b' ∧ SameBacking b₁ b' := by
  obtain ⟨hole, hw, hsame⟩ := openContainer (n := 0) h
  refine ⟨hole, _, ?_, hw, hsame⟩
  rw [BsonBuilder.beginContainer, hinsert]
  rfl

/-- **A container goes on from a document.** -/
theorem docBeginSubDocFrom {platform : Platform} {name key : List UInt8} {e : Elements}
    (hlen : (document e.bytes).length < 2147483648)
    (hinsert : b.verifyCapacityAndInsertKey platform 0x03 name (document e.bytes).length
      = .ok (true, b₁))
    (h : Writing front footer d (header Kind.doc.typeByte key) (document e.bytes).length b₁) :
    ∃ hole b', b.docBeginSubDocFrom platform name (document e.bytes) = .ok (true, b') ∧
      Writing front footer (d.push ⟨.doc, key, hole, e⟩) [] 0 b' ∧ SameBacking b₁ b' := by
  rw [length_document] at h
  obtain ⟨hole, hw, hsame⟩ := openContainer h
  obtain ⟨b', hb', hw', hsame'⟩ := hw.writeValue le_rfl
  refine ⟨hole, b', ?_, ?_, hsame.trans hsame'⟩
  · have hsize : ((document e.bytes).length : ℤ) - 5 = e.bytes.length := by
      rw [length_document]
      omega
    have hbody : ((document e.bytes).drop 4).take (((document e.bytes).length : ℤ) - 5).toNat
        = e.bytes := by
      rw [hsize, Int.toNat_natCast]
      have hall := take_drop_document e.bytes
      rwa [length_document, Nat.add_sub_cancel] at hall
    have hlong : ¬ ((document e.bytes).length : ℤ) < 5 := by
      rw [length_document]
      omega
    rw [BsonBuilder.docBeginSubDocFrom, toI32_take_document hlen, hinsert]
    dsimp only [bind, Except.bind]
    rw [if_pos rfl, if_neg hlong, hbody, hsize]
    rw [BsonBuilder.writeValue] at hb'
    cases hwrite : (b₁.openContainer .doc).write (b₁.openContainer .doc).offset e.bytes with
    | error stop =>
        rw [hwrite] at hb'
        exact absurd hb' (by simp [bind, Except.bind])
    | ok b₂ =>
        rw [hwrite] at hb'
        exact congrArg (fun b => Except.ok (true, b)) (Except.ok.inj hb')
  · rw [Nat.sub_self] at hw'
    exact hw'.add

/-- **A container ends.** -/
theorem close (platform : Platform) {l : Layer} {outer : List Layer}
    (h : Writing front footer d [] 0 b) (hl : d.layers = l :: outer) :
    ∃ b', (BuilderCall.close l.kind).perform platform b = .ok (true, b') ∧
      Writing front footer d.pop [] 0 b' ∧ SameBacking b b' := by
  obtain ⟨start, offsets, b', hstack, hclose, hw, hsame⟩ := h.closeContainer hl
  refine ⟨_, ?_, hw, hsame⟩
  have hcounters := h.counters
  have harrays := h.arrays
  have hpop : d.pop.counters = (d.dropLayer l outer).counters := by
    rw [Draft.pop, hl, Draft.counters_add]
  rw [hpop, Draft.dropLayer] at hclose
  cases hk : l.kind with
  | doc =>
      rw [hk] at hclose
      dsimp only at hclose
      rw [← hcounters] at hclose
      show (do let b ← b.endDocument; pure (true, b)) = _
      rw [BsonBuilder.endDocument, hstack]
      dsimp only
      rw [hclose]
      rfl
  | array =>
      rw [Draft.arrays, hl, List.map_cons, hk] at harrays
      obtain ⟨idx, counters, hcons⟩ := List.exists_cons_of_length_eq_add_one harrays
      rw [hk] at hclose
      dsimp only at hclose
      rw [hcons, List.tail_cons] at hclose
      show (do let b ← b.endArray; pure (true, b)) = _
      rw [BsonBuilder.endArray, hstack, hcounters, hcons]
      dsimp only
      rw [hclose]
      rfl

end Writing

/-- **A builder that was given a buffer** holds an empty draft. -/
theorem writing_initializeBuffer {buffer : List UInt8} (h : 5 ≤ buffer.length) :
    Writing [] 0 ⟨buffer.take 4, .nil, [], []⟩ [] 0 (BsonBuilder.initializeBuffer buffer {}) := by
  have hhole : (buffer.take 4).length = 4 := List.length_take_of_le (by omega)
  have hspine : (⟨buffer.take 4, .nil, [], []⟩ : Draft).spine [] ++ [] = buffer.take 4 := by
    rw [Draft.spine, Draft.spineOf, Elements.bytes, List.append_nil, List.append_nil,
      List.nil_append]
  refine ⟨⟨buffer.drop 4, ?_⟩, ⟨hhole, fun l hl => absurd hl List.not_mem_nil⟩, ?_, ?_, ?_, ?_, rfl,
    rfl, rfl, rfl, rfl, rfl⟩
  · rw [hspine, List.take_append_drop]
    rfl
  · rw [hspine, hhole]
    show wrap32 (0 + 4) = 4
    exact wrap32_of_range (by decide) (by decide)
  · rw [hspine, hhole]
    show wrap32 (0 + 5) = 5
    exact wrap32_of_range (by decide) (by decide)
  · rw [hspine, hhole]
    exact h
  · rw [hspine, hhole]
    show 5 < 2147483648
    decide

/-! ### Calls without room -/

namespace BsonBuilder

variable {b b₁ : BsonBuilder}

theorem addElement_of_full {insert : BsonBuilder → Build (Bool × BsonBuilder)} {value : List UInt8}
    (hinsert : insert b = .ok (false, b₁)) : addElement insert value b = .ok (false, b₁) := by
  rw [addElement, hinsert]
  rfl

theorem addBytes_of_full {insert : ℤ → BsonBuilder → Build (Bool × BsonBuilder)} {bytes : List UInt8}
    {n : ℕ} {subtype : UInt8} (hn : n + 5 < 2147483648)
    (hinsert : insert (n + 5 : ℕ) b = .ok (false, b₁)) :
    addBytes insert bytes n subtype b = .ok (false, b₁) := by
  have hsize : wrap32 ((n : ℤ) + 5) = (n + 5 : ℕ) := by
    rw [wrap32_of_range (by omega) (by omega), Nat.cast_add]
    rfl
  rw [addBytes, if_neg (by omega), hsize]
  dsimp only
  rw [hinsert]
  rfl

/-- **Without room for a leaf** nothing is written. -/
theorem addLeaf_of_full {insert : UInt8 → ℤ → BsonBuilder → Build (Bool × BsonBuilder)} {v : Leaf}
    (hv : v.bytes.length < 2147483648)
    (hinsert : insert v.typeByte v.bytes.length b = .ok (false, b₁)) :
    addLeaf insert v b = .ok (false, b₁) := by
  cases v with
  | bool value => exact addElement_of_full hinsert
  | double bits =>
      rw [Leaf.length_bytes_double] at hinsert
      exact addElement_of_full hinsert
  | i32 v =>
      rw [Leaf.length_bytes_i32] at hinsert
      exact addElement_of_full hinsert
  | i64 v =>
      rw [Leaf.length_bytes_i64] at hinsert
      exact addElement_of_full hinsert
  | null => exact hinsert
  | string s =>
      rw [Leaf.length_bytes_string] at hinsert hv
      have hdata : wrap32 (wrap32 (wrap32 s.length + 1) + 4) = (s.length + 5 : ℕ) := by
        have hsucc : wrap32 ((s.length : ℤ) + 1) = s.length + 1 :=
          wrap32_of_range (by omega) (by omega)
        rw [wrap32_natCast (n := s.length) (by omega), hsucc, wrap32_of_range (by omega) (by omega)]
        omega
      rw [addLeaf, addString]
      dsimp only
      rw [hdata]
      have hfull : insert 0x02 (s.length + 5 : ℕ) b = .ok (false, b₁) := hinsert
      rw [hfull]
      rfl
  | binary data subtype =>
      rw [Leaf.length_bytes_binary] at hinsert hv
      rw [addLeaf, wrap32_natCast (by omega)]
      exact addBytes_of_full hv hinsert

end BsonBuilder

end ScApi
