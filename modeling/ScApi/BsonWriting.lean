import ScApi.BsonBuilder

/-!
# Documents under construction

While a document is built, its bytes lie in the buffer up to the builder's offset, except for the
sizes of the documents that are still open. `Draft` is the document as it is meant so far: its own
elements, and the open containers with theirs. `Writing` says that a builder holds a draft, with what
was written since for the next element and with the bytes that are promised to its value.

Every function of the builder is described by what it makes of this relation.

## Main results

* `Writing.insertHeader`, `Writing.writeValue`, `Writing.add`: an element in three steps.
* `Writing.openContainer`, `Writing.closeContainer`: a container becomes a part of the draft, and an
  element of the container around it.
-/

open Bytes Buffer Bson

namespace ScApi

/-- A container that is open. `hole` is what the buffer holds in the place of its size. -/
structure Layer where
  kind : Kind
  key : List UInt8
  hole : List UInt8
  elements : Elements

/-- A document under construction, with its innermost open container first. -/
structure Draft where
  hole : List UInt8
  main : Elements
  layers : List Layer
  counters : List ℤ

namespace Draft

/-- The bytes of open containers behind those in front of them. -/
def spineOf (base : List UInt8) : List Layer → List UInt8
  | [] => base
  | l :: outer => spineOf base outer ++ header l.kind.typeByte l.key ++ l.hole ++ l.elements.bytes

/-- The places of the sizes of open containers. -/
def offsetsOf (base : List UInt8) : List Layer → List ℤ
  | [] => []
  | l :: outer =>
      ((spineOf base outer ++ header l.kind.typeByte l.key).length : ℤ) :: offsetsOf base outer

/-- The bytes of a draft, behind those in front of the document. -/
def spine (front : List UInt8) (d : Draft) : List UInt8 :=
  spineOf (front ++ d.hole ++ d.main.bytes) d.layers

/-- The places of the sizes of the open containers of a draft. -/
def offsets (front : List UInt8) (d : Draft) : List ℤ :=
  offsetsOf (front ++ d.hole ++ d.main.bytes) d.layers

/-- More elements in the innermost open container. -/
def add (e : Elements) (d : Draft) : Draft :=
  match d.layers with
  | [] => { d with main := d.main.append e }
  | l :: outer => { d with layers := { l with elements := l.elements.append e } :: outer }

/-- One more open container. An array counts its elements. -/
def push (l : Layer) (d : Draft) : Draft :=
  { d with
    layers := l :: d.layers
    counters := match l.kind with
      | .doc => d.counters
      | .array => 0 :: d.counters }

/-- The innermost open array has counted some more elements. -/
def tick (kind : Kind) (n : ℕ) (d : Draft) : Draft :=
  { d with
    counters := match kind, d.counters with
      | .array, idx :: counters => (idx + n) :: counters
      | _, counters => counters }

/-- One open container less. -/
def dropLayer (d : Draft) (l : Layer) (outer : List Layer) : Draft :=
  { d with
    layers := outer
    counters := match l.kind with
      | .doc => d.counters
      | .array => d.counters.tail }

/-- The innermost open container is closed, and becomes an element of the one around it. -/
def pop (d : Draft) : Draft :=
  match d.layers with
  | [] => d
  | l :: outer => (d.dropLayer l outer).add (.sub l.kind l.key l.elements .nil)

@[simp] theorem spine_add (front : List UInt8) (e : Elements) (d : Draft) :
    (d.add e).spine front = d.spine front ++ e.bytes := by
  rw [add]
  cases h : d.layers with
  | nil => simp only [spine, spineOf, h, Elements.bytes_append, List.append_assoc]
  | cons l outer => simp only [spine, spineOf, h, Elements.bytes_append, List.append_assoc]

@[simp] theorem offsets_add (front : List UInt8) (e : Elements) (d : Draft) :
    (d.add e).offsets front = d.offsets front := by
  rw [add]
  cases h : d.layers with
  | nil => simp only [offsets, offsetsOf, h]
  | cons l outer => simp only [offsets, offsetsOf, h]

@[simp] theorem kinds_add (e : Elements) (d : Draft) :
    (d.add e).layers.map (·.kind) = d.layers.map (·.kind) := by
  rw [add]
  cases h : d.layers with
  | nil => rfl
  | cons l outer => rfl

@[simp] theorem length_layers_add (e : Elements) (d : Draft) :
    (d.add e).layers.length = d.layers.length := by
  have h := congrArg List.length (kinds_add e d)
  rwa [List.length_map, List.length_map] at h

@[simp] theorem counters_add (e : Elements) (d : Draft) : (d.add e).counters = d.counters := by
  rw [add]
  cases h : d.layers <;> rfl

@[simp] theorem hole_add (e : Elements) (d : Draft) : (d.add e).hole = d.hole := by
  rw [add]
  cases h : d.layers <;> rfl

/-- The open arrays. -/
def arrays (d : Draft) : List Kind :=
  (d.layers.map (·.kind)).filter (· = .array)

@[simp] theorem add_nil (d : Draft) : d.add .nil = d := by
  rcases d with ⟨hole, main, - | ⟨l, outer⟩, counters⟩
  · simp only [add, Elements.append_nil]
  · simp only [add, Elements.append_nil]

theorem add_add (e e' : Elements) (d : Draft) : (d.add e).add e' = d.add (e.append e') := by
  rcases d with ⟨hole, main, - | ⟨l, outer⟩, counters⟩
  · simp only [add, Elements.append_assoc]
  · simp only [add, Elements.append_assoc]

theorem tick_add (kind : Kind) (n : ℕ) (e : Elements) (d : Draft) :
    (d.tick kind n).add e = (d.add e).tick kind n := by
  rcases d with ⟨hole, main, - | ⟨l, outer⟩, counters⟩ <;> rfl

theorem tick_zero (kind : Kind) (d : Draft) : d.tick kind 0 = d := by
  rcases d with ⟨hole, main, layers, - | ⟨idx, counters⟩⟩ <;> cases kind <;>
    simp only [tick, Nat.cast_zero, add_zero]

theorem tick_tick (kind : Kind) (m n : ℕ) (d : Draft) :
    (d.tick kind m).tick kind n = d.tick kind (m + n) := by
  rcases d with ⟨hole, main, layers, - | ⟨idx, counters⟩⟩ <;> cases kind <;>
    simp only [tick, Nat.cast_add, add_assoc]

theorem length_counters_tick (kind : Kind) (n : ℕ) (d : Draft) :
    (d.tick kind n).counters.length = d.counters.length := by
  rcases d with ⟨hole, main, layers, - | ⟨idx, counters⟩⟩ <;> cases kind <;> rfl

/-- **A container that was opened, filled and closed** is an element. -/
theorem pop_push (kind : Kind) (key hole : List UInt8) (e : Elements) (n : ℕ) (d : Draft) :
    (((d.push ⟨kind, key, hole, .nil⟩).add e).tick kind n).pop = d.add (.sub kind key e .nil) := by
  cases kind <;> rfl

theorem spine_push (front : List UInt8) (l : Layer) (d : Draft) :
    (d.push l).spine front
      = d.spine front ++ header l.kind.typeByte l.key ++ l.hole ++ l.elements.bytes := rfl

theorem offsets_push (front : List UInt8) (l : Layer) (d : Draft) :
    (d.push l).offsets front
      = ((d.spine front ++ header l.kind.typeByte l.key).length : ℤ) :: d.offsets front := rfl

theorem length_arrays_push (l : Layer) {d : Draft} (h : d.counters.length = d.arrays.length) :
    (d.push l).counters.length = (d.push l).arrays.length := by
  rw [push, arrays, List.map_cons]
  cases hk : l.kind with
  | doc => exact h
  | array => exact congrArg (· + 1) h

theorem spine_of_layers {d : Draft} {l : Layer} {outer : List Layer} (h : d.layers = l :: outer)
    (front : List UInt8) :
    d.spine front = (d.dropLayer l outer).spine front ++ header l.kind.typeByte l.key ++ l.hole
      ++ l.elements.bytes := by
  rw [spine, h]
  rfl

theorem offsets_of_layers {d : Draft} {l : Layer} {outer : List Layer} (h : d.layers = l :: outer)
    (front : List UInt8) :
    d.offsets front = (((d.dropLayer l outer).spine front ++ header l.kind.typeByte l.key).length : ℤ)
      :: (d.dropLayer l outer).offsets front := by
  rw [offsets, h]
  rfl

theorem length_arrays_dropLayer {d : Draft} {l : Layer} {outer : List Layer}
    (hl : d.layers = l :: outer) (h : d.counters.length = d.arrays.length) :
    (d.dropLayer l outer).counters.length = (d.dropLayer l outer).arrays.length := by
  rw [arrays, hl, List.map_cons] at h
  rw [dropLayer, arrays]
  cases hk : l.kind with
  | doc =>
      rw [hk] at h
      exact h
  | array =>
      rw [hk] at h
      rw [List.length_tail, h]
      rfl

/-- The sizes of all open documents are four bytes long. -/
def HolesFit (d : Draft) : Prop :=
  d.hole.length = 4 ∧ ∀ l ∈ d.layers, l.hole.length = 4

theorem HolesFit.add {d : Draft} (h : d.HolesFit) (e : Elements) : (d.add e).HolesFit := by
  refine ⟨by rw [hole_add, h.1], ?_⟩
  have hlayers := h.2
  rw [Draft.add]
  cases hd : d.layers with
  | nil => rwa [hd] at hlayers
  | cons l outer =>
      rw [hd] at hlayers
      intro l' hl'
      rcases List.mem_cons.mp hl' with rfl | hl'
      · exact hlayers l List.mem_cons_self
      · exact hlayers l' (List.mem_cons_of_mem _ hl')

end Draft

/-- A builder holds a draft behind the bytes `front`. Behind the draft, `written` has been written
for the next element, and `pending` more bytes are promised to it. The footer stays free. -/
structure Writing (front : List UInt8) (footer : ℕ) (d : Draft) (written : List UInt8)
    (pending : ℕ) (b : BsonBuilder) : Prop where
  buffer : ∃ tail, b.buffer = d.spine front ++ written ++ tail
  holes : d.HolesFit
  offset : b.offset = (d.spine front ++ written).length
  usage : b.currentUsage = ((d.spine front ++ written).length + pending + d.layers.length + 1
    + footer : ℕ)
  room : (d.spine front ++ written).length + pending + d.layers.length + 1 + footer
    ≤ b.buffer.length
  small : (d.spine front ++ written).length + pending + d.layers.length + 1 + footer < 2147483648
  capacity : b.capacity = wrap32 b.buffer.length
  stack : b.documentSizeOffsets = d.offsets front
  counters : b.arrayIdxCounters = d.counters
  arrays : d.counters.length = d.arrays.length
  depth : b.depth = d.layers.length
  start : b.startOffset = front.length

/-- What writing into the buffer does not change. -/
structure SameBacking (b b' : BsonBuilder) : Prop where
  length : b'.buffer.length = b.buffer.length
  container : b'.container = b.container
  reallocate : b'.reallocate = b.reallocate
  errorFlag : b'.errorFlag = b.errorFlag

namespace SameBacking

variable {b b' b'' : BsonBuilder}

theorem refl (b : BsonBuilder) : SameBacking b b :=
  ⟨rfl, rfl, rfl, rfl⟩

theorem trans (h : SameBacking b b') (h' : SameBacking b' b'') : SameBacking b b'' :=
  ⟨h'.length.trans h.length, h'.container.trans h.container, h'.reallocate.trans h.reallocate,
    h'.errorFlag.trans h.errorFlag⟩

end SameBacking

theorem wrap32_natCast {n : ℕ} (h : n < 2147483648) : wrap32 (n : ℤ) = n :=
  wrap32_of_range (by omega) (by omega)

theorem wrap32_natCast_le (n : ℕ) : wrap32 (n : ℤ) ≤ n := by
  unfold wrap32
  omega

/-- The four bytes of a size. -/
theorem ofI32_natCast {n : ℕ} (h : n < 2147483648) : ofI32 (n : ℤ) = toLe 4 n := by
  have hmod : ((n : ℤ) % 4294967296).toNat = n := by omega
  rw [ofI32, hmod]

namespace BsonBuilder

variable {b : BsonBuilder} {l tail bytes : List UInt8}

/-- **A write behind what is there.** -/
theorem write_end (hb : b.buffer = l ++ tail) (hle : l.length + bytes.length ≤ b.buffer.length) :
    b.write l.length bytes =
      .ok { b with buffer := l ++ bytes ++ tail.drop bytes.length } := by
  have hin : (0 : ℤ) ≤ (l.length : ℤ) ∧ (l.length : ℤ) + bytes.length ≤ b.buffer.length := by
    omega
  rw [write, if_pos hin, Int.toNat_natCast, hb, overwrite_append_at, List.append_assoc]
  rfl

/-- **A write over bytes of the same number.** -/
theorem write_middle {old : List UInt8} (hb : b.buffer = l ++ old ++ tail)
    (hlen : bytes.length = old.length) :
    b.write l.length bytes = .ok { b with buffer := l ++ bytes ++ tail } := by
  have hbuf : b.buffer.length = l.length + old.length + tail.length := by
    rw [hb, List.length_append, List.length_append]
  have hin : (0 : ℤ) ≤ (l.length : ℤ) ∧ (l.length : ℤ) + bytes.length ≤ b.buffer.length := by
    omega
  rw [write, if_pos hin, Int.toNat_natCast, hb, overwrite_middle hlen]
  rfl

end BsonBuilder

namespace Writing

variable {front written value : List UInt8} {footer pending : ℕ} {d : Draft} {b b' : BsonBuilder}

/-- The state behind a write at the end. -/
theorem advance (h : Writing front footer d written pending b) {tail : List UInt8}
    (hbuf : b.buffer = d.spine front ++ written ++ tail) (hle : value.length ≤ pending) :
    Writing front footer d (written ++ value) (pending - value.length)
        { b with
          buffer := d.spine front ++ written ++ value ++ tail.drop value.length
          offset := wrap32 (b.offset + value.length) } ∧
      SameBacking b { b with
        buffer := d.spine front ++ written ++ value ++ tail.drop value.length
        offset := wrap32 (b.offset + value.length) } := by
  have hroom := h.room
  have hsmall := h.small
  have hlen : (d.spine front ++ written ++ value ++ tail.drop value.length).length
      = b.buffer.length := by
    rw [hbuf] at hroom ⊢
    simp only [List.length_append, List.length_drop] at hroom ⊢
    omega
  have hend : (d.spine front ++ (written ++ value)).length
      = (d.spine front ++ written).length + value.length := by
    rw [← List.append_assoc, List.length_append]
  have htotal : (d.spine front ++ (written ++ value)).length + (pending - value.length)
      = (d.spine front ++ written).length + pending := by
    omega
  refine ⟨⟨⟨tail.drop value.length, by simp only [List.append_assoc]⟩, h.holes, ?_, ?_, ?_, ?_, ?_,
    h.stack, h.counters, h.arrays, h.depth, h.start⟩, ⟨hlen, rfl, rfl, rfl⟩⟩
  · show wrap32 (b.offset + value.length) = _
    rw [h.offset, hend, ← Nat.cast_add]
    exact wrap32_natCast (by omega)
  · rw [htotal]
    exact h.usage
  · rw [htotal]
    exact hroom.trans hlen.ge
  · rw [htotal]
    exact hsmall
  · exact h.capacity.trans (congrArg (fun n : ℕ => wrap32 n) hlen.symm)

theorem write_end {tail : List UInt8} (h : Writing front footer d written pending b)
    (hbuf : b.buffer = d.spine front ++ written ++ tail)
    (hin : (d.spine front ++ written).length + value.length ≤ b.buffer.length) :
    b.write b.offset value =
      .ok { b with buffer := d.spine front ++ written ++ value ++ tail.drop value.length } := by
  exact (congrArg (fun i => b.write i value) h.offset).trans (BsonBuilder.write_end hbuf hin)

/-- **The value of an element is written.** -/
theorem writeValue (h : Writing front footer d written pending b) (hle : value.length ≤ pending) :
    ∃ b', b.writeValue value = .ok b' ∧
      Writing front footer d (written ++ value) (pending - value.length) b' ∧ SameBacking b b' := by
  obtain ⟨tail, hbuf⟩ := h.buffer
  have hroom := h.room
  have hin : (d.spine front ++ written).length + value.length ≤ b.buffer.length := by omega
  refine ⟨_, ?_, h.advance hbuf hle⟩
  rw [BsonBuilder.writeValue, h.write_end hbuf hin]
  rfl

/-- **An element is complete.** -/
theorem add {e : Elements} (h : Writing front footer d e.bytes 0 b) :
    Writing front footer (d.add e) [] 0 b := by
  obtain ⟨tail, hbuf⟩ := h.buffer
  have hspine : (d.add e).spine front ++ [] = d.spine front ++ e.bytes := by
    rw [List.append_nil, Draft.spine_add]
  refine ⟨⟨tail, by rw [hspine, hbuf]⟩, h.holes.add e, ?_, ?_, ?_, ?_, h.capacity, ?_, ?_, ?_, ?_,
    h.start⟩
  · rw [hspine, h.offset]
  · rw [hspine, Draft.length_layers_add, h.usage]
  · rw [hspine, Draft.length_layers_add]
    exact h.room
  · rw [hspine, Draft.length_layers_add]
    exact h.small
  · rw [Draft.offsets_add, h.stack]
  · rw [Draft.counters_add, h.counters]
  · rw [Draft.counters_add, h.arrays, Draft.arrays, Draft.arrays, Draft.kinds_add]
  · rw [Draft.length_layers_add, h.depth]

/-- Room is promised to the next element. -/
theorem reserve {n : ℕ} (h : Writing front footer d [] 0 b)
    (hcap : b.currentUsage + n ≤ b.capacity) :
    Writing front footer d [] n { b with currentUsage := wrap32 (b.currentUsage + n) } := by
  have husage := h.usage
  have hrange := wrap32_range b.buffer.length
  have hle := wrap32_natCast_le b.buffer.length
  rw [h.capacity] at hcap
  refine ⟨h.buffer, h.holes, h.offset, ?_, ?_, ?_, h.capacity, h.stack, h.counters, h.arrays, h.depth,
    h.start⟩
  · show wrap32 (b.currentUsage + n) = _
    rw [wrap32_of_range (by omega) (by omega), husage, ← Nat.cast_add]
    congr 1
    omega
  · show _ ≤ b.buffer.length
    omega
  · omega

/-- **What is in front of a value is written**, when there is room for it and for the value. -/
theorem insertHeader {platform : Platform} {header : List UInt8} {size : ℕ} {b₁ : BsonBuilder}
    (h : Writing front footer d [] 0 b₁)
    (hverify : b.verifyEnoughCapacity platform (size + header.length : ℕ) = .ok (true, b₁))
    (hcap : b₁.currentUsage + (size + header.length : ℕ) ≤ b₁.capacity) :
    ∃ b', b.insertHeader platform header size = .ok (true, b') ∧
      Writing front footer d header size b' ∧ SameBacking b₁ b' := by
  have hreserved := h.reserve hcap
  obtain ⟨tail, hbuf⟩ := h.buffer
  have hbytes : wrap32 ((size : ℤ) + header.length) = (size + header.length : ℕ) := by
    have hsmall := hreserved.small
    rw [← Nat.cast_add]
    exact wrap32_natCast (by omega)
  have hin : (d.spine front ++ []).length + header.length ≤ b₁.buffer.length := by
    have hroom := hreserved.room
    dsimp only at hroom
    omega
  have hle : header.length ≤ size + header.length := by omega
  obtain ⟨hw, hsame⟩ := hreserved.advance hbuf hle
  rw [Nat.add_sub_cancel, List.nil_append] at hw
  refine ⟨_, ?_, hw, ⟨hsame.length, rfl, rfl, rfl⟩⟩
  rw [BsonBuilder.insertHeader, hbytes, hverify]
  show (do
    let b ← b₁.write b₁.offset header
    pure (true, { b with
      offset := wrap32 (b.offset + header.length)
      currentUsage := wrap32 (b.currentUsage + (size + header.length : ℕ)) })) = _
  rw [h.write_end hbuf hin]
  rfl

/-- **A container is opened.** It may go on with as many bytes as were asked for it beyond the five
that every container has. -/
theorem openContainer {kind : Kind} {key : List UInt8} {n : ℕ}
    (h : Writing front footer d (header kind.typeByte key) (n + 5) b) :
    ∃ hole, Writing front footer (d.push ⟨kind, key, hole, .nil⟩) [] n (b.openContainer kind) ∧
      SameBacking b (b.openContainer kind) := by
  obtain ⟨tail, hbuf⟩ := h.buffer
  have hroom := h.room
  have hsmall := h.small
  have hhole : (tail.take 4).length = 4 := by
    have hlen := congrArg List.length hbuf
    rw [List.length_append] at hlen
    rw [List.length_take]
    omega
  have hspine : (d.push ⟨kind, key, tail.take 4, .nil⟩).spine front ++ []
      = d.spine front ++ header kind.typeByte key ++ tail.take 4 := by
    rw [Draft.spine_push, Elements.bytes, List.append_nil, List.append_nil]
  have hlen : ((d.push ⟨kind, key, tail.take 4, .nil⟩).spine front ++ []).length
      = (d.spine front ++ header kind.typeByte key).length + 4 := by
    rw [hspine, List.length_append, hhole]
  have hlayers : (d.push ⟨kind, key, tail.take 4, .nil⟩).layers.length = d.layers.length + 1 := rfl
  refine ⟨tail.take 4, ⟨⟨tail.drop 4, ?_⟩, ⟨h.holes.1, ?_⟩, ?_, ?_, ?_, ?_, h.capacity, ?_, ?_,
    Draft.length_arrays_push _ h.arrays, ?_, h.start⟩, ⟨rfl, rfl, rfl, rfl⟩⟩
  · rw [hspine, List.append_assoc _ (tail.take 4), List.take_append_drop]
    exact hbuf
  · rintro l (_ | ⟨_, hl⟩)
    · exact hhole
    · exact h.holes.2 l hl
  · show wrap32 (b.offset + 4) = _
    rw [hlen, h.offset, wrap32_of_range (by omega) (by omega)]
    omega
  · show b.currentUsage = _
    rw [h.usage, hlen, hlayers]
    congr 1
    omega
  · rw [hlen, hlayers]
    show _ ≤ b.buffer.length
    omega
  · rw [hlen, hlayers]
    omega
  · show b.offset :: b.documentSizeOffsets = _
    rw [Draft.offsets_push, h.offset, h.stack]
  · cases kind with
    | doc => exact h.counters
    | array => exact congrArg (0 :: ·) h.counters
  · show wrap32 (b.depth + 1) = _
    rw [h.depth, hlayers, wrap32_of_range (by omega) (by omega)]
    omega

end Writing

/-- **The terminator and the size of a document are written.** -/
theorem BsonBuilder.closeContainer_eq {b : BsonBuilder} {l hole body tail : List UInt8} {start : ℤ}
    (hbuf : b.buffer = l ++ hole ++ body ++ tail) (hhole : hole.length = 4)
    (hoff : b.offset = (l ++ hole ++ body).length) (hstart : start = l.length)
    (htail : 1 ≤ tail.length) (hsmall : (l ++ hole ++ body).length + 1 < 2147483648) :
    b.closeContainer start = .ok { b with
      buffer := l ++ document body ++ tail.drop 1
      offset := (l ++ document body).length } := by
  have hlen : (l ++ hole ++ body).length + 1 = l.length + (body.length + 5) := by
    rw [List.length_append, List.length_append, hhole]
    omega
  have hend : wrap32 (b.offset + 1) = (l ++ document body).length := by
    rw [List.length_append, length_document, ← hlen, hoff, wrap32_of_range (by omega) (by omega)]
    omega
  have hsize : wrap32 (wrap32 (b.offset + 1) - start) = (body.length + 5 : ℕ) := by
    rw [hend, List.length_append, length_document, hstart, wrap32_of_range (by omega) (by omega)]
    omega
  have hterm : b.write b.offset [0]
      = .ok { b with buffer := l ++ hole ++ body ++ [0] ++ tail.drop 1 } := by
    have hin : (l ++ hole ++ body).length + [(0 : UInt8)].length ≤ b.buffer.length := by
      have hall := congrArg List.length hbuf
      rw [List.length_append] at hall
      rw [List.length_singleton]
      omega
    exact (congrArg (fun i => b.write i [0]) hoff).trans (write_end hbuf hin)
  have hassoc : l ++ hole ++ body ++ [0] ++ tail.drop 1
      = l ++ hole ++ (body ++ [0] ++ tail.drop 1) := by
    simp only [List.append_assoc]
  have hcopy : { b with buffer := l ++ hole ++ body ++ [0] ++ tail.drop 1 : BsonBuilder }.write start
      (toLe 4 (body.length + 5))
      = .ok { b with buffer := l ++ document body ++ tail.drop 1 } := by
    have hdoc : l ++ document body ++ tail.drop 1
        = l ++ toLe 4 (body.length + 5) ++ (body ++ [0] ++ tail.drop 1) := by
      simp only [document, List.append_assoc]
    rw [hstart, hdoc]
    exact write_middle hassoc (by rw [length_toLe, hhole])
  rw [closeContainer, hterm]
  show (do
    let b' ← { b with buffer := l ++ hole ++ body ++ [0] ++ tail.drop 1 : BsonBuilder }.write start
      (ofI32 (wrap32 (wrap32 (b.offset + 1) - start)))
    pure { b' with offset := wrap32 (b.offset + 1) }) = _
  rw [hsize, ofI32_natCast (by omega), hcopy, hend]
  rfl

namespace Writing

variable {front : List UInt8} {footer : ℕ} {d : Draft} {b : BsonBuilder}

/-- **A container is closed.** -/
theorem closeContainer {l : Layer} {outer : List Layer} (h : Writing front footer d [] 0 b)
    (hl : d.layers = l :: outer) :
    ∃ start offsets b', b.documentSizeOffsets = start :: offsets ∧
      { b with
        documentSizeOffsets := offsets
        arrayIdxCounters := d.pop.counters }.closeContainer start = .ok b' ∧
      Writing front footer d.pop [] 0 { b' with depth := wrap32 (b'.depth - 1) } ∧
      SameBacking b { b' with depth := wrap32 (b'.depth - 1) } := by
  obtain ⟨tail, hbuf⟩ := h.buffer
  have hroom := h.room
  have hsmall := h.small
  have hbuflen := congrArg List.length hbuf
  rw [List.append_nil] at hroom hsmall hbuf
  rw [List.append_nil, List.length_append] at hbuflen
  have hspine := Draft.spine_of_layers hl front
  have hpop : d.pop = (d.dropLayer l outer).add (.sub l.kind l.key l.elements .nil) := by
    rw [Draft.pop, hl]
  have hhole : l.hole.length = 4 := h.holes.2 l (by rw [hl]; exact List.mem_cons_self)
  have hstack := h.stack
  rw [Draft.offsets_of_layers hl] at hstack
  have hnew : (d.dropLayer l outer).spine front
        ++ (Elements.sub l.kind l.key l.elements .nil).bytes
      = (d.dropLayer l outer).spine front ++ header l.kind.typeByte l.key
        ++ document l.elements.bytes := by
    rw [Elements.bytes, Elements.bytes, List.append_nil, List.append_assoc]
  have hlen : ((d.dropLayer l outer).spine front
      ++ (Elements.sub l.kind l.key l.elements .nil).bytes).length = (d.spine front).length + 1 := by
    rw [hnew, hspine]
    simp only [List.length_append, length_document, hhole]
    omega
  have hlayers : d.layers.length = (d.dropLayer l outer).layers.length + 1 := by
    rw [hl]
    rfl
  have hlength : ((d.dropLayer l outer).spine front ++ header l.kind.typeByte l.key
      ++ document l.elements.bytes ++ tail.drop 1).length = b.buffer.length := by
    rw [← hnew, List.length_append, hlen, List.length_drop]
    omega
  refine ⟨_, _, _, hstack, BsonBuilder.closeContainer_eq (hspine ▸ hbuf) hhole ?_ rfl (by omega) ?_, ?_,
    ⟨hlength, rfl, rfl, rfl⟩⟩
  · rw [← hspine]
    have hoff := h.offset
    rwa [List.append_nil] at hoff
  · rw [← hspine]
    omega
  · rw [hpop]
    refine Writing.add ⟨⟨tail.drop 1, ?_⟩, ⟨h.holes.1, ?_⟩, ?_, ?_, ?_, ?_, ?_, rfl, ?_,
      Draft.length_arrays_dropLayer hl h.arrays, ?_, h.start⟩
    · rw [hnew]
    · intro l' hl'
      exact h.holes.2 l' (by rw [hl]; exact List.mem_cons_of_mem _ hl')
    · rw [hnew]
    · show b.currentUsage = _
      rw [h.usage, hlen, hlayers, List.append_nil]
      congr 1
      omega
    · rw [hlen]
      exact (by omega : _ ≤ b.buffer.length).trans hlength.ge
    · rw [hlen]
      omega
    · show b.capacity = _
      rw [h.capacity, hlength]
    · rw [Draft.counters_add]
    · show wrap32 (b.depth - 1) = _
      rw [h.depth, hlayers, wrap32_of_range (by omega) (by omega)]
      omega

/-- **The main document is finished**, when no container is open and no call has failed. Nothing but
the buffer and the place in it changes. -/
theorem finish_eq (h : Writing front footer d [] 0 b) (hl : d.layers = [])
    (herr : b.errorFlag = false) :
    ∃ tail, b.finish = .ok (some ((front.length : ℤ), ((document d.main.bytes).length : ℤ)), { b with
        buffer := front ++ document d.main.bytes ++ tail
        offset := (front ++ document d.main.bytes).length }) ∧
      b.buffer.length = (front ++ document d.main.bytes ++ tail).length ∧ footer ≤ tail.length := by
  obtain ⟨tail, hbuf⟩ := h.buffer
  have hroom := h.room
  have hsmall := h.small
  have hoff := h.offset
  have hdepth := h.depth
  have hhole := h.holes.1
  have hbuflen := congrArg List.length hbuf
  have hspine : d.spine front = front ++ d.hole ++ d.main.bytes := by
    rw [Draft.spine, hl]
    rfl
  rw [List.length_append] at hbuflen
  rw [hl] at hdepth
  rw [List.append_nil, hspine] at hroom hsmall hbuf hoff hbuflen
  have hclose := BsonBuilder.closeContainer_eq hbuf hhole hoff h.start (by omega) (by omega)
  have hlen : (front ++ d.hole ++ d.main.bytes).length + 1
      = (front ++ document d.main.bytes).length := by
    simp only [List.length_append, length_document]
    omega
  have hsize : wrap32 (((front ++ document d.main.bytes).length : ℤ) - b.startOffset)
      = (document d.main.bytes).length := by
    have hdoc : front.length + (document d.main.bytes).length < 2147483648 := by
      rw [← List.length_append, ← hlen]
      omega
    rw [List.length_append, h.start, Nat.cast_add, add_sub_cancel_left, wrap32_natCast (by omega)]
  refine ⟨tail.drop 1, ?_, ?_, by rw [List.length_drop]; omega⟩
  · rw [BsonBuilder.finish, if_neg (by simp [hdepth, herr]), hclose]
    show Except.ok (some (b.startOffset, wrap32 (_ - b.startOffset)), _) = _
    rw [hsize, h.start]
  · have htotal : (front ++ document d.main.bytes ++ tail.drop 1).length
        = (front ++ document d.main.bytes).length + (tail.drop 1).length := List.length_append
    rw [htotal, List.length_drop, hbuflen]
    omega

theorem finish (h : Writing front footer d [] 0 b) (hl : d.layers = [])
    (herr : b.errorFlag = false) :
    ∃ tail b', b.finish
        = .ok (some ((front.length : ℤ), ((document d.main.bytes).length : ℤ)), b') ∧
      b'.buffer = front ++ document d.main.bytes ++ tail ∧ footer ≤ tail.length := by
  obtain ⟨tail, hfinish, -, htail⟩ := h.finish_eq hl herr
  exact ⟨tail, _, hfinish, rfl, htail⟩

/-- With a container open or after a call that failed, there is no document. -/
theorem finish_none (h : Writing front footer d [] 0 b)
    (hl : d.layers ≠ [] ∨ b.errorFlag = true) : b.finish = .ok (none, b) := by
  rw [BsonBuilder.finish, if_pos]
  · rfl
  · rw [h.depth]
    refine hl.imp_left fun hne => ?_
    exact_mod_cast fun hlen => hne (List.eq_nil_of_length_eq_zero hlen)

end Writing

end ScApi
