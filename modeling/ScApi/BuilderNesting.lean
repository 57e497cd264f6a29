import ScApi.BsonBalance
import ScApi.BuilderReuse
import ScApi.Lib.BitSet

/-!
# What a builder knows of its nesting

A builder keeps the containers that are open three times: a set of 64 bits with the depths of the
open arrays, a stack with the place of each container's size, and a stack with a counter for each
array. `track` is what is open for a caller who sees which calls succeed. `Nesting` says that the
builder agrees with it.

The bits are those of the first 64 depths, and the counter of an array is taken before it is known
whether there is room for the element. `Counted` is the condition under which neither matters.

## Main results

* `Nesting.call`: a call that meets the condition keeps the builder in agreement with its caller.
* `accounted_of_counted`: so does a run of such calls.
* `not_accounted`, `mem_openContainer_of_deep`: an element without room is counted, and an array below
  63 documents changes what is known of the main document.
-/

open Bytes Buffer Bson Relating

namespace ScApi

open BsonBuilder

/-- `BsonBuilder::currentDocIsArray`. The processor takes the distance of a shift modulo 64. -/
def BsonBuilder.currentDocIsArray (b : BsonBuilder) : Bool :=
  b.docIsArrayBits &&& (1 <<< UInt64.ofNat (b.depth % 64).toNat) ≠ 0

/-- A container that is open, and how many elements calls have written to it. -/
structure OpenContainer where
  kind : Kind
  written : ℕ
  deriving DecidableEq, Repr

/-! ### What a caller sees -/

/-- The kind of the innermost open container. The main document is open all the time. -/
def innermost : List OpenContainer → Kind
  | [] => .doc
  | o :: _ => o.kind

/-- The innermost open container has one element more. -/
def oneMore : List OpenContainer → List OpenContainer
  | [] => []
  | o :: outer => { o with written := o.written + 1 } :: outer

/-- The open arrays. -/
def openArrays (opened : List OpenContainer) : List OpenContainer :=
  opened.filter (·.kind = .array)

namespace BuilderCall

/-- The kind of the container that a call begins. -/
def begun : BuilderCall → Option Kind
  | begin _ kind => some kind
  | beginFrom _ _ => some .doc
  | _ => none

/-- The containers that are open behind a call, which has succeeded or not; `none` when the call is not
meant for the container it is made in. -/
def track (opened : List OpenContainer) (ok : Bool) : BuilderCall → Option (List OpenContainer)
  | close kind =>
      match opened with
      | [] => none
      | o :: outer => if o.kind = kind then some outer else none
  | c =>
      if ∀ key ∈ c.key, innermost opened = key.kind then
        some (if ok then c.begun.toList.map (⟨·, 0⟩) ++ oneMore opened else opened)
      else
        none

/-- The bytes that are asked for the value of a leaf, or `none` when it is refused before. -/
def asksForLeaf : Leaf → Option ℤ
  | .bool _ => some 1
  | .double _ => some 8
  | .i32 _ => some 4
  | .i64 _ => some 8
  | .null => some 0
  | .string s => some (wrap32 (wrap32 (wrap32 s.length + 1) + 4))
  | .binary data _ => if wrap32 data.length < 0 then none else some (wrap32 (wrap32 data.length + 5))

/-- The bytes that are asked for the value of the element. -/
def asks : BuilderCall → Option ℤ
  | add _ v => asksForLeaf v
  | addBytes _ _ byteCount _ => if byteCount < 0 then none else some (wrap32 (byteCount + 5))
  | addSubDoc _ subDocument =>
      if toI32 (subDocument.take 4) < 0 then none else some (toI32 (subDocument.take 4))
  | begin _ _ => some 5
  | beginFrom _ subDocument => some (toI32 (subDocument.take 4))
  | close _ => none

end BuilderCall

/-- A builder, and the containers that are open for its caller. -/
structure NestedRun where
  builder : BsonBuilder
  opened : List OpenContainer
  deriving DecidableEq, Repr

namespace NestedRun

/-- A builder that was constructed. -/
def start : NestedRun :=
  ⟨{}, []⟩

/-- The containers that are open behind an operation. A document is begun anew when none is open. -/
def track (opened : List OpenContainer) : BuilderOperation → BuilderOutput → Option (List OpenContainer)
  | .call c, .succeeded ok => c.track opened ok
  | .initializeBuffer _, _ | .initializeVector _ _ _ _, _ => if opened = [] then some [] else none
  | _, _ => some opened

/-- One operation. -/
def step (platform : Platform) (s : NestedRun) (op : BuilderOperation) : Option NestedRun :=
  match op.perform platform s.builder with
  | .ok (output, builder) => (track s.opened op output).map (⟨builder, ·⟩)
  | .error _ => none

end NestedRun

/-- **The three descriptions agree** with the containers that are open. -/
structure Accounted (opened : List OpenContainer) (b : BsonBuilder) : Prop where
  currentDocIsArray : b.currentDocIsArray = true ↔ innermost opened = .array
  documentSizeOffsets : b.documentSizeOffsets.length = opened.length
  depth : b.depth = opened.length
  arrayIdxCounters : b.arrayIdxCounters.length = (openArrays opened).length
  written : ∀ o ∈ (openArrays opened).head?, b.arrayIdxCounters.head? = some (o.written : ℤ)

/-! ### The condition -/

/-- There is room for some bytes, or there will be when the vector has grown. -/
def BsonBuilder.HasRoom (platform : Platform) (n : ℤ) (b : BsonBuilder) : Prop :=
  wrap32 (b.currentUsage + n) ≤ b.capacity ∨
    b.reallocate = true ∧ ∀ capacity ∈ b.container,
      wrap32 (b.currentUsage + n) ≤ wrap32
        (if (wrap32 (b.currentUsage + n)).toNat ≤ capacity then capacity
          else platform.grow capacity (wrap32 (b.currentUsage + n)).toNat : ℕ)

/-- **The condition on a call**: a container is begun only while fewer than 63 are open, and an
element is added to an array only when there is room for it and the counter has another value. -/
def Counted (platform : Platform) (b : BsonBuilder) (c : BuilderCall) : Prop :=
  (c.begun ≠ none → b.depth < 63) ∧
  (c.key = some .index → ∀ size ∈ c.asks, b.arrayIdxCounters.headD 0 < 2147483647 ∧
    b.HasRoom platform (wrap32 (size + (0 :: BuilderKey.index.bytes platform b).length)))

instance (platform : Platform) (n : ℤ) (b : BsonBuilder) : Decidable (b.HasRoom platform n) :=
  inferInstanceAs (Decidable (_ ∨ _ ∧ ∀ capacity ∈ b.container, _))

instance (platform : Platform) (b : BsonBuilder) (c : BuilderCall) :
    Decidable (Counted platform b c) :=
  inferInstanceAs (Decidable ((c.begun ≠ none → _) ∧
    (c.key = some .index → ∀ size ∈ c.asks, _ ∧ b.HasRoom platform _)))

/-! ### What the functions leave as it is -/

/-- What the builder knows of its nesting is the same. -/
structure SameNesting (b b' : BsonBuilder) : Prop where
  documentSizeOffsets : b'.documentSizeOffsets = b.documentSizeOffsets
  arrayIdxCounters : b'.arrayIdxCounters = b.arrayIdxCounters
  depth : b'.depth = b.depth
  docIsArrayBits : b'.docIsArrayBits = b.docIsArrayBits

theorem SameNesting.refl (b : BsonBuilder) : SameNesting b b :=
  ⟨rfl, rfl, rfl, rfl⟩

section Gives

variable {platform : Platform} {b c : BsonBuilder}

theorem gives_write (h : SameNesting b c) (i : ℤ) (bytes : List UInt8) :
    Gives (SameNesting b) (c.write i bytes) := by
  rw [BsonBuilder.write]
  exact Gives.ite (fun _ => Gives.pure { h with }) fun _ => Gives.throw _

theorem gives_reallocateTo (needed : ℤ) (b : BsonBuilder) :
    Gives (fun c => SameNesting b c ∧ c.currentUsage = b.currentUsage ∧
      ∃ capacity ∈ b.container, c.capacity = wrap32
        (if needed.toNat ≤ capacity then capacity else platform.grow capacity needed.toNat : ℕ))
      (b.reallocateTo platform needed) := by
  rw [BsonBuilder.reallocateTo]
  cases b.container with
  | none => exact Gives.throw _
  | some capacity =>
      refine Gives.ite (fun _ => Gives.throw _) fun _ => Gives.pure ?_
      exact ⟨⟨rfl, rfl, rfl, rfl⟩, rfl, capacity, rfl, rfl⟩

/-- What is left to do when there was no room at first. -/
theorem gives_checkCapacity (bytes : ℤ) (h : SameNesting b c) :
    Gives (fun p : Bool × BsonBuilder => SameNesting b p.2 ∧
      (wrap32 (c.currentUsage + bytes) ≤ c.capacity → p.1 = true))
      (if wrap32 (c.currentUsage + bytes) ≤ c.capacity then (pure (true, c) : Build (Bool × BsonBuilder))
        else pure (false, { c with errorFlag := true })) :=
  Gives.ite (fun _ => Gives.pure ⟨h, fun _ => rfl⟩) fun hfull =>
    Gives.pure ⟨{ h with }, fun hroom => absurd hroom hfull⟩

/-- **There is room**, when the condition says so. -/
theorem gives_verifyEnoughCapacity (bytes : ℤ) (b : BsonBuilder) :
    Gives (fun p => SameNesting b p.2 ∧ (b.HasRoom platform bytes → p.1 = true))
      (b.verifyEnoughCapacity platform bytes) := by
  rw [BsonBuilder.verifyEnoughCapacity]
  refine Gives.ite (fun _ => Gives.pure ⟨.refl b, fun _ => rfl⟩) fun hfull => ?_
  refine Gives.ite (fun hre => ?_) fun hre => ?_
  · refine (gives_reallocateTo _ b).bind fun c hc => ?_
    obtain ⟨hsame, husage, capacity, hcontainer, hcapacity⟩ := hc
    refine (gives_checkCapacity bytes hsame).mono fun p hp => ⟨hp.1, fun hroom => hp.2 ?_⟩
    rcases hroom with hroom | ⟨-, hgrown⟩
    · exact absurd hroom hfull
    · rw [husage, hcapacity]
      exact hgrown capacity hcontainer
  · refine (gives_checkCapacity bytes (.refl b)).mono fun p hp => ⟨hp.1, fun hroom => hp.2 ?_⟩
    rcases hroom with hroom | ⟨hgrows, -⟩
    · exact hroom
    · exact absurd hgrows hre

theorem gives_insertHeader (header : List UInt8) (valueSize : ℤ) (b : BsonBuilder) :
    Gives (fun p => SameNesting b p.2 ∧
      (b.HasRoom platform (wrap32 (valueSize + header.length)) → p.1 = true))
      (b.insertHeader platform header valueSize) := by
  refine (gives_verifyEnoughCapacity _ b).bind fun p hp => ?_
  refine Gives.ite (fun hok => ?_) fun hfull => ?_
  · refine (gives_write hp.1 _ _).bind fun c hc => Gives.pure ⟨?_, fun _ => rfl⟩
    exact { hc with }
  · exact Gives.pure ⟨hp.1, fun hroom => absurd (hp.2 hroom) hfull⟩

/-- What a function that adds an element makes of the builder, when it asks for `size` bytes: the index
is taken, and the call succeeds when there is room. -/
def Takes (platform : Platform) (key : BuilderKey) (size : ℤ) (b : BsonBuilder)
    (p : Bool × BsonBuilder) : Prop :=
  SameNesting (key.taken b) p.2 ∧
    (b.HasRoom platform (wrap32 (size + (0 :: key.bytes platform b).length)) → p.1 = true)

theorem gives_insert (key : BuilderKey) (elementType : UInt8) (size : ℤ) (b : BsonBuilder) :
    Gives (Takes platform key size b) (key.insert platform elementType size b) := by
  cases key with
  | name n => exact gives_insertHeader _ _ b
  | index =>
      rw [BuilderKey.insert, verifyCapacityAndInsertArrayKey]
      cases hcounters : b.arrayIdxCounters with
      | nil => exact Gives.throw _
      | cons idx counters =>
          have htaken : BuilderKey.index.taken b
              = { b with arrayIdxCounters := wrap32 (idx + 1) :: counters } := by
            rw [BuilderKey.taken, hcounters]
          have hbytes : BuilderKey.index.bytes platform b
              = fillArrayDocKey (platform.keyBuffer b) idx := by
            rw [BuilderKey.bytes, hcounters, List.headD_cons]
          refine (gives_insertHeader _ _ _).mono fun p hp => ⟨htaken ▸ hp.1, fun hroom => hp.2 ?_⟩
          rw [hbytes] at hroom
          exact hroom

theorem gives_addElement {key : BuilderKey} {size : ℤ} {insert : BsonBuilder → Build (Bool × BsonBuilder)}
    (h : Gives (Takes platform key size b) (insert b)) (value : List UInt8) :
    Gives (Takes platform key size b) (addElement insert value b) := by
  refine h.bind fun p hp => Gives.ite (fun hok => ?_) fun hfull => Gives.pure ⟨hp.1, ?_⟩
  · refine Gives.bind (P := SameNesting (key.taken b)) ?_ fun c hc => Gives.pure ⟨hc, fun _ => rfl⟩
    exact (gives_write hp.1 _ _).bind fun c hc => Gives.pure { hc with }
  · exact fun hroom => absurd (hp.2 hroom) hfull

theorem gives_addString {key : BuilderKey} {insert : ℤ → BsonBuilder → Build (Bool × BsonBuilder)}
    (h : ∀ size, Gives (Takes platform key size b) (insert size b)) (value : List UInt8) :
    Gives (Takes platform key (wrap32 (wrap32 (wrap32 value.length + 1) + 4)) b)
      (addString insert value b) := by
  refine (h _).bind fun p hp => Gives.ite (fun hok => ?_) fun hfull => Gives.pure ⟨hp.1, ?_⟩
  · refine (gives_write hp.1 _ _).bind fun c hc => ?_
    exact (gives_write hc _ _).bind fun c' hc' => Gives.pure ⟨{ hc' with }, fun _ => rfl⟩
  · exact fun hroom => absurd (hp.2 hroom) hfull

theorem gives_addBytes {key : BuilderKey} {insert : ℤ → BsonBuilder → Build (Bool × BsonBuilder)}
    (h : ∀ size, Gives (Takes platform key size b) (insert size b)) (bytes : List UInt8)
    {byteCount : ℤ} (hcount : 0 ≤ byteCount) (subtype : UInt8) :
    Gives (Takes platform key (wrap32 (byteCount + 5)) b)
      (addBytes insert bytes byteCount subtype b) := by
  rw [addBytes, if_neg (by omega)]
  refine (h _).bind fun p hp => Gives.ite (fun hok => ?_) fun hfull => Gives.pure ⟨hp.1, ?_⟩
  · exact (gives_write hp.1 _ _).bind fun c hc => Gives.pure ⟨{ hc with }, fun _ => rfl⟩
  · exact fun hroom => absurd (hp.2 hroom) hfull

/-- A call that adds an element takes the index, or is refused before. -/
def TakesOrRefuses (platform : Platform) (key : BuilderKey) (asks : Option ℤ) (b : BsonBuilder)
    (p : Bool × BsonBuilder) : Prop :=
  asks = none ∧ p = (false, b) ∨ ∃ size, asks = some size ∧ Takes platform key size b p

theorem gives_addLeaf {key : BuilderKey}
    {insert : UInt8 → ℤ → BsonBuilder → Build (Bool × BsonBuilder)}
    (h : ∀ elementType size, Gives (Takes platform key size b) (insert elementType size b)) (v : Leaf) :
    Gives (TakesOrRefuses platform key (BuilderCall.asksForLeaf v) b) (addLeaf insert v b) := by
  cases v with
  | bool | double | i32 | i64 => exact (gives_addElement (h _ _) _).mono fun p hp => .inr ⟨_, rfl, hp⟩
  | null => exact (h _ _).mono fun p hp => .inr ⟨_, rfl, hp⟩
  | string s => exact (gives_addString (h _) s).mono fun p hp => .inr ⟨_, rfl, hp⟩
  | binary data subtype =>
      rw [addLeaf, BuilderCall.asksForLeaf]
      by_cases hcount : wrap32 data.length < 0
      · rw [if_pos hcount, addBytes, if_pos hcount]
        exact Gives.pure (.inl ⟨rfl, rfl⟩)
      · rw [if_neg hcount]
        exact (gives_addBytes (h _) data (by omega) subtype).mono fun p hp => .inr ⟨_, rfl, hp⟩

/-- **A call that adds an element.** -/
theorem gives_add {c : BuilderCall} {key : BuilderKey} (hkey : c.key = some key)
    (hbegun : c.begun = none) (b : BsonBuilder) :
    Gives (TakesOrRefuses platform key c.asks b) (c.perform platform b) := by
  cases c with
  | add key' v =>
      obtain rfl := Option.some.inj hkey
      have hasks : BuilderCall.asksForLeaf (key'.stored v) = BuilderCall.asksForLeaf v := by
        cases key' <;> cases v <;> rfl
      rw [BuilderCall.perform_add, BuilderCall.asks, ← hasks]
      exact gives_addLeaf (fun elementType size => gives_insert key' elementType size b) _
  | addBytes key' bytes byteCount subtype =>
      obtain rfl := Option.some.inj hkey
      rw [BuilderCall.perform_addBytes, BuilderCall.asks]
      by_cases hcount : byteCount < 0
      · rw [if_pos hcount, addBytes, if_pos hcount]
        exact Gives.pure (.inl ⟨rfl, rfl⟩)
      · rw [if_neg hcount]
        exact (gives_addBytes (fun size => gives_insert key' 0x05 size b) bytes (by omega)
          subtype).mono fun p hp => .inr ⟨_, rfl, hp⟩
  | addSubDoc name subDocument =>
      obtain rfl := Option.some.inj hkey
      rw [BuilderCall.perform, docAddSubDoc, BuilderCall.asks]
      generalize toI32 (subDocument.take 4) = docSize
      refine Gives.ite (fun hneg => Gives.pure (.inl ⟨if_pos hneg, rfl⟩)) fun hneg => ?_
      rw [if_neg hneg]
      exact (gives_addElement (gives_insert (.name name) 0x03 docSize b) _).mono fun p hp =>
        .inr ⟨_, rfl, hp⟩
  | begin key' kind => exact absurd hbegun (Option.some_ne_none _)
  | beginFrom name subDocument => exact absurd hbegun (Option.some_ne_none _)
  | close kind => exact absurd hkey.symm (Option.some_ne_none _)

/-- What a call that begins a container makes of the builder. -/
structure Begins (platform : Platform) (key : BuilderKey) (kind : Kind) (size : ℤ) (b : BsonBuilder)
    (p : Bool × BsonBuilder) : Prop where
  failed : p.1 = false → SameNesting (key.taken b) p.2
  succeeded : p.1 = true →
    ∃ c, SameNesting (key.taken b) c ∧ SameNesting (c.openContainer kind) p.2
  room : b.HasRoom platform (wrap32 (size + (0 :: key.bytes platform b).length)) → p.1 = true

/-- **A call that begins a container.** -/
theorem gives_begin {c : BuilderCall} {key : BuilderKey} {kind : Kind} (hkey : c.key = some key)
    (hbegun : c.begun = some kind) (b : BsonBuilder) :
    Gives (fun p => ∃ size, c.asks = some size ∧ Begins platform key kind size b p)
      (c.perform platform b) := by
  cases c with
  | begin key' kind' =>
      obtain rfl := Option.some.inj hkey
      obtain rfl := Option.some.inj hbegun
      rw [BuilderCall.perform_begin]
      refine (gives_insert key' kind'.typeByte 5 b).bind fun p hp => ?_
      refine Gives.ite (fun hok => Gives.pure ?_) fun hfull => Gives.pure ?_
      · exact ⟨5, rfl, fun h => Bool.noConfusion h, fun _ => ⟨p.2, hp.1, .refl _⟩, fun _ => rfl⟩
      · exact ⟨5, rfl, fun _ => hp.1, fun h => Bool.noConfusion h, fun hroom =>
          absurd (hp.2 hroom) hfull⟩
  | beginFrom name subDocument =>
      obtain rfl := Option.some.inj hkey
      obtain rfl := Option.some.inj hbegun
      rw [BuilderCall.perform, docBeginSubDocFrom, BuilderCall.asks]
      generalize toI32 (subDocument.take 4) = size
      refine (gives_insert (.name name) 0x03 size b).bind fun p hp => ?_
      refine Gives.ite (fun hok => ?_) fun hfull => Gives.pure ?_
      · refine Gives.ite (fun _ => Gives.throw _) fun _ => ?_
        refine (gives_write (.refl (p.2.openContainer .doc)) _ _).bind fun c hc => Gives.pure ?_
        exact ⟨size, rfl, fun h => Bool.noConfusion h, fun _ => ⟨p.2, hp.1, { hc with }⟩, fun _ => rfl⟩
      · exact ⟨size, rfl, fun _ => hp.1, fun h => Bool.noConfusion h, fun hroom =>
          absurd (hp.2 hroom) hfull⟩
  | add key' v => exact absurd hbegun.symm (Option.some_ne_none _)
  | addBytes key' bytes byteCount subtype => exact absurd hbegun.symm (Option.some_ne_none _)
  | addSubDoc name subDocument => exact absurd hbegun.symm (Option.some_ne_none _)
  | close kind' => exact absurd hkey.symm (Option.some_ne_none _)

theorem gives_closeContainer (startOffset : ℤ) (b : BsonBuilder) :
    Gives (SameNesting b) (b.closeContainer startOffset) := by
  refine (gives_write (.refl b) _ _).bind fun c hc => ?_
  exact (gives_write hc _ _).bind fun c' hc' => Gives.pure { hc' with }

theorem gives_finish (b : BsonBuilder) : Gives (fun p => SameNesting b p.2) b.finish := by
  rw [BsonBuilder.finish]
  refine Gives.ite (fun _ => Gives.pure (.refl b)) fun _ => ?_
  exact (gives_closeContainer _ b).bind fun c hc => Gives.pure hc

end Gives

/-! ### The invariant -/

/-- The bits of all depths down to that of the innermost open container are right. -/
def BitsTell (bits : UInt64) : List OpenContainer → Prop
  | [] => ¬ BitSet.Mem bits 0
  | o :: outer => (BitSet.Mem bits (outer.length + 1) ↔ o.kind = .array) ∧ BitsTell bits outer

/-- **The builder agrees with its caller** on all containers that are open. -/
structure Nesting (opened : List OpenContainer) (b : BsonBuilder) : Prop where
  documentSizeOffsets : b.documentSizeOffsets.length = opened.length
  arrayIdxCounters : b.arrayIdxCounters = (openArrays opened).map fun o => (o.written : ℤ)
  depth : b.depth = opened.length
  shallow : opened.length ≤ 63
  bits : BitsTell b.docIsArrayBits opened

section Nested

variable {opened outer : List OpenContainer} {o : OpenContainer} {platform : Platform}
  {b b' : BsonBuilder}

/-- Other bits do not matter. -/
theorem BitsTell.of_mem_iff {bits bits' : UInt64} (h : BitsTell bits opened)
    (hsame : ∀ i ≤ opened.length, BitSet.Mem bits' i ↔ BitSet.Mem bits i) : BitsTell bits' opened := by
  induction opened with
  | nil => exact fun hmem => h ((hsame 0 le_rfl).mp hmem)
  | cons o outer ih =>
      exact ⟨(hsame _ le_rfl).trans h.1, ih h.2 fun i hi => hsame i (Nat.le_succ_of_le hi)⟩

theorem length_oneMore (opened : List OpenContainer) : (oneMore opened).length = opened.length := by
  cases opened <;> rfl

theorem BitsTell.oneMore {bits : UInt64} (h : BitsTell bits opened) : BitsTell bits (oneMore opened) := by
  cases opened with
  | nil => exact h
  | cons o outer => exact h

/-- **The bit of the innermost open container.** -/
theorem BitsTell.innermost {bits : UInt64} (h : BitsTell bits opened) :
    BitSet.Mem bits opened.length ↔ innermost opened = .array := by
  cases opened with
  | nil => exact ⟨fun hmem => absurd hmem h, fun hkind => Kind.noConfusion hkind⟩
  | cons o outer => exact h.1

theorem openArrays_cons_array (hkind : o.kind = .array) :
    openArrays (o :: outer) = o :: openArrays outer :=
  List.filter_cons_of_pos (by simp [hkind])

theorem openArrays_cons_doc (hkind : o.kind = .doc) :
    openArrays (o :: outer) = openArrays outer :=
  List.filter_cons_of_neg (by simp [hkind])

/-- The open arrays are the same with one element more in a document. -/
theorem openArrays_oneMore_doc (hkind : innermost opened = .doc) :
    openArrays (oneMore opened) = openArrays opened := by
  cases opened with
  | nil => rfl
  | cons o outer =>
      have hmore : ({ o with written := o.written + 1 } : OpenContainer).kind = .doc := hkind
      rw [oneMore, openArrays_cons_doc hmore, openArrays_cons_doc hkind]

namespace Nesting

theorem same (h : Nesting opened b) (hsame : SameNesting b b') : Nesting opened b' := by
  refine ⟨?_, ?_, ?_, h.shallow, ?_⟩
  · rw [hsame.documentSizeOffsets, h.documentSizeOffsets]
  · rw [hsame.arrayIdxCounters, h.arrayIdxCounters]
  · rw [hsame.depth, h.depth]
  · rw [hsame.docIsArrayBits]
    exact h.bits

/-- **An index is taken**: the innermost open container has one element more. -/
theorem taken (h : Nesting opened b) {key : BuilderKey} (hkind : innermost opened = key.kind)
    (hlt : key = .index → b.arrayIdxCounters.headD 0 < 2147483647) :
    Nesting (oneMore opened) (key.taken b) := by
  have hlen := length_oneMore opened
  cases key with
  | name n =>
      exact ⟨hlen ▸ h.documentSizeOffsets, (openArrays_oneMore_doc hkind).symm ▸ h.arrayIdxCounters,
        hlen ▸ h.depth, hlen ▸ h.shallow, h.bits.oneMore⟩
  | index =>
      refine ⟨hlen ▸ h.documentSizeOffsets, ?_, hlen ▸ h.depth, hlen ▸ h.shallow, h.bits.oneMore⟩
      cases opened with
      | nil => exact nomatch hkind
      | cons o outer =>
          have harray : o.kind = .array := hkind
          have hmore : ({ o with written := o.written + 1 } : OpenContainer).kind = .array := hkind
          have hcounters := h.arrayIdxCounters
          have hhead := hlt rfl
          rw [openArrays_cons_array harray, List.map_cons] at hcounters
          rw [hcounters, List.headD_cons] at hhead
          rw [oneMore, openArrays_cons_array hmore, List.map_cons, BuilderKey.taken, hcounters]
          dsimp only
          rw [wrap32_of_range (by omega) (by omega), Nat.cast_succ]

/-- **A container is begun.** -/
theorem openContainer (h : Nesting opened b) (kind : Kind) (hlt : b.depth < 63) :
    Nesting (⟨kind, 0⟩ :: opened) (b.openContainer kind) := by
  have hdepth := h.depth
  have hwrap : wrap32 (b.depth + 1) = (opened.length + 1 : ℕ) := by
    rw [hdepth, wrap32_of_range (by omega) (by omega), Nat.cast_succ]
  have hbit : (1 : UInt64) <<< UInt64.ofNat (wrap32 (b.depth + 1) % 64).toNat
      = BitSet.bit (opened.length + 1) := by
    have hmod : (((opened.length + 1 : ℕ) : ℤ) % 64).toNat = opened.length + 1 := by omega
    rw [hwrap, hmod, BitSet.bit]
  have hother : ∀ i ≤ opened.length, i < 64 ∧ i ≠ opened.length + 1 := by omega
  refine ⟨congrArg (· + 1) h.documentSizeOffsets, ?_, hwrap, by rw [List.length_cons]; omega, ?_⟩
  · cases kind with
    | doc => exact h.arrayIdxCounters
    | array => exact congrArg (0 :: ·) h.arrayIdxCounters
  · cases kind with
    | doc =>
        show BitsTell (b.docIsArrayBits &&& ~~~(1 <<< UInt64.ofNat (wrap32 (b.depth + 1) % 64).toNat)) _
        rw [hbit]
        refine ⟨?_, h.bits.of_mem_iff fun i hi => ?_⟩
        · exact ⟨fun hmem => absurd rfl ((BitSet.mem_erase (by omega) (by omega)).mp hmem).1,
            fun hkind => Kind.noConfusion hkind⟩
        · exact (BitSet.mem_erase (by omega) (hother i hi).1).trans (and_iff_right (hother i hi).2)
    | array =>
        show BitsTell (b.docIsArrayBits ||| 1 <<< UInt64.ofNat (wrap32 (b.depth + 1) % 64).toNat) _
        rw [hbit]
        refine ⟨?_, h.bits.of_mem_iff fun i hi => ?_⟩
        · exact ⟨fun _ => rfl, fun _ => (BitSet.mem_insert (by omega) (by omega)).mpr (.inl rfl)⟩
        · exact (BitSet.mem_insert (by omega) (hother i hi).1).trans (or_iff_right (hother i hi).2)

/-- **A container is ended.** -/
theorem close (h : Nesting (o :: outer) b) :
    Gives (fun p => p.1 = true ∧ Nesting outer p.2) ((BuilderCall.close o.kind).perform platform b) := by
  obtain ⟨startOffset, offsets, hoffsets⟩ :=
    List.exists_cons_of_length_eq_add_one h.documentSizeOffsets
  have hlen : offsets.length = outer.length := by
    have hall := h.documentSizeOffsets
    rw [hoffsets] at hall
    exact Nat.succ.inj hall
  have hdepth := h.depth
  have hshallow := h.shallow
  rw [List.length_cons] at hdepth hshallow
  have hwrap : wrap32 (b.depth - 1) = outer.length := by
    rw [hdepth, wrap32_of_range (by omega) (by omega)]
    omega
  have hclosed : ∀ counters, counters = ((openArrays outer).map fun o => (o.written : ℤ)) →
      ∀ c, SameNesting { b with documentSizeOffsets := offsets, arrayIdxCounters := counters } c →
      Nesting outer { c with depth := wrap32 (c.depth - 1) } := by
    intro counters hcounters c hc
    refine ⟨?_, ?_, ?_, by omega, ?_⟩
    · exact (congrArg List.length hc.documentSizeOffsets).trans hlen
    · exact hc.arrayIdxCounters.trans hcounters
    · show wrap32 (c.depth - 1) = _
      rw [hc.depth]
      exact hwrap
    · show BitsTell c.docIsArrayBits outer
      rw [hc.docIsArrayBits]
      exact h.bits.2
  cases hkind : o.kind with
  | doc =>
      have hcounters := h.arrayIdxCounters
      rw [openArrays_cons_doc hkind] at hcounters
      show Gives _ (do let b ← b.endDocument; pure (true, b))
      rw [BsonBuilder.endDocument, hoffsets]
      refine Gives.bind (P := Nesting outer) ?_ fun c hc => Gives.pure ⟨rfl, hc⟩
      refine (gives_closeContainer startOffset _).bind fun c hc => Gives.pure ?_
      exact hclosed _ hcounters c hc
  | array =>
      have hcounters := h.arrayIdxCounters
      rw [openArrays_cons_array hkind, List.map_cons] at hcounters
      show Gives _ (do let b ← b.endArray; pure (true, b))
      rw [BsonBuilder.endArray, hoffsets, hcounters]
      refine Gives.bind (P := Nesting outer) ?_ fun c hc => Gives.pure ⟨rfl, hc⟩
      refine (gives_closeContainer startOffset _).bind fun c hc => Gives.pure ?_
      exact hclosed _ rfl c hc

/-- **The builder tells its nesting.** -/
theorem accounted (h : Nesting opened b) : Accounted opened b := by
  have hcounters := h.arrayIdxCounters
  refine ⟨?_, h.documentSizeOffsets, h.depth, ?_, fun o ho => ?_⟩
  · have hshallow := h.shallow
    have hmod : (b.depth % 64).toNat = opened.length := by
      rw [h.depth]
      omega
    rw [BsonBuilder.currentDocIsArray, hmod, decide_eq_true_eq]
    exact h.bits.innermost
  · rw [hcounters, List.length_map]
  · rw [hcounters, List.head?_map, Option.mem_def.mp ho]
    rfl

end Nesting

theorem BuilderCall.track_of_key {c : BuilderCall} {key : BuilderKey} (hkey : c.key = some key)
    (opened : List OpenContainer) (ok : Bool) :
    c.track opened ok = if innermost opened = key.kind then
      some (if ok then c.begun.toList.map (⟨·, 0⟩) ++ oneMore opened else opened) else none := by
  cases c with
  | close kind => exact nomatch hkey
  | _ => simp only [BuilderCall.track, hkey, Option.mem_def, Option.some.injEq, forall_eq']

/-- **One call that meets the condition.** -/
theorem Nesting.call (h : Nesting opened b) {c : BuilderCall} {ok : Bool}
    {opened' : List OpenContainer} (hcounted : Counted platform b c)
    (hc : c.perform platform b = .ok (ok, b')) (htrack : c.track opened ok = some opened') :
    Nesting opened' b' := by
  cases hkey : c.key with
  | none =>
      cases c with
      | close kind =>
          cases opened with
          | nil => exact nomatch htrack
          | cons o outer =>
              obtain ⟨rfl, hopened⟩ := Option.ite_none_right_eq_some.mp htrack
              obtain rfl := Option.some.inj hopened
              exact (h.close _ hc).2
      | _ => exact nomatch hkey
  | some key =>
      rw [BuilderCall.track_of_key hkey] at htrack
      obtain ⟨hkind, hopened⟩ := Option.ite_none_right_eq_some.mp htrack
      obtain rfl := Option.some.inj hopened
      -- an element of an array that is asked for has room, and its index can be taken
      have hroom : ∀ size ∈ c.asks, key = .index → b.arrayIdxCounters.headD 0 < 2147483647 ∧
          b.HasRoom platform (wrap32 (size + (0 :: key.bytes platform b).length)) := by
        rintro size hsize rfl
        exact hcounted.2 hkey size hsize
      -- without its element a document is what it was
      have hfailed : ∀ size ∈ c.asks, SameNesting (key.taken b) b' →
          (b.HasRoom platform (wrap32 (size + (0 :: key.bytes platform b).length)) → ok = true) →
          ok = false → Nesting opened b' := by
        rintro size hsize hsame hok rfl
        cases key with
        | name n => exact h.same hsame
        | index => exact absurd (hok (hroom size hsize rfl).2) Bool.false_ne_true
      cases hbegun : c.begun with
      | none =>
          rcases gives_add hkey hbegun b _ hc with ⟨-, hrefused⟩ | ⟨size, hsize, hsame, hok⟩
          · obtain ⟨rfl, rfl⟩ := Prod.mk.inj hrefused
            exact h
          · cases ok with
            | false => exact hfailed size hsize hsame hok rfl
            | true => exact (h.taken hkind fun hindex => (hroom size hsize hindex).1).same hsame
      | some kind =>
          obtain ⟨size, hsize, hbegins⟩ := gives_begin hkey hbegun b _ hc
          cases ok with
          | false => exact hfailed size hsize (hbegins.failed rfl) hbegins.room rfl
          | true =>
              obtain ⟨b₁, hsame₁, hsame⟩ := hbegins.succeeded rfl
              have htaken := (h.taken hkind fun hindex => (hroom size hsize hindex).1).same hsame₁
              have hlt : b₁.depth < 63 := by
                have hdepth := hcounted.1 (by rw [hbegun]; exact Option.some_ne_none kind)
                rw [htaken.depth, length_oneMore, ← h.depth]
                exact hdepth
              exact (htaken.openContainer kind hlt).same hsame

end Nested

/-! ### Runs -/

namespace NestedRun

/-- The condition on an operation. -/
def Counts (platform : Platform) (s : NestedRun) : BuilderOperation → Prop
  | .call c => Counted platform s.builder c
  | _ => True

instance (platform : Platform) (s : NestedRun) (op : BuilderOperation) :
    Decidable (s.Counts platform op) :=
  match op with
  | .call c => inferInstanceAs (Decidable (Counted platform s.builder c))
  | .finish | .error | .getDocumentDepth | .initializeBuffer _ | .initializeVector _ _ _ _ =>
      isTrue trivial

variable {platform : Platform} {s t : NestedRun} {op : BuilderOperation}

theorem nesting_start : Nesting start.opened start.builder := by
  refine ⟨rfl, rfl, rfl, by decide, ?_⟩
  show ¬ BitSet.Mem 0 0
  decide

/-- **One operation that meets the condition.** -/
theorem gives_operation {opened : List OpenContainer} {b : BsonBuilder} (h : Nesting opened b)
    (hcounts : Counts platform ⟨b, opened⟩ op) :
    Gives (fun p => ∀ opened', track opened op p.1 = some opened' → Nesting opened' p.2)
      (op.perform platform b) := by
  cases op with
  | call c =>
      have hcall : Gives (fun p => ∀ opened', c.track opened p.1 = some opened' → Nesting opened' p.2)
          (c.perform platform b) :=
        fun p hp opened' htrack => h.call hcounts hp htrack
      exact hcall.bind fun p hp => Gives.pure hp
  | finish =>
      refine (gives_finish b).bind fun p hp => Gives.pure ?_
      rintro _ ⟨⟩
      exact h.same hp
  | error | getDocumentDepth =>
      refine Gives.pure ?_
      rintro _ ⟨⟩
      exact h
  | initializeBuffer | initializeVector =>
      refine Gives.pure fun opened' htrack => ?_
      obtain ⟨hnone, hopened⟩ := Option.ite_none_right_eq_some.mp htrack
      obtain rfl := Option.some.inj hopened
      rw [hnone] at h
      exact h.same ⟨rfl, rfl, rfl, rfl⟩

theorem step_nesting (h : Nesting s.opened s.builder) (hcounts : s.Counts platform op)
    (hstep : s.step platform op = some t) : Nesting t.opened t.builder := by
  rw [step] at hstep
  cases hop : op.perform platform s.builder with
  | error e =>
      rw [hop] at hstep
      exact nomatch hstep
  | ok p =>
      rw [hop] at hstep
      obtain ⟨opened, htrack, rfl⟩ := Option.map_eq_some_iff.mp hstep
      exact gives_operation h hcounts p hop opened htrack

end NestedRun

/-- **A builder knows its nesting** after every run of operations that meet the condition, whether they
succeed or not. -/
theorem accounted_of_counted {platform : Platform} {ops : List BuilderOperation} {s : NestedRun}
    (hcounts : Runs.Meets (NestedRun.step platform) (NestedRun.Counts platform) NestedRun.start ops)
    (hexec : Runs.exec (NestedRun.step platform) NestedRun.start ops = some s) :
    Accounted s.opened s.builder := by
  have hinv : Nesting s.opened s.builder := by
    refine hcounts.invariant (I := fun s => Nesting s.opened s.builder) ?_ NestedRun.nesting_start hexec
    exact fun h hok hstep => NestedRun.step_nesting h hok hstep
  exact hinv.accounted

/-- A number and a document in an array; there is no room for the string in the document. -/
theorem accounted_of_counted_array :
    ∃ s, Runs.exec (NestedRun.step .tight) NestedRun.start
        [.initializeBuffer (List.replicate 28 0), .call (.begin (.name [97]) .array),
          .call (.add .index (.i32 7)), .call (.begin .index .doc),
          .call (.add (.name []) (.string [98, 98, 98]))] = some s ∧
      s.opened = [⟨.doc, 0⟩, ⟨.array, 2⟩] ∧ s.builder.errorFlag = true ∧
      Accounted s.opened s.builder := by
  have hrun : Runs.exec (NestedRun.step .tight) NestedRun.start
      [.initializeBuffer (List.replicate 28 0), .call (.begin (.name [97]) .array),
        .call (.add .index (.i32 7)), .call (.begin .index .doc),
        .call (.add (.name []) (.string [98, 98, 98]))]
      = some ⟨{ documentSizeOffsets := [21, 7], arrayIdxCounters := [2]
                buffer := [0, 0, 0, 0, 4, 97, 0, 0, 0, 0, 0, 16, 48, 0, 7, 0, 0, 0, 3, 49, 0, 0, 0, 0,
                  0, 0, 0, 0]
                offset := 25, currentUsage := 28, capacity := 28, docIsArrayBits := 2, depth := 2
                errorFlag := true },
          [⟨.doc, 0⟩, ⟨.array, 2⟩]⟩ := by
    decide +kernel
  exact ⟨_, hrun, rfl, rfl, accounted_of_counted (by decide +kernel) hrun⟩

/-- **An element for which there is no room is counted.** -/
theorem not_accounted : ¬ ∀ (platform : Platform) (ops : List BuilderOperation) (s : NestedRun),
    Runs.exec (NestedRun.step platform) NestedRun.start ops = some s →
    Accounted s.opened s.builder := by
  intro h
  have hrun : Runs.exec (NestedRun.step .tight) NestedRun.start
      [.initializeBuffer (List.replicate 13 0), .call (.begin (.name [97]) .array),
        .call (.add .index .null)]
      = some ⟨{ documentSizeOffsets := [7], arrayIdxCounters := [1]
                buffer := [0, 0, 0, 0, 4, 97, 0, 0, 0, 0, 0, 0, 0], offset := 11, currentUsage := 13
                capacity := 13, docIsArrayBits := 2, depth := 1, errorFlag := true },
          [⟨.array, 0⟩]⟩ := by
    decide +kernel
  exact absurd ((h _ _ _ hrun).written _ rfl) (by decide)

/-- **Below 63 containers** an array sets the bit of the main document, where it stays. -/
theorem mem_openContainer_of_deep {b : BsonBuilder} (h : b.depth = 63) :
    BitSet.Mem (b.openContainer .array).docIsArrayBits 0 := by
  have hbit : (1 : UInt64) <<< UInt64.ofNat (wrap32 (b.depth + 1) % 64).toNat = BitSet.bit 0 := by
    rw [h]
    decide
  show BitSet.Mem (b.docIsArrayBits ||| 1 <<< UInt64.ofNat (wrap32 (b.depth + 1) % 64).toNat) 0
  rw [hbit]
  exact (BitSet.mem_insert (by decide) (by decide)).mpr (.inl rfl)

end ScApi
