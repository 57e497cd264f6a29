import ScApi.BuilderRelations

/-!
# Builders that are used again

`initialize` sets the members of a builder that say where it writes, and leaves the others as they
are: the two stacks, the depth, the bits of the arrays, the error flag and, with a buffer of its own
size, the function that reallocates a vector. What is left there from an earlier document stays below
all that is done from then on. It is seen when the new document is finished, or when a call comes to
the bottom of a stack.

## Main results

* `callsAlike_under`: a builder with something left makes the same calls as one without.
* `initializeVector_equivalent_iff`, `initializeBuffer_equivalent_iff`: when a builder that is
  initialized again is as good as a new one.
-/

open Bytes Buffer Relating

namespace ScApi

open BsonBuilder

/-- What the key buffer holds before it is filled does not depend on the builder. -/
def Platform.SameKeyBuffers (platform : Platform) : Prop :=
  ∀ b b', platform.keyBuffer b = platform.keyBuffer b'

/-- What an earlier document has left in a builder. -/
structure Leftover where
  documentSizeOffsets : List ℤ := []
  arrayIdxCounters : List ℤ := []
  depth : ℤ := 0
  errorFlag : Bool := false
  deriving DecidableEq, Repr

namespace Leftover

/-- **The second builder is the first one on top of something left.** Nothing reads the bits of the
arrays in a release build. -/
structure Under (left : Leftover) (f b : BsonBuilder) : Prop where
  documentSizeOffsets : b.documentSizeOffsets = f.documentSizeOffsets ++ left.documentSizeOffsets
  arrayIdxCounters : b.arrayIdxCounters = f.arrayIdxCounters ++ left.arrayIdxCounters
  buffer : b.buffer = f.buffer
  offset : b.offset = f.offset
  currentUsage : b.currentUsage = f.currentUsage
  capacity : b.capacity = f.capacity
  container : b.container = f.container
  inRange : -2147483648 ≤ f.depth ∧ f.depth < 2147483648
  depth : b.depth = wrap32 (f.depth + left.depth)
  startOffset : b.startOffset = f.startOffset
  errorFlag : b.errorFlag = (f.errorFlag || left.errorFlag)
  reallocate : b.reallocate = f.reallocate

/-- What is left counts neither as open nor as failed. -/
structure Hidden (left : Leftover) : Prop where
  depth : left.depth = 0
  errorFlag : left.errorFlag = false

theorem hidden_empty : Hidden {} :=
  ⟨rfl, rfl⟩

/-- There is something at the bottom of a stack. -/
def Deep (left : Leftover) : Prop :=
  left.documentSizeOffsets ≠ [] ∨ left.arrayIdxCounters ≠ []

/-- The failures of the builder without anything left that say nothing about the other one. -/
def loose (left : Leftover) (stop : BuilderStop) : Prop :=
  stop = .emptyStack ∧ left.Deep

/-- The computations of two builders. -/
abbrev Follows (left : Leftover) : Build BsonBuilder → Build BsonBuilder → Prop :=
  Related left.loose left.Under

/-- The same for calls with a result. -/
abbrev FollowsWith {α : Type} (left : Leftover) :
    Build (α × BsonBuilder) → Build (α × BsonBuilder) → Prop :=
  Related left.loose fun p q => p.1 = q.1 ∧ left.Under p.2 q.2

variable {left : Leftover} {f b : BsonBuilder} {platform : Platform}

/-- A function that makes an element's header does so alike for both. -/
def Inserts (left : Leftover) (insert : BsonBuilder → Build (Bool × BsonBuilder)) : Prop :=
  ∀ f b, left.Under f b → left.FollowsWith (insert f) (insert b)

/-- Being on top of something left is kept by writing. -/
theorem writesAlike_under (left : Leftover) : WritesAlike left.Under where
  buffer h := h.buffer
  offset h := h.offset
  currentUsage h := h.currentUsage
  capacity h := h.capacity
  container h := h.container
  reallocate h := h.reallocate
  written h _ := { h with buffer := rfl }
  moved h _ _ := { h with offset := rfl, currentUsage := rfl }
  grown h _ _ _ := { h with buffer := rfl, capacity := rfl, container := rfl }
  failed h := { h with errorFlag := (Bool.true_or _).symm }

theorem inserts_index (hkey : platform.SameKeyBuffers) (elementType : UInt8) (size : ℤ) :
    left.Inserts (verifyCapacityAndInsertArrayKey platform elementType size) := by
  intro f b h
  rw [verifyCapacityAndInsertArrayKey, verifyCapacityAndInsertArrayKey, h.arrayIdxCounters, hkey b f]
  cases hcounters : f.arrayIdxCounters with
  | nil =>
      -- the other one finds what was left, if there is anything
      cases hleft : left.arrayIdxCounters with
      | nil => exact Related.throw _
      | cons idx counters => exact .loose ⟨rfl, .inr (by rw [hleft]; exact List.cons_ne_nil _ _)⟩
  | cons idx counters =>
      have htaken : left.Under { f with arrayIdxCounters := wrap32 (idx + 1) :: counters }
          { b with arrayIdxCounters := wrap32 (idx + 1) :: (counters ++ left.arrayIdxCounters) } :=
        { h with arrayIdxCounters := rfl }
      exact left.writesAlike_under.insertHeader htaken _ _

theorem under_openContainer (h : left.Under f b) (kind : Bson.Kind) :
    left.Under (f.openContainer kind) (b.openContainer kind) := by
  have hdepth : wrap32 (b.depth + 1) = wrap32 (wrap32 (f.depth + 1) + left.depth) := by
    rw [h.depth]
    unfold wrap32
    omega
  refine { h with
    documentSizeOffsets := ?_
    arrayIdxCounters := ?_
    offset := ?_
    inRange := wrap32_range _
    depth := hdepth }
  · exact congrArg₂ List.cons h.offset h.documentSizeOffsets
  · cases kind with
    | doc => exact h.arrayIdxCounters
    | array => exact congrArg (List.cons 0) h.arrayIdxCounters
  · exact congrArg (fun offset => wrap32 (offset + 4)) h.offset

theorem under_closed (h : left.Under f b) :
    left.Under { f with depth := wrap32 (f.depth - 1) } { b with depth := wrap32 (b.depth - 1) } := by
  refine { h with inRange := wrap32_range _, depth := ?_ }
  rw [h.depth]
  unfold wrap32
  dsimp only
  omega

theorem related_endDocument (h : left.Under f b) :
    left.Follows f.endDocument b.endDocument := by
  rw [BsonBuilder.endDocument, BsonBuilder.endDocument, h.documentSizeOffsets]
  cases hoffsets : f.documentSizeOffsets with
  | nil =>
      cases hleft : left.documentSizeOffsets with
      | nil => exact Related.throw _
      | cons => exact .loose ⟨rfl, .inl (by rw [hleft]; exact List.cons_ne_nil _ _)⟩
  | cons startOffset offsets =>
      refine Related.bind (left.writesAlike_under.closeContainer ?_ _) fun f' b' h' =>
        Related.pure (under_closed h')
      exact { h with documentSizeOffsets := rfl }

theorem related_endArray (h : left.Under f b) : left.Follows f.endArray b.endArray := by
  rw [BsonBuilder.endArray, BsonBuilder.endArray, h.documentSizeOffsets, h.arrayIdxCounters]
  cases hoffsets : f.documentSizeOffsets with
  | nil =>
      cases hleft : left.documentSizeOffsets with
      | nil => exact Related.throw _
      | cons => exact .loose ⟨rfl, .inl (by rw [hleft]; exact List.cons_ne_nil _ _)⟩
  | cons startOffset offsets =>
      cases hcounters : f.arrayIdxCounters with
      | nil =>
          cases hleft : left.arrayIdxCounters with
          | nil => exact Related.throw _
          | cons => exact .loose ⟨rfl, .inr (by rw [hleft]; exact List.cons_ne_nil _ _)⟩
      | cons idx counters =>
          refine Related.bind (left.writesAlike_under.closeContainer ?_ _) fun f' b' h' =>
            Related.pure (under_closed h')
          exact { h with documentSizeOffsets := rfl, arrayIdxCounters := rfl }

theorem related_docBeginSubDoc (h : left.Under f b) (name : List UInt8) :
    left.FollowsWith (f.docBeginSubDoc platform name) (b.docBeginSubDoc platform name) :=
  WritesAlike.beginContainer under_openContainer (left.writesAlike_under.inserts_name name _ _) h .doc

/-- **A builder with something left makes the same calls** as one without. -/
theorem callsAlike_under (hkey : platform.SameKeyBuffers) (left : Leftover) :
    CallsAlike platform left.loose left.Under where
  toWritesAlike := left.writesAlike_under
  index := inserts_index hkey
  opened := under_openContainer
  endDocument := related_endDocument
  endArray := related_endArray

theorem Under.depth_eq (h : left.Under f b) (hleft : left.Hidden) : b.depth = f.depth := by
  rw [h.depth, hleft.depth, add_zero]
  exact wrap32_of_range h.inRange.1 h.inRange.2

/-- Without anything that counts, documents are finished alike. -/
theorem finishesAlike_under (hleft : left.Hidden) : FinishesAlike left.Under where
  toWritesAlike := writesAlike_under left
  depth h := h.depth_eq hleft
  startOffset h := h.startOffset
  errorFlag h := by rw [h.errorFlag, hleft.errorFlag, Bool.or_false]

/-- **A document that is finished on top of something left** is the same, if what is left does not count
as open or failed. -/
theorem Under.finish (h : left.Under f b) (hf : f.depth = 0 ∧ f.errorFlag = false)
    (hb : b.depth = 0 ∧ b.errorFlag = false) : left.FollowsWith f.finish b.finish := by
  have hgo : ∀ {c : BsonBuilder}, c.depth = 0 ∧ c.errorFlag = false →
      ¬ (c.depth ≠ 0 ∨ c.errorFlag = true) := by
    rintro c ⟨hdepth, herror⟩
    rw [hdepth, herror]
    decide
  rw [BsonBuilder.finish, BsonBuilder.finish, if_neg (hgo hf), if_neg (hgo hb), h.startOffset]
  refine (left.writesAlike_under.closeContainer h _).bind fun f' b' h' => Related.pure ⟨?_, h'⟩
  rw [h'.startOffset, h'.offset]

end Leftover

/-- What is left in a builder before it is initialized. -/
def BsonBuilder.leftover (b : BsonBuilder) : Leftover :=
  ⟨b.documentSizeOffsets, b.arrayIdxCounters, b.depth, b.errorFlag⟩

/-- **A builder that is given a vector** is on top of what was left in it. -/
theorem under_initializeVector {b : BsonBuilder}
    (hdepth : -2147483648 ≤ b.depth ∧ b.depth < 2147483648) (content : List UInt8)
    (capacity startOffset reservedExtraFooter : ℕ) (platform : Platform) :
    b.leftover.Under
      (BsonBuilder.initializeVector content capacity startOffset reservedExtraFooter platform {})
      (b.initializeVector content capacity startOffset reservedExtraFooter platform) where
  documentSizeOffsets := rfl
  arrayIdxCounters := rfl
  buffer := rfl
  offset := rfl
  currentUsage := rfl
  capacity := rfl
  container := rfl
  inRange := by
    show (-2147483648 : ℤ) ≤ 0 ∧ (0 : ℤ) < 2147483648
    decide
  depth := ((congrArg wrap32 (zero_add _)).trans (wrap32_of_range hdepth.1 hdepth.2)).symm
  startOffset := rfl
  errorFlag := rfl
  reallocate := rfl

/-- **A builder that is given a buffer** and was never given a vector is on top of what was left in
it. -/
theorem under_initializeBuffer {b : BsonBuilder}
    (hdepth : -2147483648 ≤ b.depth ∧ b.depth < 2147483648) (hre : b.reallocate = false)
    (buffer : List UInt8) :
    b.leftover.Under (BsonBuilder.initializeBuffer buffer {}) (b.initializeBuffer buffer) where
  documentSizeOffsets := rfl
  arrayIdxCounters := rfl
  buffer := rfl
  offset := rfl
  currentUsage := rfl
  capacity := rfl
  container := rfl
  inRange := by
    show (-2147483648 : ℤ) ≤ 0 ∧ (0 : ℤ) < 2147483648
    decide
  depth := ((congrArg wrap32 (zero_add _)).trans (wrap32_of_range hdepth.1 hdepth.2)).symm
  startOffset := rfl
  errorFlag := rfl
  reallocate := hre

/-! ### Runs of operations -/

/-- A member function with its arguments. A document is finished at most once, but the members can be
called at any time. -/
inductive BuilderOperation where
  | call (c : BuilderCall)
  | finish
  | error
  | getDocumentDepth
  | initializeBuffer (buffer : List UInt8)
  | initializeVector (content : List UInt8) (capacity startOffset reservedExtraFooter : ℕ)
  deriving DecidableEq, Repr

/-- What an operation returns. A finished document is given with its place and its bytes. -/
inductive BuilderOutput where
  | succeeded (ok : Bool)
  | document (doc : Option (ℤ × List UInt8))
  | error (errorFlag : Bool)
  | depth (depth : ℤ)
  | nothing
  deriving DecidableEq, Repr

/-- The operation is made. -/
def BuilderOperation.perform (platform : Platform) (b : BsonBuilder) :
    BuilderOperation → Build (BuilderOutput × BsonBuilder)
  | call c => do
      let (ok, b) ← c.perform platform b
      pure (.succeeded ok, b)
  | finish => do
      let (place, b) ← b.finish
      pure (.document (place.map fun (start, size) =>
        (start, (b.buffer.drop start.toNat).take size.toNat)), b)
  | error => pure (.error b.errorFlag, b)
  | getDocumentDepth => pure (.depth b.depth, b)
  | initializeBuffer buffer => pure (.nothing, b.initializeBuffer buffer)
  | initializeVector content capacity startOffset reservedExtraFooter =>
      pure (.nothing, b.initializeVector content capacity startOffset reservedExtraFooter platform)

/-- What some operations return, one after the other, and the builder after them. -/
def performAll (platform : Platform) : List BuilderOperation → BsonBuilder →
    Build (List BuilderOutput × BsonBuilder)
  | [], b => pure ([], b)
  | op :: ops, b => do
      let (output, b) ← op.perform platform b
      let (outputs, b) ← performAll platform ops b
      pure (output :: outputs, b)

/-- **A relation that all operations keep.** -/
structure OperatesAlike (platform : Platform) (loose : BuilderStop → Prop)
    (R : BsonBuilder → BsonBuilder → Prop) : Prop
    extends CallsAlike platform loose R, FinishesAlike R where
  initializeBuffer {f b : BsonBuilder} (h : R f b) (buffer : List UInt8) :
    R (f.initializeBuffer buffer) (b.initializeBuffer buffer)
  initializeVector {f b : BsonBuilder} (h : R f b) (content : List UInt8)
    (capacity startOffset reservedExtraFooter : ℕ) :
    R (f.initializeVector content capacity startOffset reservedExtraFooter platform)
      (b.initializeVector content capacity startOffset reservedExtraFooter platform)

namespace OperatesAlike

variable {R : BsonBuilder → BsonBuilder → Prop} {loose : BuilderStop → Prop} {f b : BsonBuilder}
  {platform : Platform}

/-- One operation. -/
theorem operation (hR : OperatesAlike platform loose R) (h : R f b) (op : BuilderOperation) :
    BothGive loose R (op.perform platform f) (op.perform platform b) := by
  cases op with
  | call c => exact bothGive_bind (hR.perform h c) fun ok f' b' h' => Related.pure ⟨rfl, h'⟩
  | finish =>
      refine bothGive_bind (hR.finish h) fun place f' b' h' => Related.pure ⟨?_, h'⟩
      rw [hR.buffer h']
  | error => exact Related.pure ⟨congrArg BuilderOutput.error (hR.errorFlag h).symm, h⟩
  | getDocumentDepth => exact Related.pure ⟨congrArg BuilderOutput.depth (hR.depth h).symm, h⟩
  | initializeBuffer buffer => exact Related.pure ⟨rfl, hR.initializeBuffer h buffer⟩
  | initializeVector content capacity startOffset reservedExtraFooter =>
      exact Related.pure ⟨rfl, hR.initializeVector h content capacity startOffset reservedExtraFooter⟩

/-- **A run of operations.** -/
theorem performAll (hR : OperatesAlike platform loose R) (ops : List BuilderOperation) (h : R f b) :
    BothGive loose R (performAll platform ops f) (performAll platform ops b) := by
  induction ops generalizing f b with
  | nil => exact Related.pure ⟨rfl, h⟩
  | cons op ops ih =>
      refine bothGive_bind (hR.operation h op) fun output f' b' h' => ?_
      exact bothGive_bind (ih h') fun outputs f'' b'' h'' => Related.pure ⟨rfl, h''⟩

end OperatesAlike

/-- **Whatever is done with the second builder**, the same comes back from the first one. -/
def Equivalent (platform : Platform) (b b' : BsonBuilder) : Prop :=
  ∀ ops outputs, (performAll platform ops b').map Prod.fst = .ok outputs →
    (performAll platform ops b).map Prod.fst = .ok outputs

/-- **Nothing that is left in a builder counts**: no document or array is open, and no call has
failed. -/
structure BsonBuilder.Reusable (b : BsonBuilder) : Prop where
  depth : b.depth = 0
  errorFlag : b.errorFlag = false

theorem BsonBuilder.Reusable.hidden {b : BsonBuilder} (h : b.Reusable) : b.leftover.Hidden :=
  ⟨h.depth, h.errorFlag⟩

theorem BsonBuilder.Reusable.inRange {b : BsonBuilder} (h : b.Reusable) :
    -2147483648 ≤ b.depth ∧ b.depth < 2147483648 := by
  rw [h.depth]
  decide

/-- Nothing is left of an earlier document. -/
structure BsonBuilder.Idle (b : BsonBuilder) : Prop where
  documentSizeOffsets : b.documentSizeOffsets = []
  arrayIdxCounters : b.arrayIdxCounters = []
  depth : b.depth = 0
  errorFlag : b.errorFlag = false

theorem BsonBuilder.Idle.leftover_eq {b : BsonBuilder} (h : b.Idle) : b.leftover = {} := by
  rw [BsonBuilder.leftover, h.documentSizeOffsets, h.arrayIdxCounters, h.depth, h.errorFlag]

section Runs

variable {f b : BsonBuilder} {platform : Platform}

theorem operatesAlike_under (hkey : platform.SameKeyBuffers) {left : Leftover} (hleft : left.Hidden) :
    OperatesAlike platform left.loose left.Under where
  toCallsAlike := Leftover.callsAlike_under hkey left
  depth := (Leftover.finishesAlike_under hleft).depth
  startOffset := (Leftover.finishesAlike_under hleft).startOffset
  errorFlag := (Leftover.finishesAlike_under hleft).errorFlag
  initializeBuffer h _ := { h with
    buffer := rfl
    offset := rfl
    currentUsage := rfl
    capacity := rfl
    container := rfl
    startOffset := rfl }
  initializeVector h _ _ _ _ := { h with
    buffer := rfl
    offset := rfl
    currentUsage := rfl
    capacity := rfl
    container := rfl
    startOffset := rfl
    reallocate := rfl }

/-- **A builder on top of what does not count** is as good as the one without it. -/
theorem equivalent_of_under (hkey : platform.SameKeyBuffers) {left : Leftover} (hleft : left.Hidden)
    (h : left.Under f b) : Equivalent platform b f :=
  fun ops _ hops => ((operatesAlike_under hkey hleft).performAll ops h).map_eq_ok (fun _ _ hp => hp.1)
    hops

/-! ### What is seen of an earlier document -/

/-- A buffer with room for an empty document and no more. -/
def fullBuffer : List UInt8 :=
  List.replicate 6 0

theorem closeContainer_fullBuffer (b : BsonBuilder) :
    (b.initializeBuffer fullBuffer).closeContainer 0
      = .ok { b.initializeBuffer fullBuffer with buffer := [5, 0, 0, 0, 0, 0], offset := 5 } := by
  have hoffset : (b.initializeBuffer fullBuffer).offset = 4 := by
    show wrap32 (0 + 4) = 4
    decide
  have hzero : (b.initializeBuffer fullBuffer).write 4 [0] = .ok (b.initializeBuffer fullBuffer) := rfl
  have hsize : ofI32 (wrap32 (wrap32 (4 + 1) - 0)) = [5, 0, 0, 0] := by decide
  have hwrite : (b.initializeBuffer fullBuffer).write 0 [5, 0, 0, 0]
      = .ok { b.initializeBuffer fullBuffer with buffer := [5, 0, 0, 0, 0, 0] } := rfl
  simp only [closeContainer, hoffset, hzero, hsize, hwrite, bind, Except.bind]
  rfl

theorem finish_fullBuffer (b : BsonBuilder) :
    (b.initializeBuffer fullBuffer).finish
      = if b.depth ≠ 0 ∨ b.errorFlag = true then .ok (none, b.initializeBuffer fullBuffer)
        else .ok (some (0, 5), { b.initializeBuffer fullBuffer with
          buffer := [5, 0, 0, 0, 0, 0], offset := 5 }) := by
  have hdepth : (b.initializeBuffer fullBuffer).depth = b.depth := rfl
  have herror : (b.initializeBuffer fullBuffer).errorFlag = b.errorFlag := rfl
  have hstart : (b.initializeBuffer fullBuffer).startOffset = 0 := rfl
  rw [BsonBuilder.finish, hdepth, herror, hstart, closeContainer_fullBuffer]
  split_ifs <;> rfl

/-- A builder with a document in which nothing is written yet is finished at once: with the empty
document, or with the null pointer. -/
theorem map_performAll_finish (b : BsonBuilder) :
    (performAll platform [.initializeBuffer fullBuffer, .finish] b).map Prod.fst
      = .ok [.nothing, .document
          (if b.depth ≠ 0 ∨ b.errorFlag = true then none else some (0, [5, 0, 0, 0, 0]))] := by
  by_cases hleft : b.depth ≠ 0 ∨ b.errorFlag = true
  · simp [performAll, BuilderOperation.perform, finish_fullBuffer, if_pos hleft, Except.map]
  · simp [performAll, BuilderOperation.perform, finish_fullBuffer, if_neg hleft, Except.map]

/-- A builder that is as good as a new one has nothing left that counts. -/
theorem reusable_of_equivalent (hf : f.Reusable) (h : Equivalent platform b f) : b.Reusable := by
  have hfinish := h [.initializeBuffer fullBuffer, .finish] _ (map_performAll_finish f)
  rw [map_performAll_finish, if_neg (not_or.mpr ⟨not_not.mpr hf.depth, by simp [hf.errorFlag]⟩)]
    at hfinish
  by_cases hleft : b.depth ≠ 0 ∨ b.errorFlag = true
  · rw [if_pos hleft] at hfinish
    exact absurd hfinish (by simp)
  · obtain ⟨hdepth, herror⟩ := not_or.mp hleft
    exact ⟨not_not.mp hdepth, Bool.eq_false_of_not_eq_true herror⟩

/-- **A builder that is given a vector** is as good as a new one, when nothing that is left in it
counts. -/
theorem initializeVector_equivalent_iff (hkey : platform.SameKeyBuffers) (b : BsonBuilder)
    (content : List UInt8) (capacity startOffset reservedExtraFooter : ℕ) :
    Equivalent platform
      (b.initializeVector content capacity startOffset reservedExtraFooter platform)
      (({} : BsonBuilder).initializeVector content capacity startOffset reservedExtraFooter platform)
      ↔ b.Reusable := by
  constructor
  · intro h
    have hreusable := reusable_of_equivalent ⟨rfl, rfl⟩ h
    exact ⟨hreusable.depth, hreusable.errorFlag⟩
  · intro hb
    exact equivalent_of_under hkey hb.hidden (under_initializeVector hb.inRange _ _ _ _ platform)

/-- An element for which there is no room: the function that reallocates a vector finds none. -/
theorem insertHeader_fullBuffer (header : List UInt8) (hheader : header.length = 2) (b : BsonBuilder) :
    (b.initializeBuffer fullBuffer).insertHeader platform header 0
      = if b.reallocate then .error .nullPointer
        else .ok (false, { b.initializeBuffer fullBuffer with errorFlag := true }) := by
  have hfull : ¬ wrap32 ((b.initializeBuffer fullBuffer).currentUsage + wrap32 (0 + 2))
      ≤ (b.initializeBuffer fullBuffer).capacity := by
    show ¬ wrap32 (wrap32 (0 + 5) + wrap32 (0 + 2)) ≤ wrap32 6
    decide
  have hbytes : ((header.length : ℕ) : ℤ) = 2 := congrArg Nat.cast hheader
  have hre : (b.initializeBuffer fullBuffer).reallocate = b.reallocate := rfl
  rw [BsonBuilder.insertHeader, hbytes, BsonBuilder.verifyEnoughCapacity, if_neg hfull, hre]
  cases b.reallocate with
  | false =>
      simp only [pure, Except.pure, bind, Except.bind, if_neg hfull, Bool.false_eq_true, if_false]
  | true => rfl

theorem map_performAll_fullBuffer (b : BsonBuilder) :
    (performAll platform [.initializeBuffer fullBuffer, .call (.add (.name []) .null)] b).map Prod.fst
      = if b.reallocate then .error .nullPointer else .ok [.nothing, .succeeded false] := by
  have hcall : (BuilderCall.add (.name []) .null).perform platform (b.initializeBuffer fullBuffer)
      = (b.initializeBuffer fullBuffer).insertHeader platform [0x0A, 0] 0 := rfl
  cases hre : b.reallocate <;>
    simp [performAll, BuilderOperation.perform, hcall, insertHeader_fullBuffer, hre, Except.map]

/-- **A builder that is given a buffer** must also never have been given a vector: it would take the
buffer for one that grows. -/
theorem initializeBuffer_equivalent_iff (hkey : platform.SameKeyBuffers) (b : BsonBuilder)
    (buffer : List UInt8) :
    Equivalent platform (b.initializeBuffer buffer) (({} : BsonBuilder).initializeBuffer buffer)
      ↔ b.Reusable ∧ b.reallocate = false := by
  constructor
  · intro h
    have hreusable := reusable_of_equivalent ⟨rfl, rfl⟩ h
    refine ⟨⟨hreusable.depth, hreusable.errorFlag⟩, ?_⟩
    by_contra hre
    rw [Bool.not_eq_false] at hre
    have hfull := h _ _ (map_performAll_fullBuffer (({} : BsonBuilder).initializeBuffer buffer))
    rw [map_performAll_fullBuffer] at hfull
    have hstop : (Except.error .nullPointer : Build (List BuilderOutput))
        = .ok [.nothing, .succeeded false] :=
      (if_pos hre).symm.trans hfull
    exact absurd hstop (by simp)
  · rintro ⟨hb, hre⟩
    exact equivalent_of_under hkey hb.hidden (under_initializeBuffer hb.inRange hre buffer)

end Runs

end ScApi
