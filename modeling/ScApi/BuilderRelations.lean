import ScApi.BsonCalls
import ScApi.Lib.Related

/-!
# Builders that work alike

Most of what a builder does is to write into its buffer, for which it reads where it writes and how much
room there is. Two builders that agree on this write the same, whatever else they differ in. What a
relation between builders says of their stacks is only seen by the functions that use them: those that
take an index, begin or close a container.

## Main results

* `WritesAlike.insertHeader`, `WritesAlike.addLeaf`: the functions that write keep such a relation.
* `FinishesAlike.finish`: so does the end of a document, which is the same in both.
* `CallsAlike.perform`: so do all calls, if those that use the stacks do.
-/

open Bytes Buffer Relating

namespace ScApi

open BsonBuilder

/-- Two computations return the same, and leave builders that are related. -/
abbrev BothGive (loose : BuilderStop → Prop) (R : BsonBuilder → BsonBuilder → Prop) {α : Type} :
    Build (α × BsonBuilder) → Build (α × BsonBuilder) → Prop :=
  Related loose fun p q => p.1 = q.1 ∧ R p.2 q.2

/-- **A relation that writing keeps**: related builders have the same of what the functions that write
read, and stay related when it is changed alike. -/
structure WritesAlike (R : BsonBuilder → BsonBuilder → Prop) : Prop where
  buffer {f b : BsonBuilder} (h : R f b) : b.buffer = f.buffer
  offset {f b : BsonBuilder} (h : R f b) : b.offset = f.offset
  currentUsage {f b : BsonBuilder} (h : R f b) : b.currentUsage = f.currentUsage
  capacity {f b : BsonBuilder} (h : R f b) : b.capacity = f.capacity
  container {f b : BsonBuilder} (h : R f b) : b.container = f.container
  reallocate {f b : BsonBuilder} (h : R f b) : b.reallocate = f.reallocate
  written {f b : BsonBuilder} (h : R f b) (buffer : List UInt8) :
    R { f with buffer } { b with buffer }
  moved {f b : BsonBuilder} (h : R f b) (offset currentUsage : ℤ) :
    R { f with offset, currentUsage } { b with offset, currentUsage }
  grown {f b : BsonBuilder} (h : R f b) (buffer : List UInt8) (capacity : ℤ)
    (container : Option ℕ) :
    R { f with buffer, capacity, container } { b with buffer, capacity, container }
  failed {f b : BsonBuilder} (h : R f b) : R { f with errorFlag := true } { b with errorFlag := true }

section Writes

variable {R : BsonBuilder → BsonBuilder → Prop} {loose : BuilderStop → Prop} {f b : BsonBuilder}
  {platform : Platform}

/-- A call, and what is done with its result. -/
theorem bothGive_bind {α β γ : Type} {S : β → γ → Prop} {x y : Build (α × BsonBuilder)}
    {k : α × BsonBuilder → Build β} {l : α × BsonBuilder → Build γ} (h : BothGive loose R x y)
    (hk : ∀ a f b, R f b → Related loose S (k (a, f)) (l (a, b))) :
    Related loose S (x >>= k) (y >>= l) := by
  refine Related.bind h ?_
  rintro ⟨a, f⟩ ⟨a', b⟩ ⟨ha, hb⟩
  obtain rfl : a = a' := ha
  exact hk a f b hb

/-- A function that makes an element's header does so alike for both. -/
def InsertsAlike (loose : BuilderStop → Prop) (R : BsonBuilder → BsonBuilder → Prop)
    (insert : BsonBuilder → Build (Bool × BsonBuilder)) : Prop :=
  ∀ f b, R f b → BothGive loose R (insert f) (insert b)

namespace WritesAlike

/-- A step forward. -/
theorem advanced (hR : WritesAlike R) (h : R f b) (offset : ℤ) :
    R { f with offset } { b with offset } := by
  have hmoved := hR.moved h offset f.currentUsage
  rw [← hR.currentUsage h] at hmoved
  have hf : { f with offset } = { f with offset, currentUsage := b.currentUsage } := by
    rw [hR.currentUsage h]
  rw [hf]
  exact hmoved

theorem write (hR : WritesAlike R) (h : R f b) (i : ℤ) (bytes : List UInt8) :
    Related loose R (f.write i bytes) (b.write i bytes) := by
  rw [BsonBuilder.write, BsonBuilder.write, hR.buffer h]
  exact Related.ite (fun _ => Related.pure (hR.written h _)) fun _ => Related.throw _

theorem reallocateTo (hR : WritesAlike R) (h : R f b) (needed : ℤ) :
    Related loose R (f.reallocateTo platform needed) (b.reallocateTo platform needed) := by
  rw [BsonBuilder.reallocateTo, BsonBuilder.reallocateTo, hR.container h, hR.buffer h]
  cases f.container with
  | none => exact Related.throw _
  | some capacity =>
      exact Related.ite (fun _ => Related.throw _) fun _ => Related.pure (hR.grown h _ _ _)

/-- What is left to do when there was no room at first. -/
theorem checkCapacity (hR : WritesAlike R) (h : R f b) (bytes : ℤ) :
    BothGive loose R
      (if wrap32 (f.currentUsage + bytes) ≤ f.capacity then pure (true, f)
        else pure (false, { f with errorFlag := true }))
      (if wrap32 (b.currentUsage + bytes) ≤ b.capacity then pure (true, b)
        else pure (false, { b with errorFlag := true })) := by
  have henough : (wrap32 (b.currentUsage + bytes) ≤ b.capacity) =
      (wrap32 (f.currentUsage + bytes) ≤ f.capacity) := by
    rw [hR.currentUsage h, hR.capacity h]
  simp only [henough]
  exact Related.ite (fun _ => Related.pure ⟨rfl, h⟩) fun _ => Related.pure ⟨rfl, hR.failed h⟩

theorem verifyEnoughCapacity (hR : WritesAlike R) (h : R f b) (bytes : ℤ) :
    BothGive loose R (f.verifyEnoughCapacity platform bytes) (b.verifyEnoughCapacity platform bytes) := by
  rw [BsonBuilder.verifyEnoughCapacity, BsonBuilder.verifyEnoughCapacity, hR.currentUsage h,
    hR.capacity h, hR.reallocate h]
  refine Related.ite (fun _ => Related.pure ⟨rfl, h⟩) fun _ => ?_
  refine Related.ite (fun _ => ?_) fun _ => hR.checkCapacity h bytes
  exact (hR.reallocateTo h _).bind fun f' b' h' => hR.checkCapacity h' bytes

theorem insertHeader (hR : WritesAlike R) (h : R f b) (header : List UInt8) (valueSize : ℤ) :
    BothGive loose R (f.insertHeader platform header valueSize)
      (b.insertHeader platform header valueSize) := by
  refine bothGive_bind (hR.verifyEnoughCapacity h _) fun enough f' b' h' => ?_
  refine Related.ite (fun _ => ?_) fun _ => Related.pure ⟨rfl, h'⟩
  rw [hR.offset h']
  refine (hR.write h' _ _).bind fun f'' b'' h'' => Related.pure ⟨rfl, ?_⟩
  rw [hR.offset h'', hR.currentUsage h'']
  exact hR.moved h'' _ _

theorem addElement (hR : WritesAlike R) {insert : BsonBuilder → Build (Bool × BsonBuilder)}
    (hinsert : InsertsAlike loose R insert) (h : R f b) (value : List UInt8) :
    BothGive loose R (addElement insert value f) (addElement insert value b) := by
  refine bothGive_bind (hinsert f b h) fun inserted f' b' h' => ?_
  refine Related.ite (fun _ => ?_) fun _ => Related.pure ⟨rfl, h'⟩
  refine Related.bind (R := R) ?_ fun f'' b'' h'' => Related.pure ⟨rfl, h''⟩
  rw [BsonBuilder.writeValue, BsonBuilder.writeValue, hR.offset h']
  refine (hR.write h' _ _).bind fun f'' b'' h'' => Related.pure ?_
  rw [hR.offset h'']
  exact hR.advanced h'' _

theorem addString (hR : WritesAlike R) {insert : ℤ → BsonBuilder → Build (Bool × BsonBuilder)}
    (hinsert : ∀ size, InsertsAlike loose R (insert size)) (h : R f b) (value : List UInt8) :
    BothGive loose R (addString insert value f) (addString insert value b) := by
  refine bothGive_bind (hinsert _ f b h) fun inserted f' b' h' => ?_
  refine Related.ite (fun _ => ?_) fun _ => Related.pure ⟨rfl, h'⟩
  rw [hR.offset h']
  refine (hR.write h' _ _).bind fun f₁ b₁ h₁ => ?_
  rw [hR.offset h₁]
  refine (hR.write h₁ _ _).bind fun f₂ b₂ h₂ => Related.pure ⟨rfl, ?_⟩
  exact hR.advanced h₂ _

theorem addBytes (hR : WritesAlike R) {insert : ℤ → BsonBuilder → Build (Bool × BsonBuilder)}
    (hinsert : ∀ size, InsertsAlike loose R (insert size)) (h : R f b) (bytes : List UInt8)
    (byteCount : ℤ) (subtype : UInt8) :
    BothGive loose R (addBytes insert bytes byteCount subtype f)
      (addBytes insert bytes byteCount subtype b) := by
  rw [BsonBuilder.addBytes, BsonBuilder.addBytes]
  refine Related.ite (fun _ => Related.pure ⟨rfl, h⟩) fun _ => ?_
  refine bothGive_bind (hinsert _ f b h) fun inserted f' b' h' => ?_
  refine Related.ite (fun _ => ?_) fun _ => Related.pure ⟨rfl, h'⟩
  rw [hR.offset h']
  refine (hR.write h' _ _).bind fun f'' b'' h'' => Related.pure ⟨rfl, ?_⟩
  rw [hR.offset h'']
  exact hR.advanced h'' _

theorem addLeaf (hR : WritesAlike R)
    {insert : UInt8 → ℤ → BsonBuilder → Build (Bool × BsonBuilder)}
    (hinsert : ∀ elementType size, InsertsAlike loose R (insert elementType size)) (h : R f b)
    (v : Bson.Leaf) :
    BothGive loose R (addLeaf insert v f) (addLeaf insert v b) := by
  cases v with
  | bool | double | i32 | i64 => exact hR.addElement (hinsert _ _) h _
  | null => exact hinsert _ _ f b h
  | string s => exact hR.addString (hinsert _) h s
  | binary data subtype => exact hR.addBytes (hinsert 0x05) h data _ subtype

theorem beginContainer
    (hopened : ∀ {f b : BsonBuilder}, R f b → ∀ kind, R (f.openContainer kind) (b.openContainer kind))
    {insert : BsonBuilder → Build (Bool × BsonBuilder)} (hinsert : InsertsAlike loose R insert)
    (h : R f b) (kind : Bson.Kind) :
    BothGive loose R (beginContainer insert kind f) (beginContainer insert kind b) := by
  refine bothGive_bind (hinsert f b h) fun inserted f' b' h' => ?_
  exact Related.ite (fun _ => Related.pure ⟨rfl, hopened h' kind⟩) fun _ => Related.pure ⟨rfl, h'⟩

theorem closeContainer (hR : WritesAlike R) (h : R f b) (startOffset : ℤ) :
    Related loose R (f.closeContainer startOffset) (b.closeContainer startOffset) := by
  rw [BsonBuilder.closeContainer, BsonBuilder.closeContainer, hR.offset h]
  refine (hR.write h _ _).bind fun f₁ b₁ h₁ => ?_
  rw [hR.offset h₁]
  exact (hR.write h₁ _ _).bind fun f₂ b₂ h₂ => Related.pure (hR.advanced h₂ _)

/-! The functions for documents make the key of its name. -/

theorem inserts_name (hR : WritesAlike R) (name : List UInt8) (elementType : UInt8) (size : ℤ) :
    InsertsAlike loose R (verifyCapacityAndInsertKey platform elementType name size) :=
  fun _ _ h => hR.insertHeader h _ _

theorem docAddElement (hR : WritesAlike R) (h : R f b) (name : List UInt8) (v : Bson.Leaf) :
    BothGive loose R (f.docAddElement platform name v) (b.docAddElement platform name v) := by
  show BothGive loose R ((BuilderCall.add (.name name) v).perform platform f)
    ((BuilderCall.add (.name name) v).perform platform b)
  rw [BuilderCall.perform_add]
  exact hR.addLeaf (fun elementType size => hR.inserts_name name elementType size) h _

theorem docAddSubDoc (hR : WritesAlike R) (h : R f b) (name subDocument : List UInt8) :
    BothGive loose R (f.docAddSubDoc platform name subDocument)
      (b.docAddSubDoc platform name subDocument) := by
  rw [BsonBuilder.docAddSubDoc, BsonBuilder.docAddSubDoc]
  generalize toI32 (subDocument.take 4) = docSize
  refine Related.ite (fun _ => Related.pure ⟨rfl, h⟩) fun _ => ?_
  exact hR.addElement (hR.inserts_name name _ _) h _

theorem docBeginSubDocFrom (hR : WritesAlike R)
    (hopened : ∀ {f b : BsonBuilder}, R f b → ∀ kind, R (f.openContainer kind) (b.openContainer kind))
    (h : R f b) (name subDocument : List UInt8) :
    BothGive loose R (f.docBeginSubDocFrom platform name subDocument)
      (b.docBeginSubDocFrom platform name subDocument) := by
  rw [BsonBuilder.docBeginSubDocFrom, BsonBuilder.docBeginSubDocFrom]
  generalize toI32 (subDocument.take 4) = subDocSize
  refine bothGive_bind (hR.insertHeader h _ _) fun inserted f' b' h' => ?_
  refine Related.ite (fun _ => ?_) fun _ => Related.pure ⟨rfl, h'⟩
  have hopen := hopened h' .doc
  simp only [hR.offset hopen]
  refine Related.ite (fun _ => Related.throw _) fun _ => ?_
  refine (hR.write hopen _ _).bind fun f'' b'' h'' => Related.pure ⟨rfl, ?_⟩
  rw [hR.offset h'']
  exact hR.advanced h'' _

end WritesAlike

end Writes

/-- A relation that writing keeps, between builders whose documents can be finished alike. -/
structure FinishesAlike (R : BsonBuilder → BsonBuilder → Prop) : Prop extends WritesAlike R where
  depth {f b : BsonBuilder} (h : R f b) : b.depth = f.depth
  startOffset {f b : BsonBuilder} (h : R f b) : b.startOffset = f.startOffset
  errorFlag {f b : BsonBuilder} (h : R f b) : b.errorFlag = f.errorFlag

/-- **A document that is finished** is the same. -/
theorem FinishesAlike.finish {R : BsonBuilder → BsonBuilder → Prop} {loose : BuilderStop → Prop}
    {f b : BsonBuilder} (hR : FinishesAlike R) (h : R f b) :
    BothGive loose R f.finish b.finish := by
  rw [BsonBuilder.finish, BsonBuilder.finish, hR.depth h, hR.errorFlag h, hR.startOffset h]
  refine Related.ite (fun _ => Related.pure ⟨rfl, h⟩) fun _ => ?_
  refine (hR.closeContainer h _).bind fun f' b' h' => Related.pure ⟨?_, h'⟩
  rw [hR.startOffset h', hR.offset h']

/-- **A relation that all calls keep**, since those that use the stacks do. -/
structure CallsAlike (platform : Platform) (loose : BuilderStop → Prop)
    (R : BsonBuilder → BsonBuilder → Prop) : Prop extends WritesAlike R where
  index (elementType : UInt8) (size : ℤ) :
    InsertsAlike loose R (verifyCapacityAndInsertArrayKey platform elementType size)
  opened {f b : BsonBuilder} (h : R f b) (kind : Bson.Kind) :
    R (f.openContainer kind) (b.openContainer kind)
  endDocument {f b : BsonBuilder} (h : R f b) : Related loose R f.endDocument b.endDocument
  endArray {f b : BsonBuilder} (h : R f b) : Related loose R f.endArray b.endArray

namespace CallsAlike

variable {R : BsonBuilder → BsonBuilder → Prop} {loose : BuilderStop → Prop} {f b : BsonBuilder}
  {platform : Platform}

/-- Both ways to make a key. -/
theorem inserts (hR : CallsAlike platform loose R) (key : BuilderKey) (elementType : UInt8) (size : ℤ) :
    InsertsAlike loose R (key.insert platform elementType size) := by
  cases key with
  | name n => exact hR.inserts_name n elementType size
  | index => exact hR.index elementType size

/-- **Related builders make the same calls.** -/
theorem perform (hR : CallsAlike platform loose R) (h : R f b) (c : BuilderCall) :
    BothGive loose R (c.perform platform f) (c.perform platform b) := by
  cases c with
  | add key v =>
      rw [BuilderCall.perform_add]
      exact hR.addLeaf (hR.inserts key) h _
  | addBytes key bytes byteCount subtype =>
      rw [BuilderCall.perform_addBytes]
      exact hR.addBytes (hR.inserts key _) h bytes byteCount subtype
  | addSubDoc name subDocument =>
      rw [BuilderCall.perform]
      exact hR.docAddSubDoc h name subDocument
  | «begin» key kind =>
      rw [BuilderCall.perform_begin]
      exact WritesAlike.beginContainer hR.opened (hR.inserts key _ _) h kind
  | beginFrom name subDocument => exact hR.docBeginSubDocFrom hR.opened h name subDocument
  | close kind =>
      cases kind with
      | doc => exact (hR.endDocument h).bind fun f' b' h' => Related.pure ⟨rfl, h'⟩
      | array => exact (hR.endArray h).bind fun f' b' h' => Related.pure ⟨rfl, h'⟩

end CallsAlike

end ScApi
