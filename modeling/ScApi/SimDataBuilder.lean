import Mathlib.Logic.Function.Basic
import ScApi.BsonBuilding
import ScApi.BsonWalk
import ScApi.BuilderReuse
import ScApi.Lib.BoundedRead

/-!
# Builders of sim data

A program sets the fields of vehicles, tracks and other items on builders that it keeps, adds the
documents of items to lists, and adds items and lists to an update. A builder whose document was added
somewhere is initialized there, so that it can be used for the next item: finishing takes the byte that
was promised to the terminator, and what is written behind it comes to lie behind the end of the
document. The overloads for a single track and for a single session do not initialize their builder.

This module models the builders with all their overloads, one step for each member function that the
program calls, and follows for each builder the fields that were set on it since it was built last, and
for the update what the program has put into it. Both are compared with the bytes of the builders.

## Main results

* `Building.docAddElement`, `Building.docAddSubDoc`, `Building.finish`: what a builder in use does.
* `step_guarded`: a guarded step is made and keeps the invariant.
* `added_of_guarded`: in a guarded run the bytes of every added document, of the update that is begun
  and of every finished update are those of what was set and added.
* `not_added`: a track builder that is used twice.
-/

open Bytes Buffer Bson Relating
open BoundedRead (bind_eq_ok)

namespace ScApi

/-- The classes of items, which are also the classes of lists. -/
inductive SimClass where
  | vehicle
  | participant
  | track
  | tire
  | session
  deriving DecidableEq, Repr

/-- A builder of the program: `VehicleBuilder` and its like for single items, `SimBuilder`, and
`VehiclesBuilder` and its like for lists. -/
inductive BuilderRef where
  | item (c : SimClass) (n : ℕ)
  | sim (n : ℕ)
  | list (c : SimClass) (n : ℕ)
  deriving DecidableEq, Repr

/-- The id of an item. Participants and tires have numbers. -/
inductive ItemId where
  | name (id : List UInt8)
  | number (id : ℤ)
  deriving DecidableEq, Repr

/-- The name of the list in the document of an update. -/
def SimClass.listName : SimClass → List UInt8
  | vehicle => ascii "vehicles"
  | participant => ascii "participants"
  | track => ascii "tracks"
  | tire => ascii "tires"
  | session => ascii "sessions"

/-- The overloads of `buildAndSet` for a single item that initialize its builder. -/
def SimClass.initializesItem : SimClass → Bool
  | vehicle | participant | tire => true
  | track | session => false

/-- `k_hex`. -/
def kHex : List UInt8 :=
  ascii "0123456789abcdef"

/-- The key of `docAddSubDocHex16Key` and `docAddNullHex16Key`. -/
def hex16Key (id : ℤ) : List UInt8 :=
  [12, 8, 4, 0].map fun shift : ℕ => kHex.getD (id / 2 ^ shift % 16).toNat 0

/-- How deep documents are nested in what is set on a builder: the items of a list are documents. -/
def BuilderRef.depth : BuilderRef → ℕ
  | item _ _ | sim _ => 0
  | list _ _ => 1

theorem BuilderRef.depth_le (r : BuilderRef) : r.depth ≤ 16 := by
  cases r <;> simp only [depth] <;> omega

/-- The key under which an item is added. -/
def ItemId.key : ItemId → List UInt8
  | name id => id
  | number id => hex16Key id

section Members

variable (platform : Platform)

/-- The constructor of `BuilderBase`, whose vector is empty. -/
def newBase : BsonBuilder :=
  BsonBuilder.initializeVector [] 0 0 0 platform {}

/-- `BuilderBase::initialize`. -/
def initializeBase (b : BsonBuilder) : BsonBuilder :=
  b.initializeVector b.buffer (b.container.getD 0) 0 0 platform

/-- `builder.finish().first` for a function that reads the document there: the bytes from its
beginning on. -/
def finishFirst (b : BsonBuilder) : Build (List UInt8 × BsonBuilder) := do
  let (place, b) ← b.finish
  match place with
  | none => throw .nullPointer
  | some (start, _) => pure (b.buffer.drop start.toNat, b)

/-- What the constructor of `SimDataUpdateBuilder` and its `initialize` have in common. -/
def beginUpdate (simId : List UInt8) (activateSim : Bool) (b : BsonBuilder) : Build BsonBuilder := do
  let b ← if activateSim then do
      let (_, b) ← b.docAddElement platform (ascii "active_sim") (.string simId)
      pure b
    else pure b
  let (_, b) ← b.docBeginSubDoc platform (ascii "sim")
  let (_, b) ← b.docBeginSubDoc platform simId
  pure b

end Members

/-- The builders of a program. The other fields record what the program did: what was set on a builder
since it was built or initialized last, whether it was built without being initialized, whether the
update is begun and not finished, whether it was ever begun again without being finished, and what the
program put into it. The last two are compared with what was set: the bytes that came to lie in the
builder to which a document was added, and the document that an update gave when it was finished. -/
structure SimBuilders where
  builders : BuilderRef → BsonBuilder
  update : BsonBuilder
  simId : List UInt8 := []
  activateSim : Bool := false
  fields : BuilderRef → Elements := fun _ => .nil
  consumed : BuilderRef → Bool := fun _ => false
  opened : Bool := false
  abandoned : Bool := false
  contents : Elements := .nil
  added : List (List UInt8 × Elements) := []
  finished : List (Option (List UInt8) × Elements) := []

/-- A member function that the program calls. -/
inductive SimStep where
  | construct (simId : List UInt8) (activateSim : Bool)
  | initializeUpdate
  | finishUpdate
  | initializeBuilder (r : BuilderRef)
  | set (r : BuilderRef) (name : List UInt8) (v : Leaf)
  | addRemoval (c : SimClass) (l : ℕ) (id : ItemId)
  | buildAndAdd (c : SimClass) (l : ℕ) (id : ItemId) (i : ℕ)
  | buildAndSetList (c : SimClass) (l : ℕ)
  | buildAndSetItem (c : SimClass) (id : ItemId) (i : ℕ)
  | buildAndSetSim (i : ℕ)
  | setActiveSession (sessionId : List UInt8)
  deriving DecidableEq, Repr

namespace SimBuilders

/-- All builders of the program are new. -/
def start (platform : Platform) : SimBuilders where
  builders _ := newBase platform
  update := newBase platform

/-- The bytes that `docAddSubDoc` copies. -/
def copied (sub : List UInt8) : List UInt8 :=
  sub.take (toI32 (sub.take 4)).toNat

/-- What a call appended to a builder behind a key: nothing when the builder had no room. -/
def received (name : List UInt8) (before after : BsonBuilder) : List UInt8 :=
  (after.buffer.take after.offset.toNat).drop (before.offset.toNat + (name.length + 2))

/-- The element that asks for the sim to be activated. -/
def activation (simId : List UInt8) (activateSim : Bool) : Elements :=
  if activateSim then .leaf (ascii "active_sim") (.string simId) .nil else .nil

/-- An update with some elements: the document of the sim lies in the one of all sims. -/
def updateElements (simId : List UInt8) (activateSim : Bool) (contents : Elements) : Elements :=
  (activation simId activateSim).append
    (.sub .doc (ascii "sim") (.sub .doc simId contents .nil) .nil)

/-- A builder was used for one more element. -/
def used (r : BuilderRef) (b : BsonBuilder) (e : Elements) (s : SimBuilders) : SimBuilders :=
  { s with
    builders := Function.update s.builders r b
    fields := Function.update s.fields r ((s.fields r).append e) }

/-- A builder was initialized, or is left as it is. -/
def emptied (r : BuilderRef) (b : BsonBuilder) (consumed : Bool) (s : SimBuilders) : SimBuilders :=
  { s with
    builders := Function.update s.builders r b
    fields := Function.update s.fields r .nil
    consumed := Function.update s.consumed r consumed }

/-- The document of a builder was added to another one. -/
def logged (r : BuilderRef) (name : List UInt8) (before after : BsonBuilder) (s : SimBuilders) :
    SimBuilders :=
  { s with added := s.added ++ [(received name before after, s.fields r)] }

/-- One more element was put into the update. -/
def withElement (update : BsonBuilder) (e : Elements) (s : SimBuilders) : SimBuilders :=
  { s with update, contents := s.contents.append e }

/-- `TypedBuilder::set`, and `addRemoval` of the lists. -/
def addField (platform : Platform) (r : BuilderRef) (name : List UInt8) (v : Leaf)
    (s : SimBuilders) : Build SimBuilders := do
  let (_, b) ← (s.builders r).docAddElement platform name v
  pure (s.used r b (.leaf name v .nil))

/-- `TypedListBuilder::buildAndAdd` and `TypedNumIdListBuilder::buildAndAdd`. -/
def buildAndAdd (platform : Platform) (c : SimClass) (l : ℕ) (id : ItemId) (i : ℕ)
    (s : SimBuilders) : Build SimBuilders := do
  let (sub, item) ← finishFirst (s.builders (.item c i))
  let (_, list) ← (s.builders (.list c l)).docAddSubDoc platform id.key sub
  pure (((s.logged (.item c i) id.key (s.builders (.list c l)) list).used (.list c l) list
    (.sub .doc id.key (s.fields (.item c i)) .nil)).emptied (.item c i)
    (initializeBase platform item) false)

/-- The overloads of `buildAndSet` for a list and for the sim. -/
def buildAndSetWhole (platform : Platform) (r : BuilderRef) (name : List UInt8) (s : SimBuilders) :
    Build SimBuilders := do
  let (sub, b) ← finishFirst (s.builders r)
  let (_, update) ← s.update.docAddSubDoc platform name sub
  pure (((s.logged r name s.update update).withElement update
    (.sub .doc name (s.fields r) .nil)).emptied r (initializeBase platform b) false)

/-- The overloads of `buildAndSet` for a single item. -/
def buildAndSetItem (platform : Platform) (c : SimClass) (id : ItemId) (i : ℕ) (s : SimBuilders) :
    Build SimBuilders := do
  let (_, begun) ← s.update.docBeginSubDoc platform c.listName
  let (sub, b) ← finishFirst (s.builders (.item c i))
  let (_, holding) ← begun.docAddSubDoc platform id.key sub
  let update ← holding.endDocument
  pure (((s.logged (.item c i) id.key begun holding).withElement update
    (.sub .doc c.listName (.sub .doc id.key (s.fields (.item c i)) .nil) .nil)).emptied (.item c i)
    (if c.initializesItem then initializeBase platform b else b) (!c.initializesItem))

/-- `SimDataUpdateBuilder::finish`. What lies below an update that was begun twice makes `finish` give
the null pointer, and is not recorded. -/
def finishUpdate (s : SimBuilders) : Build SimBuilders := do
  let update ← s.update.endDocument
  let update ← update.endDocument
  let (place, update) ← update.finish
  let doc := place.map fun p => (update.buffer.drop p.1.toNat).take p.2.toNat
  pure { s with
    update
    opened := false
    finished := if s.abandoned then s.finished
      else s.finished ++ [(doc, updateElements s.simId s.activateSim s.contents)] }

/-- One call. -/
def perform (platform : Platform) (s : SimBuilders) : SimStep → Build SimBuilders
  | .construct simId activateSim => do
      let update ← beginUpdate platform simId activateSim (newBase platform)
      pure { s with update, simId, activateSim, opened := true, abandoned := false, contents := .nil }
  | .initializeUpdate => do
      let update ← beginUpdate platform s.simId s.activateSim (initializeBase platform s.update)
      pure { s with
        update, opened := true, abandoned := s.abandoned || s.opened, contents := .nil }
  | .finishUpdate => s.finishUpdate
  | .initializeBuilder r => pure (s.emptied r (initializeBase platform (s.builders r)) false)
  | .set r name v => s.addField platform r name v
  | .addRemoval c l id => s.addField platform (.list c l) id.key .null
  | .buildAndAdd c l id i => s.buildAndAdd platform c l id i
  | .buildAndSetList c l => s.buildAndSetWhole platform (.list c l) c.listName
  | .buildAndSetItem c id i => s.buildAndSetItem platform c id i
  | .buildAndSetSim i => s.buildAndSetWhole platform (.sim i) (ascii "sim")
  | .setActiveSession sessionId => do
      let (_, update) ← s.update.docAddElement platform (ascii "active_session") (.string sessionId)
      pure (s.withElement update (.leaf (ascii "active_session") (.string sessionId) .nil))

/-- One call. There is no next state when a builder stops. -/
def step (platform : Platform) (s : SimBuilders) (a : SimStep) : Option SimBuilders :=
  (s.perform platform a).toOption

end SimBuilders

/-! ### Builders in use -/

namespace BsonBuilder

variable {platform : Platform} {b b' : BsonBuilder}

/-- Only a vector that is given to the builder changes how it gets more room. -/
theorem reallocate_verifyEnoughCapacity {n : ℤ} {ok : Bool}
    (h : b.verifyEnoughCapacity platform n = .ok (ok, b')) : b'.reallocate = b.reallocate := by
  have hcheck : ∀ {c : BsonBuilder}, (if wrap32 (c.currentUsage + n) ≤ c.capacity then pure (true, c)
      else pure (false, { c with errorFlag := true }) : Build (Bool × BsonBuilder)) = .ok (ok, b') →
      b'.reallocate = c.reallocate := by
    intro c hc
    split_ifs at hc <;> obtain ⟨-, rfl⟩ := Prod.mk.inj (Except.ok.inj hc) <;> rfl
  rw [verifyEnoughCapacity] at h
  split_ifs at h with hroom hre
  · obtain ⟨-, rfl⟩ := Prod.mk.inj (Except.ok.inj h)
    rfl
  · obtain ⟨c, hc, h⟩ := bind_eq_ok.mp h
    rw [hcheck h]
    rw [reallocateTo] at hc
    cases hcont : b.container with
    | none =>
        rw [hcont] at hc
        cases hc
    | some capacity =>
        rw [hcont] at hc
        dsimp only at hc
        split_ifs at hc <;> obtain rfl := Except.ok.inj hc <;> rfl
  · exact hcheck h

theorem reallocate_insertHeader {header : List UInt8} {n : ℤ} {ok : Bool}
    (h : b.insertHeader platform header n = .ok (ok, b')) : b'.reallocate = b.reallocate := by
  obtain ⟨⟨enough, c⟩, hverify, h⟩ := bind_eq_ok.mp h
  rw [← reallocate_verifyEnoughCapacity hverify]
  dsimp only at h
  split_ifs at h
  · obtain ⟨c', hwrite, h⟩ := bind_eq_ok.mp h
    rw [write] at hwrite
    split_ifs at hwrite
    obtain rfl := Except.ok.inj hwrite
    obtain ⟨-, rfl⟩ := Prod.mk.inj (Except.ok.inj h)
    rfl
  · obtain ⟨-, rfl⟩ := Prod.mk.inj (Except.ok.inj h)
    rfl

end BsonBuilder

/-- The key of an element that is added to a document in a vector. -/
theorem Writing.insert_name {platform : Platform} {bound : ℕ} {d : Draft} {f : BsonBuilder}
    (h : Writing [] 0 d [] 0 f) (hv : OnVector f) (hgrow : platform.GrowsWithin bound)
    (hbound : bound < 2147483648) (name : List UInt8) (typeByte : UInt8) (size : ℕ)
    (hn : d.usage [] 0 + (size + (header typeByte name).length) ≤ bound) :
    ∃ f₁, f.verifyCapacityAndInsertKey platform typeByte name size = .ok (true, f₁) ∧
      Writing [] 0 d (header typeByte name) size f₁ ∧ OnVector f₁ ∧ f₁.errorFlag = f.errorFlag := by
  obtain ⟨f₁, hinsert, hw, hroomy, herr⟩ :=
    h.insert_field (.inl ⟨hv, hgrow⟩) hbound name typeByte size (by omega)
  have hre : f₁.reallocate = true :=
    (BsonBuilder.reallocate_insertHeader hinsert).trans hv.reallocate
  rcases hroomy with ⟨hv₁, -⟩ | ⟨hfixed, -⟩
  · exact ⟨f₁, hinsert, hw, hv₁, herr⟩
  · rw [hre] at hfixed
    exact absurd hfixed (by decide)

/-- A builder holds a draft in a vector, possibly on top of something left. -/
def Building (left : Leftover) (d : Draft) (b : BsonBuilder) : Prop :=
  ∃ f, left.Under f b ∧ Writing [] 0 d [] 0 f ∧ OnVector f ∧ f.errorFlag = false

/-- A builder can be initialized with the vector that it has. -/
structure Ready (b : BsonBuilder) : Prop where
  vector : OnVector b
  inRange : -2147483648 ≤ b.depth ∧ b.depth < 2147483648

theorem Leftover.Under.ready {left : Leftover} {f b : BsonBuilder} (h : left.Under f b)
    (hv : OnVector f) : Ready b := by
  obtain ⟨capacity, hcap, hle, hlt⟩ := hv.container
  refine ⟨⟨⟨capacity, h.container.trans hcap, ?_, hlt⟩, h.reallocate.trans hv.reallocate⟩, ?_⟩
  · rw [h.buffer]
    exact hle
  · rw [h.depth]
    exact wrap32_range _

theorem Leftover.Under.idle {f b : BsonBuilder} (h : Leftover.Under {} f b) (hf : f.Idle) :
    b.Idle where
  documentSizeOffsets := by rw [h.documentSizeOffsets, hf.documentSizeOffsets]; rfl
  arrayIdxCounters := by rw [h.arrayIdxCounters, hf.arrayIdxCounters]; rfl
  depth := by rw [h.depth_eq Leftover.hidden_empty, hf.depth]
  errorFlag := by rw [h.errorFlag, hf.errorFlag]; rfl

theorem Writing.idle {d : Draft} {f : BsonBuilder} (h : Writing [] 0 d [] 0 f)
    (hlayers : d.layers = []) (hcounters : d.counters = []) (herr : f.errorFlag = false) :
    f.Idle where
  documentSizeOffsets := by rw [h.stack, Draft.offsets, hlayers]; rfl
  arrayIdxCounters := h.counters.trans hcounters
  depth := by rw [h.depth, hlayers]; rfl
  errorFlag := herr

namespace Building

variable {platform : Platform} {bound : ℕ} {left : Leftover} {d d' : Draft} {b f' : BsonBuilder}

theorem usage_eq (h : Building left d b) : b.currentUsage = d.usage [] 0 := by
  obtain ⟨f, hunder, hw, -, -⟩ := h
  rw [hunder.currentUsage, hw.usage_eq]

theorem ready (h : Building left d b) : Ready b := by
  obtain ⟨f, hunder, -, hv, -⟩ := h
  exact hunder.ready hv

theorem offset_eq (h : Building left d b) : b.offset = ((d.spine []).length : ℤ) := by
  obtain ⟨f, hunder, hw, -, -⟩ := h
  rw [hunder.offset, hw.offset, List.append_nil]

theorem holes (h : Building left d b) : d.HolesFit := by
  obtain ⟨f, -, hw, -, -⟩ := h
  exact hw.holes

/-- What is written so far. -/
theorem written (h : Building left d b) : b.buffer.take b.offset.toNat = d.spine [] := by
  have hoffset := h.offset_eq
  obtain ⟨f, hunder, hw, -, -⟩ := h
  obtain ⟨tail, hbuf⟩ := hw.buffer
  rw [hoffset, Int.toNat_natCast, hunder.buffer, hbuf, List.append_nil, List.take_left]

theorem idle (h : Building {} d b) (hlayers : d.layers = []) (hcounters : d.counters = []) :
    b.Idle := by
  obtain ⟨f, hunder, hw, -, herr⟩ := h
  exact hunder.idle (hw.idle hlayers hcounters herr)

/-- A call that the builder without anything left makes. -/
theorem of_follows {x y : Build (Bool × BsonBuilder)} (h : left.FollowsWith x y)
    (hx : x = .ok (true, f')) (hw : Writing [] 0 d' [] 0 f') (hv : OnVector f')
    (herr : f'.errorFlag = false) : ∃ b', y = .ok (true, b') ∧ Building left d' b' := by
  rw [hx] at h
  obtain ⟨⟨ok, b'⟩, hb', hok, hunder⟩ := h.exists_of_ok
  obtain rfl : true = ok := hok
  exact ⟨b', hb', f', hunder, hw, hv, herr⟩

/-- **An element is added.** -/
theorem docAddElement (h : Building left d b) (hgrow : platform.GrowsWithin bound)
    (hbound : bound < 2147483648) (name : List UInt8) (v : Leaf)
    (hn : d.usage [] 0 + (v.bytes.length + (header v.typeByte name).length) ≤ bound) :
    ∃ b', b.docAddElement platform name v = .ok (true, b') ∧
      Building left (d.add (.leaf name v .nil)) b' := by
  obtain ⟨f, hunder, hw, hv, herr⟩ := h
  obtain ⟨f₁, hinsert, hw₁, hv₁, herr₁⟩ := hw.insert_name hv hgrow hbound name v.typeByte _ hn
  have hkey : (BuilderKey.name name).insert platform v.typeByte v.bytes.length f = .ok (true, f₁) :=
    hinsert
  obtain ⟨f', hadd, hw', hsame⟩ := hw₁.addLeaf hkey
  have hcall : f.docAddElement platform name v = .ok (true, f') :=
    (congrFun (BuilderCall.perform_add platform (.name name) v) f).trans hadd
  exact of_follows (left.writesAlike_under.docAddElement hunder name v) hcall hw' (hv₁.same hsame)
    (hsame.errorFlag.trans (herr₁.trans herr))

/-- **A document is added.** -/
theorem docAddSubDoc (h : Building left d b) (hgrow : platform.GrowsWithin bound)
    (hbound : bound < 2147483648) (name : List UInt8) (e : Elements) (tail : List UInt8)
    (hn : d.usage [] 0 + ((document e.bytes).length + (header Kind.doc.typeByte name).length)
      ≤ bound) :
    ∃ b', b.docAddSubDoc platform name (document e.bytes ++ tail) = .ok (true, b') ∧
      Building left (d.add (.sub .doc name e .nil)) b' := by
  obtain ⟨f, hunder, hw, hv, herr⟩ := h
  obtain ⟨f₁, hinsert, hw₁, hv₁, herr₁⟩ := hw.insert_name hv hgrow hbound name _ _ hn
  have he : (Elements.sub .doc name e .nil).bytes
      = header Kind.doc.typeByte name ++ document e.bytes := by
    rw [Elements.bytes, Elements.bytes, List.append_nil]
  obtain ⟨f', hadd, hw', hsame⟩ := hw₁.addElement hinsert he
  have hlen : (document e.bytes).length < 2147483648 := by omega
  have hcall : f.docAddSubDoc platform name (document e.bytes ++ tail) = .ok (true, f') :=
    (BsonBuilder.docAddSubDoc_eq platform name hlen tail f).trans hadd
  exact of_follows (left.writesAlike_under.docAddSubDoc hunder name _) hcall hw' (hv₁.same hsame)
    (hsame.errorFlag.trans (herr₁.trans herr))

/-- **A document begins.** -/
theorem docBeginSubDoc (h : Building left d b) (hgrow : platform.GrowsWithin bound)
    (hbound : bound < 2147483648) (name : List UInt8)
    (hn : d.usage [] 0 + (5 + (header Kind.doc.typeByte name).length) ≤ bound) :
    ∃ hole b', b.docBeginSubDoc platform name = .ok (true, b') ∧
      Building left (d.push ⟨.doc, name, hole, .nil⟩) b' := by
  obtain ⟨f, hunder, hw, hv, herr⟩ := h
  obtain ⟨f₁, hinsert, hw₁, hv₁, herr₁⟩ := hw.insert_name hv hgrow hbound name _ _ hn
  obtain ⟨hole, f', hbegin, hw', hsame⟩ := hw₁.beginContainer hinsert
  obtain ⟨b', hb', hbuilding⟩ := of_follows (Leftover.related_docBeginSubDoc hunder name) hbegin hw'
    (hv₁.same hsame) (hsame.errorFlag.trans (herr₁.trans herr))
  exact ⟨hole, b', hb', hbuilding⟩

/-- **A document ends.** -/
theorem endDocument (h : Building left d b) {l : Layer} {outer : List Layer}
    (hl : d.layers = l :: outer) (hkind : l.kind = .doc) :
    ∃ b', b.endDocument = .ok b' ∧ Building left d.pop b' := by
  obtain ⟨f, hunder, hw, hv, herr⟩ := h
  obtain ⟨f', hclose, hw', hsame⟩ := hw.close .tight hl
  rw [hkind] at hclose
  have hend := perform_close_iff.mp hclose
  have hfollow := Leftover.related_endDocument hunder
  rw [hend] at hfollow
  obtain ⟨b', hb', hunder'⟩ := hfollow.exists_of_ok
  exact ⟨b', hb', f', hunder', hw', hv.same hsame, hsame.errorFlag.trans herr⟩

/-- **The document of a builder is finished**, and lies at the beginning of the vector. -/
theorem finish (h : Building {} d b) (hlayers : d.layers = []) (hcounters : d.counters = []) :
    ∃ tail b', b.finish = .ok (some (0, ((document d.main.bytes).length : ℤ)), b') ∧
      b'.buffer = document d.main.bytes ++ tail ∧ Ready b' ∧ b'.Idle := by
  obtain ⟨f, hunder, hw, hv, herr⟩ := h
  obtain ⟨tail, hfinish, hlen, -⟩ := hw.finish_eq hlayers herr
  have hfollow : Leftover.FollowsWith {} _ _ := (Leftover.finishesAlike_under Leftover.hidden_empty).finish hunder
  rw [hfinish] at hfollow
  obtain ⟨⟨place, b'⟩, hb', hplace, hunder'⟩ := hfollow.exists_of_ok
  obtain rfl := hplace
  refine ⟨tail, b', hb', hunder'.buffer, ?_, ?_⟩
  · exact hunder'.ready (hv.same ⟨hlen.symm, rfl, rfl, rfl⟩)
  · have hidle := hw.idle hlayers hcounters herr
    exact hunder'.idle ⟨hidle.documentSizeOffsets, hidle.arrayIdxCounters, hidle.depth, herr⟩

/-- The same for a function that reads the document there. -/
theorem finishFirst (h : Building {} d b) (hlayers : d.layers = []) (hcounters : d.counters = []) :
    ∃ tail b', finishFirst b = .ok (document d.main.bytes ++ tail, b') ∧ Ready b' ∧ b'.Idle := by
  obtain ⟨tail, b', hfinish, hbuffer, hready, hidle⟩ := h.finish hlayers hcounters
  refine ⟨tail, b', ?_, hready, hidle⟩
  rw [ScApi.finishFirst, hfinish]
  show Except.ok (b'.buffer.drop 0, b') = _
  rw [List.drop_zero, hbuffer]

/-- On top of something left, finishing gives the null pointer or the document. -/
theorem exists_finish (h : Building left d b) (hlayers : d.layers = []) :
    ∃ place b', b.finish = .ok (place, b') ∧ Ready b' := by
  by_cases hleft : b.depth ≠ 0 ∨ b.errorFlag = true
  · exact ⟨none, b, by rw [BsonBuilder.finish, if_pos hleft]; rfl, h.ready⟩
  obtain ⟨hdepth, herror⟩ := not_or.mp hleft
  obtain ⟨f, hunder, hw, hv, herr⟩ := h
  obtain ⟨tail, hfinish, hlen, -⟩ := hw.finish_eq hlayers herr
  have hzero : f.depth = 0 := by
    rw [hw.depth, hlayers]
    rfl
  have hfollow := hunder.finish ⟨hzero, herr⟩ ⟨not_not.mp hdepth, Bool.not_eq_true _ ▸ herror⟩
  rw [hfinish] at hfollow
  obtain ⟨⟨place, b'⟩, hb', -, hunder'⟩ := hfollow.exists_of_ok
  exact ⟨place, b', hb', hunder'.ready (hv.same ⟨hlen.symm, rfl, rfl, rfl⟩)⟩

end Building

/-- **A builder is initialized** with the vector that it has. -/
theorem Ready.initializeBase {platform : Platform} {bound : ℕ} (hgrow : platform.GrowsWithin bound)
    (hten : 10 ≤ bound) (hbound : bound < 2147483648) {b : BsonBuilder} (h : Ready b) :
    ∃ hole, Building b.leftover ⟨hole, .nil, [], []⟩ (initializeBase platform b) := by
  obtain ⟨capacity, hcap, hle, hlt⟩ := h.vector.container
  obtain ⟨front, hole, hfront, -, hw, hv, herr⟩ :=
    @writing_initializeVector platform b.buffer capacity 0 0 bound hle hlt hgrow (by omega) hbound
  obtain rfl := List.eq_nil_of_length_eq_zero hfront
  have hunder := under_initializeVector h.inRange b.buffer capacity 0 0 platform
  refine ⟨hole, _, ?_, hw, hv, herr⟩
  rw [ScApi.initializeBase, hcap]
  exact hunder

/-- **A new builder** holds an empty draft. -/
theorem building_newBase {platform : Platform} {bound : ℕ} (hgrow : platform.GrowsWithin bound)
    (hten : 10 ≤ bound) (hbound : bound < 2147483648) :
    ∃ hole, Building {} ⟨hole, .nil, [], []⟩ (newBase platform) := by
  obtain ⟨front, hole, hfront, -, hw, hv, herr⟩ :=
    @writing_initializeVector platform [] 0 0 0 bound le_rfl (by decide) hgrow (by omega) hbound
  obtain rfl := List.eq_nil_of_length_eq_zero hfront
  have hrange : -2147483648 ≤ ({} : BsonBuilder).depth ∧ ({} : BsonBuilder).depth < 2147483648 := by
    decide
  exact ⟨hole, _, under_initializeVector hrange [] 0 0 0 platform, hw, hv, herr⟩

/-! ### Guarded runs -/

namespace SimBuilders

/-- The bytes that an update takes before anything is added to it. -/
def updateSize (simId : List UInt8) (activateSim : Bool) : ℕ :=
  (if activateSim then simId.length + 17 else 0) + (simId.length + 22)

/-- **The condition on a call**: a builder that a single item was taken from is not used before it is
initialized, documents are added to an update that is begun and not finished, and what is added fits
into a vector. -/
def Guarded (bound : ℕ) (s : SimBuilders) : SimStep → Prop
  | .construct simId activateSim => updateSize simId activateSim ≤ bound
  | .initializeUpdate => updateSize s.simId s.activateSim ≤ bound
  | .finishUpdate => s.opened = true
  | .initializeBuilder _ => True
  | .set r name v => s.consumed r = false ∧
      (s.builders r).currentUsage + (v.bytes.length + (name.length + 2) : ℕ) ≤ bound
  | .addRemoval c l id =>
      (s.builders (.list c l)).currentUsage + (id.key.length + 2 : ℕ) ≤ bound
  | .buildAndAdd c l id i => s.consumed (.item c i) = false ∧
      (s.builders (.list c l)).currentUsage
        + ((s.builders (.item c i)).currentUsage + (id.key.length + 2 : ℕ)) ≤ bound
  | .buildAndSetList c l => s.opened = true ∧ s.update.currentUsage
      + ((s.builders (.list c l)).currentUsage + (c.listName.length + 2 : ℕ)) ≤ bound
  | .buildAndSetItem c id i => s.opened = true ∧ s.consumed (.item c i) = false ∧
      s.update.currentUsage + (5 + (c.listName.length + 2) : ℕ)
        + ((s.builders (.item c i)).currentUsage + (id.key.length + 2 : ℕ)) ≤ bound
  | .buildAndSetSim i => s.opened = true ∧ s.update.currentUsage
      + ((s.builders (.sim i)).currentUsage + 5) ≤ bound
  | .setActiveSession sessionId => s.opened = true ∧
      s.update.currentUsage + (sessionId.length + 21 : ℕ) ≤ bound

instance (bound : ℕ) (s : SimBuilders) : DecidablePred (Guarded bound s)
  | .construct _ _ | .initializeUpdate => Nat.decLe _ _
  | .finishUpdate => inferInstanceAs (Decidable (_ = _))
  | .initializeBuilder _ => .isTrue trivial
  | .addRemoval _ _ _ => inferInstanceAs (Decidable (_ ≤ _))
  | .set _ _ _ | .buildAndAdd _ _ _ _ | .buildAndSetList _ _ | .buildAndSetSim _
  | .setActiveSession _ => inferInstanceAs (Decidable (_ ∧ _))
  | .buildAndSetItem _ _ _ => inferInstanceAs (Decidable (_ ∧ _ ∧ _))

/-- An update that is begun: the document of the sim is open, and the document around it. -/
def openUpdate (s : SimBuilders) (hole₁ hole₂ hole₃ : List UInt8) : Draft where
  hole := hole₁
  main := activation s.simId s.activateSim
  layers := [⟨.doc, s.simId, hole₃, s.contents⟩, ⟨.doc, ascii "sim", hole₂, .nil⟩]
  counters := []

/-- **The bytes of the builders are what the program asked for**: those that an added document has in
the builder that it was added to, where it is valid unless a name in it has a NUL byte, those of a
finished update, and those of an update that is begun, but for the sizes of its open documents. -/
structure Faithful (s : SimBuilders) : Prop where
  added : ∀ p ∈ s.added, p.1 = document p.2.bytes
  valid : ∀ p ∈ s.added, p.2.CleanKeys → BsonReader.validate p.1 p.1.length = .ok true
  finished : ∀ p ∈ s.finished, p.1 = some (document p.2.bytes)
  written : s.opened = true → ∃ hole₁ hole₂ hole₃, (s.openUpdate hole₁ hole₂ hole₃).HolesFit ∧
    s.update.buffer.take s.update.offset.toNat = (s.openUpdate hole₁ hole₂ hole₃).spine []

/-- A builder holds what was set on it. After a single item was taken from it and it was not
initialized, it can only be initialized. -/
def HoldsFields (s : SimBuilders) (r : BuilderRef) : Prop :=
  if s.consumed r then Ready (s.builders r) ∧ (s.builders r).Idle
  else ∃ hole, Building {} ⟨hole, s.fields r, [], []⟩ (s.builders r)

/-- The update holds what was put into it, on top of something left when it was begun twice. -/
structure HoldsUpdate (s : SimBuilders) : Prop where
  ready : Ready s.update
  idle : s.opened = false → s.abandoned = false → s.update.Idle
  building : s.opened = true → ∃ left hole₁ hole₂ hole₃, (s.abandoned = false → left = {}) ∧
    Building left (s.openUpdate hole₁ hole₂ hole₃) s.update

/-- **The invariant of guarded runs.** -/
structure Invariant (s : SimBuilders) : Prop where
  fields : ∀ r, s.HoldsFields r
  depth : ∀ r, (s.fields r).depth ≤ r.depth
  taken : ∀ r, s.consumed r = true → ∃ c i, r = .item c i
  update : s.HoldsUpdate
  added : ∀ p ∈ s.added, p.1 = document p.2.bytes
  valid : ∀ p ∈ s.added, p.2.CleanKeys → BsonReader.validate p.1 p.1.length = .ok true
  finished : ∀ p ∈ s.finished, p.1 = some (document p.2.bytes)

variable {platform : Platform} {bound : ℕ} {s : SimBuilders} {r : BuilderRef} {b : BsonBuilder}

/-- What a builder holds is what takes room in it. -/
theorem usage_holds {hole : List UInt8} {e : Elements} (h : Building {} ⟨hole, e, [], []⟩ b) :
    b.currentUsage = (document e.bytes).length := by
  have hhole : hole.length = 4 := h.holes.1
  rw [h.usage_eq, Draft.usage, Draft.spine, Draft.spineOf, List.nil_append, List.length_append, hhole,
    length_document, List.length_nil]
  dsimp only
  omega

theorem copied_document {e : Elements} (h : (document e.bytes).length < 2147483648)
    (tail : List UInt8) : copied (document e.bytes ++ tail) = document e.bytes := by
  have hsize : (document e.bytes ++ tail).take 4 = (document e.bytes).take 4 := by
    rw [List.take_append_of_le_length (by rw [length_document]; omega)]
  rw [copied, hsize, toI32_take_document h, Int.toNat_natCast, List.take_left]

/-- **What a builder received** is the document that was added to it. -/
theorem received_document {left : Leftover} {d : Draft} {u u' : BsonBuilder} {name : List UInt8}
    {e : Elements} (h : Building left d u) (h' : Building left (d.add (.sub .doc name e .nil)) u') :
    received name u u' = document e.bytes := by
  have hlen : (header Kind.doc.typeByte name).length = name.length + 2 := length_header _ _
  rw [received, h'.written, h.offset_eq, Int.toNat_natCast, Draft.spine_add, Elements.bytes,
    Elements.bytes, List.append_nil, ← List.append_assoc, ← hlen, ← List.length_append]
  exact List.drop_left

namespace Invariant

/-- **The bytes are faithful** wherever the invariant holds. -/
theorem faithful (h : Invariant s) : s.Faithful where
  added := h.added
  valid := h.valid
  finished := h.finished
  written hopened := by
    obtain ⟨left, hole₁, hole₂, hole₃, -, hu⟩ := h.update.building hopened
    exact ⟨hole₁, hole₂, hole₃, hu.holes, hu.written⟩

theorem building (h : Invariant s) (hr : s.consumed r = false) :
    ∃ hole, Building {} ⟨hole, s.fields r, [], []⟩ (s.builders r) := by
  have hfields := h.fields r
  rw [HoldsFields, hr] at hfields
  exact hfields

theorem ready_idle (h : Invariant s) (r : BuilderRef) :
    Ready (s.builders r) ∧ (s.builders r).Idle := by
  cases hr : s.consumed r with
  | true =>
      have hfields := h.fields r
      rw [HoldsFields, hr] at hfields
      exact hfields
  | false =>
      obtain ⟨hole, hb⟩ := h.building hr
      exact ⟨hb.ready, hb.idle rfl rfl⟩

/-- Builders of lists and of the sim are always initialized. -/
theorem not_taken (h : Invariant s) (hr : ∀ c i, r ≠ .item c i) : s.consumed r = false := by
  rw [← Bool.not_eq_true]
  intro htaken
  obtain ⟨c, i, heq⟩ := h.taken r htaken
  exact hr c i heq

/-- A builder was used for one more element. -/
theorem used (h : Invariant s) {hole : List UInt8} {e : Elements} (hr : s.consumed r = false)
    (hb : Building {} ⟨hole, (s.fields r).append e, [], []⟩ b) (he : e.depth ≤ r.depth) :
    Invariant (s.used r b e) := by
  refine ⟨fun r' => ?_, fun r' => ?_, h.taken,
    ⟨h.update.ready, h.update.idle, h.update.building⟩, h.added, h.valid, h.finished⟩
  · by_cases hr' : r' = r
    · subst hr'
      simp only [HoldsFields, SimBuilders.used, Function.update_self, hr]
      exact ⟨hole, hb⟩
    · simp only [HoldsFields, SimBuilders.used, Function.update_of_ne hr']
      exact h.fields r'
  · by_cases hr' : r' = r
    · subst hr'
      simp only [SimBuilders.used, Function.update_self, Elements.depth_append]
      exact max_le (h.depth r') he
    · simp only [SimBuilders.used, Function.update_of_ne hr']
      exact h.depth r'

/-- A builder was initialized, or is left as it is. -/
theorem emptied (h : Invariant s) (r : BuilderRef) {consumed : Bool}
    (hb : if consumed then Ready b ∧ b.Idle else ∃ hole, Building {} ⟨hole, .nil, [], []⟩ b)
    (hitem : consumed = true → ∃ c i, r = .item c i) : Invariant (s.emptied r b consumed) := by
  refine ⟨fun r' => ?_, fun r' => ?_, fun r' hr' => ?_,
    ⟨h.update.ready, h.update.idle, h.update.building⟩, h.added, h.valid, h.finished⟩
  · by_cases heq : r' = r
    · subst heq
      simp only [HoldsFields, SimBuilders.emptied, Function.update_self]
      exact hb
    · simp only [HoldsFields, SimBuilders.emptied, Function.update_of_ne heq]
      exact h.fields r'
  · by_cases heq : r' = r
    · subst heq
      simp only [SimBuilders.emptied, Function.update_self]
      exact Nat.zero_le _
    · simp only [SimBuilders.emptied, Function.update_of_ne heq]
      exact h.depth r'
  · by_cases heq : r' = r
    · subst heq
      change Function.update s.consumed r' consumed r' = true at hr'
      rw [Function.update_self] at hr'
      exact hitem hr'
    · change Function.update s.consumed r consumed r' = true at hr'
      rw [Function.update_of_ne heq] at hr'
      exact h.taken r' hr'

theorem initialized (h : Invariant s) (r : BuilderRef) {hole : List UInt8}
    (hb : Building {} ⟨hole, .nil, [], []⟩ b) : Invariant (s.emptied r b false) :=
  h.emptied r (show ∃ hole, _ from ⟨hole, hb⟩) fun hcontra => absurd hcontra (by decide)

/-- The document of a builder was added to another one. -/
theorem logged (h : Invariant s) {name : List UInt8} {before after : BsonBuilder}
    (hlen : (document (s.fields r).bytes).length < 2147483648)
    (hreceived : received name before after = document (s.fields r).bytes) :
    Invariant (s.logged r name before after) := by
  have hmem : ∀ p ∈ (s.logged r name before after).added,
      p ∈ s.added ∨ p = (received name before after, s.fields r) := by
    intro p hp
    rcases List.mem_append.mp hp with hp | hp
    · exact .inl hp
    · exact .inr (List.mem_singleton.mp hp)
  refine ⟨h.fields, h.depth, h.taken, ⟨h.update.ready, h.update.idle, h.update.building⟩,
    fun p hp => ?_, fun p hp hclean => ?_, h.finished⟩
  · rcases hmem p hp with hp | rfl
    · exact h.added p hp
    · exact hreceived
  · rcases hmem p hp with hp | rfl
    · exact h.valid p hp hclean
    · have hdepth : (s.fields r).depth ≤ 16 := (h.depth r).trans r.depth_le
      have hvalid := validate_document [] hclean hlen hdepth le_rfl
      rw [List.append_nil] at hvalid
      dsimp only
      rw [hreceived]
      exact hvalid

/-- One more element was put into the update. -/
theorem withElement (h : Invariant s) (hopened : s.opened = true) {left : Leftover}
    {hole₁ hole₂ hole₃ : List UInt8} (hleft : s.abandoned = false → left = {}) {e : Elements}
    {update : BsonBuilder} (hu : Building left ((s.openUpdate hole₁ hole₂ hole₃).add e) update) :
    Invariant (s.withElement update e) := by
  refine ⟨h.fields, h.depth, h.taken, ⟨hu.ready, fun hclosed => ?_, fun _ => ?_⟩, h.added, h.valid,
    h.finished⟩
  · exact absurd (hopened.symm.trans hclosed) (by decide)
  · exact ⟨left, hole₁, hole₂, hole₃, hleft, hu⟩

end Invariant

section Steps

variable (hgrow : platform.GrowsWithin bound) (hbound : bound < 2147483648)

include hgrow hbound

/-- **A field is set**, or an item is removed from a list. -/
theorem addField_guarded (h : Invariant s) (hr : s.consumed r = false) (name : List UInt8) (v : Leaf)
    (hn : (s.builders r).currentUsage + (v.bytes.length + (name.length + 2) : ℕ) ≤ bound) :
    ∃ t, s.addField platform r name v = .ok t ∧ Invariant t := by
  obtain ⟨hole, hb⟩ := h.building hr
  rw [hb.usage_eq] at hn
  obtain ⟨b', hb', hbuilding⟩ := hb.docAddElement hgrow hbound name v
    (by rw [length_header]; exact_mod_cast hn)
  refine ⟨s.used r b' (.leaf name v .nil), ?_, h.used hr hbuilding (Nat.zero_le _)⟩
  exact bind_eq_ok.mpr ⟨_, hb', rfl⟩

/-- **A finished document is added to a builder.** -/
theorem takes_document {e : Elements} {hole : List UInt8} (hb : Building {} ⟨hole, e, [], []⟩ b)
    {left : Leftover} {d : Draft} {u : BsonBuilder} (hu : Building left d u) (name : List UInt8)
    (hn : u.currentUsage + (b.currentUsage + (name.length + 2 : ℕ)) ≤ bound) :
    ∃ sub b' u', finishFirst b = .ok (sub, b') ∧ u.docAddSubDoc platform name sub = .ok (true, u') ∧
      (document e.bytes).length < 2147483648 ∧ received name u u' = document e.bytes ∧
      Ready b' ∧ b'.Idle ∧ Building left (d.add (.sub .doc name e .nil)) u' := by
  obtain ⟨tail, b', hfinish, hready, hidle⟩ := hb.finishFirst rfl rfl
  dsimp only at hfinish
  rw [usage_holds hb, hu.usage_eq] at hn
  have hroom : d.usage [] 0 + ((document e.bytes).length + (header Kind.doc.typeByte name).length)
      ≤ bound := by
    rw [length_header]
    exact_mod_cast hn
  obtain ⟨u', hu', hbuilding⟩ := hu.docAddSubDoc hgrow hbound name e tail hroom
  exact ⟨_, b', u', hfinish, hu', by omega, received_document hu hbuilding, hready, hidle, hbuilding⟩

theorem buildAndAdd_guarded (hten : 10 ≤ bound) (h : Invariant s) {c : SimClass} {l i : ℕ}
    (hi : s.consumed (.item c i) = false) (id : ItemId)
    (hn : (s.builders (.list c l)).currentUsage
      + ((s.builders (.item c i)).currentUsage + (id.key.length + 2 : ℕ)) ≤ bound) :
    ∃ t, s.buildAndAdd platform c l id i = .ok t ∧ Invariant t := by
  obtain ⟨hole, hitem⟩ := h.building hi
  have hl : s.consumed (.list c l) = false := h.not_taken nofun
  obtain ⟨holeList, hlist⟩ := h.building hl
  obtain ⟨sub, item, list, hfinish, hadd, hlen, hreceived, hready, hidle, hbuilding⟩ :=
    takes_document hgrow hbound hitem hlist id.key hn
  obtain ⟨hole', hnew⟩ := hready.initializeBase hgrow hten hbound
  rw [hidle.leftover_eq] at hnew
  have hfields : Building {} ⟨holeList, (s.fields (.list c l)).append
      (.sub .doc id.key (s.fields (.item c i)) .nil), [], []⟩ list := hbuilding
  have hdepth : (Elements.sub .doc id.key (s.fields (.item c i)) .nil).depth ≤ 1 :=
    max_le (Nat.succ_le_succ (h.depth (.item c i))) (Nat.zero_le _)
  have hused := (h.logged hlen hreceived).used hl hfields hdepth
  refine ⟨_, ?_, hused.initialized (.item c i) hnew⟩
  exact bind_eq_ok.mpr ⟨_, hfinish, bind_eq_ok.mpr ⟨_, hadd, rfl⟩⟩

theorem buildAndSetWhole_guarded (hten : 10 ≤ bound) (h : Invariant s) (hr : s.consumed r = false)
    (hopened : s.opened = true) (name : List UInt8)
    (hn : s.update.currentUsage + ((s.builders r).currentUsage + (name.length + 2 : ℕ)) ≤ bound) :
    ∃ t, s.buildAndSetWhole platform r name = .ok t ∧ Invariant t := by
  obtain ⟨hole, hb⟩ := h.building hr
  obtain ⟨left, hole₁, hole₂, hole₃, hleft, hu⟩ := h.update.building hopened
  obtain ⟨sub, b', update, hfinish, hadd, hlen, hreceived, hready, hidle, hbuilding⟩ :=
    takes_document hgrow hbound hb hu name hn
  obtain ⟨hole', hnew⟩ := hready.initializeBase hgrow hten hbound
  rw [hidle.leftover_eq] at hnew
  have hadded := (h.logged hlen hreceived).withElement hopened hleft hbuilding
  refine ⟨_, ?_, hadded.initialized r hnew⟩
  exact bind_eq_ok.mpr ⟨_, hfinish, bind_eq_ok.mpr ⟨_, hadd, rfl⟩⟩

theorem buildAndSetItem_guarded (hten : 10 ≤ bound) (h : Invariant s) {c : SimClass} {i : ℕ}
    (hi : s.consumed (.item c i) = false) (hopened : s.opened = true) (id : ItemId)
    (hn : s.update.currentUsage + (5 + (c.listName.length + 2) : ℕ)
      + ((s.builders (.item c i)).currentUsage + (id.key.length + 2 : ℕ)) ≤ bound) :
    ∃ t, s.buildAndSetItem platform c id i = .ok t ∧ Invariant t := by
  obtain ⟨hole, hitem⟩ := h.building hi
  obtain ⟨left, hole₁, hole₂, hole₃, hleft, hu⟩ := h.update.building hopened
  have hitemUsage := usage_holds hitem
  have hbeginRoom : (s.openUpdate hole₁ hole₂ hole₃).usage [] 0
      + (5 + (header Kind.doc.typeByte c.listName).length) ≤ bound := by
    rw [hu.usage_eq, hitemUsage] at hn
    rw [length_header]
    omega
  obtain ⟨holeList, update₁, hbegin, hu₁⟩ := hu.docBeginSubDoc hgrow hbound c.listName hbeginRoom
  have hholeList : holeList.length = 4 := hu₁.holes.2 _ List.mem_cons_self
  have hroom : update₁.currentUsage
      + ((s.builders (.item c i)).currentUsage + (id.key.length + 2 : ℕ)) ≤ bound := by
    rw [hu.usage_eq] at hn
    rw [hu₁.usage_eq, Draft.usage_push, length_header, hholeList, Elements.bytes, List.length_nil]
    dsimp only
    omega
  obtain ⟨sub, b', update₂, hfinish, hadd, hlen, hreceived, hready, hidle, hu₂⟩ :=
    takes_document hgrow hbound hitem hu₁ id.key hroom
  obtain ⟨update₃, hend, hu₃⟩ := hu₂.endDocument rfl rfl
  have hpop := Draft.pop_push .doc c.listName holeList
    (.sub .doc id.key (s.fields (.item c i)) .nil) 0 (s.openUpdate hole₁ hole₂ hole₃)
  rw [Draft.tick_zero] at hpop
  rw [hpop] at hu₃
  have hadded := (h.logged hlen hreceived).withElement hopened hleft hu₃
  refine ⟨_, bind_eq_ok.mpr ⟨_, hbegin, bind_eq_ok.mpr ⟨_, hfinish, bind_eq_ok.mpr ⟨_, hadd,
    bind_eq_ok.mpr ⟨_, hend, rfl⟩⟩⟩⟩, ?_⟩
  cases c.initializesItem with
  | false => exact hadded.emptied _ ⟨hready, hidle⟩ fun _ => ⟨c, i, rfl⟩
  | true =>
      obtain ⟨hole', hnew⟩ := hready.initializeBase hgrow hten hbound
      rw [hidle.leftover_eq] at hnew
      exact hadded.initialized _ hnew

/-- **An update begins**: two documents are open. -/
theorem beginUpdate_guarded {left : Leftover} {hole : List UInt8} {u : BsonBuilder}
    (hu : Building left ⟨hole, .nil, [], []⟩ u) {simId : List UInt8} {activateSim : Bool}
    (hn : updateSize simId activateSim ≤ bound) :
    ∃ u' hole₂ hole₃, beginUpdate platform simId activateSim u = .ok u' ∧
      Building left ⟨hole, activation simId activateSim,
        [⟨.doc, simId, hole₃, .nil⟩, ⟨.doc, ascii "sim", hole₂, .nil⟩], []⟩ u' := by
  have hhole : hole.length = 4 := hu.holes.1
  have husage : (⟨hole, .nil, [], []⟩ : Draft).usage [] 0 = 5 := by
    simp only [Draft.usage, Draft.spine, Draft.spineOf, Elements.bytes, List.append_nil,
      List.nil_append, hhole, List.length_nil]
  rw [updateSize] at hn
  -- the element that is only there for a sim to be activated
  obtain ⟨u₁, hactivate, hu₁, husage₁⟩ : ∃ u₁,
      (activateSim = true ∧
          u.docAddElement platform (ascii "active_sim") (.string simId) = .ok (true, u₁) ∨
        activateSim = false ∧ u₁ = u) ∧
      Building left ⟨hole, activation simId activateSim, [], []⟩ u₁ ∧
      (⟨hole, activation simId activateSim, [], []⟩ : Draft).usage [] 0
        = 5 + (if activateSim then simId.length + 17 else 0) := by
    cases activateSim with
    | false => exact ⟨u, .inr ⟨rfl, rfl⟩, hu, husage⟩
    | true =>
        have hlen : (header (Leaf.string simId).typeByte (ascii "active_sim")).length = 12 := rfl
        simp only [if_true] at hn
        obtain ⟨u₁, hadd, hu₁⟩ := hu.docAddElement hgrow hbound (ascii "active_sim") (.string simId)
          (by rw [husage, hlen, Leaf.length_bytes_string]; omega)
        have husage₁ := Draft.usage_add [] 0 ⟨hole, .nil, [], []⟩
          (.leaf (ascii "active_sim") (.string simId) .nil)
        rw [husage, Elements.bytes, Elements.bytes, List.append_nil, List.length_append, hlen,
          Leaf.length_bytes_string] at husage₁
        refine ⟨u₁, .inl ⟨rfl, hadd⟩, hu₁, husage₁.trans ?_⟩
        rw [if_pos rfl]
        omega
  have hsimRoom : (⟨hole, activation simId activateSim, [], []⟩ : Draft).usage [] 0
      + (5 + (header Kind.doc.typeByte (ascii "sim")).length) ≤ bound := by
    have hlen : (header Kind.doc.typeByte (ascii "sim")).length = 5 := rfl
    rw [husage₁, hlen]
    omega
  obtain ⟨hole₂, u₂, hsim, hu₂⟩ := hu₁.docBeginSubDoc hgrow hbound (ascii "sim") hsimRoom
  have hhole₂ : hole₂.length = 4 := hu₂.holes.2 _ List.mem_cons_self
  have hidRoom : ((⟨hole, activation simId activateSim, [], []⟩ : Draft).push
      ⟨.doc, ascii "sim", hole₂, .nil⟩).usage [] 0
      + (5 + (header Kind.doc.typeByte simId).length) ≤ bound := by
    have hlen : (header Kind.doc.typeByte (ascii "sim")).length = 5 := rfl
    rw [Draft.usage_push, husage₁, hlen, hhole₂, length_header, Elements.bytes, List.length_nil]
    omega
  obtain ⟨hole₃, u₃, hid, hu₃⟩ := hu₂.docBeginSubDoc hgrow hbound simId hidRoom
  refine ⟨u₃, hole₂, hole₃, ?_, hu₃⟩
  rcases hactivate with ⟨rfl, hadd⟩ | ⟨rfl, rfl⟩
  · exact bind_eq_ok.mpr ⟨_, hadd, bind_eq_ok.mpr ⟨u₁, rfl, bind_eq_ok.mpr ⟨_, hsim,
      bind_eq_ok.mpr ⟨_, hid, rfl⟩⟩⟩⟩
  · exact bind_eq_ok.mpr ⟨u₁, rfl, bind_eq_ok.mpr ⟨_, hsim, bind_eq_ok.mpr ⟨_, hid, rfl⟩⟩⟩

omit hgrow hbound in
/-- **An update is finished.** Without anything left it gives the document of what was put into it. -/
theorem finishUpdate_guarded (h : Invariant s) (hopened : s.opened = true) :
    ∃ t, s.finishUpdate = .ok t ∧ Invariant t := by
  obtain ⟨left, hole₁, hole₂, hole₃, hleft, hu⟩ := h.update.building hopened
  obtain ⟨u₁, hend₁, hu₁⟩ := hu.endDocument rfl rfl
  obtain ⟨u₂, hend₂, hu₂⟩ := hu₁.endDocument rfl rfl
  cases habandoned : s.abandoned with
  | true =>
      obtain ⟨place, u₃, hfinish, hready⟩ := hu₂.exists_finish rfl
      refine ⟨_, bind_eq_ok.mpr ⟨_, hend₁, bind_eq_ok.mpr ⟨_, hend₂, bind_eq_ok.mpr ⟨_, hfinish,
        rfl⟩⟩⟩, h.fields, h.depth, h.taken, ⟨hready, fun _ hkept => ?_, fun hopen => ?_⟩, h.added, h.valid, ?_⟩
      · exact absurd (habandoned.symm.trans hkept) (by decide)
      · exact absurd hopen Bool.false_ne_true
      · dsimp only
        rw [habandoned]
        exact h.finished
  | false =>
      obtain rfl := hleft habandoned
      obtain ⟨tail, u₃, hfinish, hbuffer, hready, hidle⟩ := hu₂.finish rfl rfl
      have hdoc : (u₃.buffer.drop (0 : ℤ).toNat).take
          ((document (updateElements s.simId s.activateSim s.contents).bytes).length : ℤ).toNat
          = document (updateElements s.simId s.activateSim s.contents).bytes := by
        rw [hbuffer, Int.toNat_natCast]
        exact List.take_left
      refine ⟨_, bind_eq_ok.mpr ⟨_, hend₁, bind_eq_ok.mpr ⟨_, hend₂, bind_eq_ok.mpr ⟨_, hfinish,
        rfl⟩⟩⟩, h.fields, h.depth, h.taken, ⟨hready, fun _ _ => hidle, fun hopen => ?_⟩, h.added, h.valid, ?_⟩
      · exact absurd hopen Bool.false_ne_true
      · intro p hp
        dsimp only at hp
        rw [habandoned, if_neg Bool.false_ne_true] at hp
        rcases List.mem_append.mp hp with hp | hp
        · exact h.finished p hp
        · rw [List.mem_singleton.mp hp]
          exact congrArg some hdoc

/-- **A guarded call is made**, and keeps the invariant. -/
theorem step_guarded (hten : 10 ≤ bound) (h : Invariant s) {a : SimStep} (ha : Guarded bound s a) :
    ∃ t, s.step platform a = some t ∧ Invariant t := by
  suffices hmade : ∃ t, s.perform platform a = .ok t ∧ Invariant t by
    obtain ⟨t, ht, hinv⟩ := hmade
    exact ⟨t, by rw [step, ht]; rfl, hinv⟩
  cases a with
  | construct simId activateSim =>
      obtain ⟨hole, hnew⟩ := building_newBase hgrow hten hbound
      obtain ⟨u, hole₂, hole₃, hbegin, hu⟩ := beginUpdate_guarded hgrow hbound hnew ha
      refine ⟨_, bind_eq_ok.mpr ⟨_, hbegin, rfl⟩, h.fields, h.depth, h.taken,
        ⟨hu.ready, fun hclosed => ?_, fun _ => ⟨{}, hole, hole₂, hole₃, fun _ => rfl, hu⟩⟩, h.added,
        h.valid, h.finished⟩
      exact absurd hclosed.symm Bool.false_ne_true
  | initializeUpdate =>
      obtain ⟨hole, hnew⟩ := h.update.ready.initializeBase hgrow hten hbound
      obtain ⟨u, hole₂, hole₃, hbegin, hu⟩ := beginUpdate_guarded hgrow hbound hnew ha
      refine ⟨_, bind_eq_ok.mpr ⟨_, hbegin, rfl⟩, h.fields, h.depth, h.taken,
        ⟨hu.ready, fun hclosed => ?_, fun _ => ⟨_, hole, hole₂, hole₃, fun hkept => ?_, hu⟩⟩, h.added,
        h.valid, h.finished⟩
      · exact absurd hclosed.symm Bool.false_ne_true
      · have hboth := Bool.or_eq_false_iff.mp hkept
        exact (h.update.idle hboth.2 hboth.1).leftover_eq
  | finishUpdate => exact finishUpdate_guarded h ha
  | initializeBuilder r =>
      obtain ⟨hready, hidle⟩ := h.ready_idle r
      obtain ⟨hole, hnew⟩ := hready.initializeBase hgrow hten hbound
      rw [hidle.leftover_eq] at hnew
      exact ⟨_, rfl, h.initialized r hnew⟩
  | set r name v => exact addField_guarded hgrow hbound h ha.1 name v ha.2
  | addRemoval c l id =>
      have hr := h.not_taken (r := .list c l) nofun
      refine addField_guarded hgrow hbound h hr id.key .null ?_
      exact (Nat.zero_add (id.key.length + 2)).symm ▸ ha
  | buildAndAdd c l id i => exact buildAndAdd_guarded hgrow hbound hten h ha.1 id ha.2
  | buildAndSetList c l =>
      have hr := h.not_taken (r := .list c l) nofun
      exact buildAndSetWhole_guarded hgrow hbound hten h hr ha.1 _ ha.2
  | buildAndSetItem c id i =>
      exact buildAndSetItem_guarded hgrow hbound hten h ha.2.1 ha.1 id ha.2.2
  | buildAndSetSim i =>
      have hr := h.not_taken (r := .sim i) nofun
      exact buildAndSetWhole_guarded hgrow hbound hten h hr ha.1 _ ha.2
  | setActiveSession sessionId =>
      obtain ⟨left, hole₁, hole₂, hole₃, hleft, hu⟩ := h.update.building ha.1
      have hlen : (header (Leaf.string sessionId).typeByte (ascii "active_session")).length = 16 := rfl
      have hroom := ha.2
      rw [hu.usage_eq] at hroom
      obtain ⟨u, hadd, hu'⟩ := hu.docAddElement hgrow hbound (ascii "active_session")
        (.string sessionId) (by rw [hlen, Leaf.length_bytes_string]; omega)
      exact ⟨_, bind_eq_ok.mpr ⟨_, hadd, rfl⟩, h.withElement ha.1 hleft hu'⟩

theorem invariant_start (hten : 10 ≤ bound) : Invariant (start platform) := by
  obtain ⟨hole, hnew⟩ := building_newBase hgrow hten hbound
  exact ⟨fun _ => ⟨hole, hnew⟩, fun _ => Nat.zero_le _, nofun,
    ⟨hnew.ready, fun _ _ => hnew.idle rfl rfl, nofun⟩, nofun, nofun, nofun⟩

end Steps

/-- **A guarded run goes to its end with faithful bytes**: every document that it adds holds exactly the
fields that were set on its builder since it was built last, every update holds exactly what was put
into it, and no builder stops: nothing is written outside its vector. -/
theorem added_of_guarded (platform : Platform) {bound : ℕ} (hgrow : platform.GrowsWithin bound)
    (hten : 10 ≤ bound) (hbound : bound < 2147483648) {steps : List SimStep}
    (h : Runs.Meets (step platform) (Guarded bound) (start platform) steps) :
    ∃ t, Runs.exec (step platform) (start platform) steps = some t ∧ t.Faithful := by
  obtain ⟨t, ht, hinv⟩ :=
    h.exists_exec (fun hs ha => step_guarded hgrow hbound hten hs ha)
      (invariant_start hgrow hbound hten)
  exact ⟨t, ht, hinv.faithful⟩

/-- A track builder that is used for two tracks of one update, and what the program does between them. -/
def twoTracks (between : List SimStep) : List SimStep :=
  [.construct [97] true, .set (.item .track 0) [98] (.i32 1), .buildAndSetItem .track (.name [99]) 0]
    ++ between ++ [.set (.item .track 0) [100] (.i32 2), .buildAndSetItem .track (.name [101]) 0,
      .finishUpdate]

theorem added_of_guarded_twoTracks :
    ∃ t, Runs.exec (step .tight) (start .tight) (twoTracks [.initializeBuilder (.item .track 0)])
        = some t ∧ t.Faithful :=
  added_of_guarded .tight (Platform.growsWithin_tight (show 1000 < 2147483648 by decide)) (by decide)
    (by decide) (by decide +kernel)

/-- A vector takes twice the room that it had. -/
def doubling : Platform where
  grow c n := max (2 * c) n
  le_grow _ _ := le_max_right _ _
  keyBuffer _ := List.replicate 8 0
  length_keyBuffer := Platform.tight.length_keyBuffer

/-- **A track builder that is used twice** gives a second document that still holds the fields of the
first one, with those of the second one behind its end. The update is finished with it. -/
theorem not_added : ¬ ∀ (platform : Platform) (steps : List SimStep) (t : SimBuilders),
    Runs.exec (step platform) (start platform) steps = some t → t.Faithful := by
  intro h
  have hrun : (Runs.exec (step doubling) (start doubling) (twoTracks [])).map
      (fun t => t.finished.all fun p => decide (p.1 = some (document p.2.bytes))) = some false := by
    decide +kernel
  obtain ⟨t, ht, hall⟩ := Option.map_eq_some_iff.mp hrun
  have hfinished := List.all_eq_true.mpr fun p hp =>
    decide_eq_true ((h doubling _ t ht).finished p hp)
  rw [hall] at hfinished
  exact absurd hfinished (by decide)

end SimBuilders

end ScApi
