import ScApi.DeviceInfo
import ScApi.Lib.BsonFields
import ScApi.SimDataSections

/-!
# Loops over elements

A parser goes through the elements of a document with a loop, and through those of the documents in it
with loops inside of that loop. What such a loop makes of its elements is a fold, if its body takes each
element for itself and leaves the reader behind it. The body may enter the element and leave it again,
and so bodies with loops in them are of this kind too.

## Main results

* `Absorbs.readsAs`: a loop over the elements of a document.
* `Faces.inSubdocument`: into a document and out of it.
* `Absorbs.documents`: a loop that makes a value of every document in a document.
-/

open Bytes BoundedRead Bson

namespace ScApi

open ElementType BsonReader DeviceInfo

/-- The reader is in front of an offset in a container that ends at `last`, inside of some documents. -/
structure InFront (mem : List UInt8) (last : ℕ) (outer : List DocState) (start : ℕ) (r : BsonReader) :
    Prop where
  before : Before mem r start
  docEnd : r.curDocEnd = (last + 1 : ℕ)
  layers : r.docLayers = outer

/-- The reader is in front of an element, which is the next one. -/
structure Faces (mem : List UInt8) (last : ℕ) (outer : List DocState) (r : BsonReader) (it : Item) :
    Prop extends InFront mem last outer it.start r where
  element : ∃ need, ElementAt mem (last + 1 : ℕ) it.start it.type it.key it.value need
  stored : storedSize mem it.value it.type = .ok (it.behind - it.value : ℕ)
  located : ∃ pre post, Located mem pre post [it.entry] ∧ pre.length = it.start

/-- The reader has moved on in its document. -/
structure Moved (mem : List UInt8) (r r' : BsonReader) : Prop where
  inside : Inside mem r'
  docEnd : r'.curDocEnd = r.curDocEnd
  layers : r'.docLayers = r.docLayers

/-- **The body of a loop takes each element for itself**, and leaves the reader behind it. It enters at
most `room` documents in one another. -/
def Absorbs {σ : Type} (mem : List UInt8) (room : ℕ)
    (body : ElementType → σ → BsonReader → Read (σ × BsonReader)) (absorb : σ → Entry → σ) : Prop :=
  ∀ ⦃last : ℕ⦄ ⦃outer : List DocState⦄ ⦃r : BsonReader⦄ ⦃it : Item⦄, Faces mem last outer r it →
    outer.length + room ≤ kMaxSubdocs → ∀ s, ∃ r',
      body it.type s (r.onto it) = .ok (absorb s it.entry, r') ∧ InFront mem last outer it.behind r'

/-- **What a function reads** in a document with some elements, that it has entered with its key. -/
def ReadsAs {α : Type} (mem : List UInt8) (room : ℕ) (key : List UInt8)
    (inner : BsonReader → Read (α × BsonReader)) (body : Elements) (a : α) : Prop :=
  ∀ ⦃pre post : List UInt8⦄ ⦃outer : List DocState⦄ ⦃r : BsonReader⦄,
    Located mem pre (0 :: post) body.entries →
    InFront mem (pre.length + (body.entries.flatMap Entry.bytes).length) outer pre.length r →
    outer.length + room ≤ kMaxSubdocs → r.key = key → ∃ r', inner r = .ok (a, r') ∧ Moved mem r r'

section

variable {σ α : Type} {mem pre post : List UInt8} {last start room : ℕ} {outer : List DocState}
  {r r' : BsonReader} {it : Item} {e : Entry} {entries : List Entry} {key : List UInt8}
  {body : ElementType → σ → BsonReader → Read (σ × BsonReader)} {absorb : σ → Entry → σ}
  {inner : BsonReader → Read (α × BsonReader)} {a : α}

/-- The reader behind the element, when nothing is done with it. -/
theorem Faces.onto (h : Faces mem last outer r it) : InFront mem last outer it.behind (r.onto it) := by
  have helem := h.element
  rw [← h.docEnd] at helem
  exact ⟨h.before.onto helem h.stored, h.docEnd, h.layers⟩

/-- **The next of some elements.** -/
theorem InFront.next_element (h : InFront mem last outer pre.length r)
    (hloc : Located mem pre (0 :: post) (e :: entries))
    (hlast : last = pre.length + ((e :: entries).flatMap Entry.bytes).length) :
    Faces mem last outer r ⟨pre.length, e⟩ ∧
      r.next mem = .ok ((Item.mk pre.length e).type, r.onto ⟨pre.length, e⟩) ∧
      0 < (Item.mk pre.length e).type.value := by
  have hfrom := itemsFrom_itemsAt hloc
  rw [← hlast] at hfrom
  have hpos := hfrom.pos_type ⟨pre.length, e⟩ List.mem_cons_self
  obtain ⟨hnext, -⟩ := h.before.next_onto hfrom h.docEnd
  obtain ⟨-, -, helem, hstored, -, -⟩ := hfrom
  exact ⟨⟨h, helem, hstored, pre, _, hloc.head, rfl⟩, hnext, hpos⟩

/-- **Behind the last element**, the document ends. -/
theorem InFront.next_end (h : InFront mem last outer pre.length r)
    (hloc : Located mem pre (0 :: post) []) (hlast : last = pre.length) :
    r.next mem = .ok (elementEnd, r.atDocEnd last) := by
  have hfrom := itemsFrom_itemsAt hloc
  rw [List.flatMap_nil, List.length_nil, Nat.add_zero, ← hlast] at hfrom
  rw [← hlast] at h
  exact h.before.next_last hfrom

/-- **What a loop makes of some elements.** -/
theorem Absorbs.elementLoop (h : Absorbs mem room body absorb)
    (hloc : Located mem pre (0 :: post) entries) (hr : InFront mem last outer pre.length r)
    (hlast : last = pre.length + (entries.flatMap Entry.bytes).length)
    (hroom : outer.length + room ≤ kMaxSubdocs) {n : ℕ} (hn : entries.length < n) (s : σ) :
    ∃ r', elementLoop mem body n s r = .ok (entries.foldl absorb s, r') ∧ Moved mem r r' ∧
      r'.curType = elementEnd := by
  obtain ⟨n, rfl⟩ := Nat.exists_eq_succ_of_ne_zero (by omega : n ≠ 0)
  induction entries generalizing pre r n s with
  | nil =>
      have hnext := hr.next_end hloc hlast
      refine ⟨_, ?_, ⟨hr.before.inside.next hnext, rfl, rfl⟩, rfl⟩
      rw [DeviceInfo.elementLoop, hnext, ok_bind]
      rfl
  | cons e entries ih =>
      obtain ⟨hfaces, hnext, hpos⟩ := hr.next_element hloc hlast
      obtain ⟨r₁, hbody, hfront⟩ := h hfaces hroom s
      have hgo : (Item.mk pre.length e).type.isEndOrError = false := by
        have hne : ¬ (Item.mk pre.length e).type.value ≤ 0 := by omega
        simp [ElementType.isEndOrError, hne]
      have hbehind : (Item.mk pre.length e).behind = (pre ++ Entry.bytes e).length := by
        rw [Item.behind, List.length_append]
      rw [hbehind] at hfront
      rw [List.flatMap_cons, List.length_append, ← Nat.add_assoc, ← List.length_append] at hlast
      rw [List.length_cons] at hn
      obtain ⟨m, rfl⟩ := Nat.exists_eq_succ_of_ne_zero (by omega : n ≠ 0)
      obtain ⟨r', hrun, hmoved, hend⟩ := ih hloc.tail hfront hlast (absorb s e) m (by omega)
      refine ⟨r', ?_, ⟨hmoved.inside, ?_, ?_⟩, hend⟩
      · rw [DeviceInfo.elementLoop, hnext, ok_bind]
        dsimp only
        rw [hgo, if_neg Bool.false_ne_true, hbody, ok_bind]
        exact hrun
      · rw [hmoved.docEnd, hfront.docEnd, hr.docEnd]
      · rw [hmoved.layers, hfront.layers, hr.layers]

/-- **A loop over the rest of a document.** -/
theorem Absorbs.forEach (h : Absorbs mem room body absorb)
    (hloc : Located mem pre (0 :: post) entries) (hr : InFront mem last outer pre.length r)
    (hlast : last = pre.length + (entries.flatMap Entry.bytes).length)
    (hroom : outer.length + room ≤ kMaxSubdocs) (s : σ) :
    ∃ r', forEachElement mem body s r = .ok (entries.foldl absorb s, r') ∧ Moved mem r r' ∧
      r'.curType = elementEnd := by
  have hlength := (itemsFrom_itemsAt hloc).length_le
  have hitems : (itemsAt pre.length entries).length = entries.length := by
    rw [← List.length_map Item.key, map_key_itemsAt, List.length_map]
  have hdocEnd := hr.docEnd
  exact h.elementLoop hloc hr hlast hroom (n := r.curDocEnd.toNat + 2) (by omega) s

/-- **A loop over the elements of a document.** -/
theorem Absorbs.readsAs (h : Absorbs mem room body absorb) (key : List UInt8) (s : σ)
    (els : Elements) :
    ReadsAs mem room key (forEachElement mem body s) els (els.entries.foldl absorb s) := by
  intro pre post outer r hloc hr hroom _
  obtain ⟨r', hrun, hmoved, -⟩ := h.forEach hloc hr rfl hroom s
  exact ⟨r', hrun, hmoved⟩

/-- **Into a document and out of it.** -/
theorem Faces.inSubdocument {kind : Kind} {els : Elements} (h : Faces mem last outer r it)
    (hsub : it.entry.2 = .sub kind els) (hinner : ReadsAs mem room it.key inner els a)
    (hroom : outer.length + (room + 1) ≤ kMaxSubdocs) :
    ∃ r', inSubdocument mem inner (r.onto it) = .ok (a, r') ∧
      InFront mem last outer it.behind r' := by
  obtain ⟨pre, post, hloc, hpre⟩ := h.located
  rw [show it.entry = (it.key, .sub kind els) from Prod.ext rfl hsub] at hloc
  obtain ⟨pre', hlength, hbody⟩ := hloc.sub
  have hsmall := hbody.small
  obtain ⟨need, helem⟩ := h.element
  have hcontainer : it.type.isContainer = true := by
    rw [Item.type, hsub]
    cases kind <;> rfl
  have hneed : need = ((it.behind - it.value : ℕ) : ℤ) :=
    Except.ok.inj ((helem.storedSize_of_container hcontainer).symm.trans h.stored)
  rw [← h.docEnd] at helem
  have hlayers : r.docLayers.length ≠ kMaxSubdocs := by
    rw [h.layers]
    omega
  obtain ⟨hbegin, hbefore⟩ := h.before.beginSub helem hcontainer hlayers
  -- the elements lie between the size and the byte that ends the document
  have hvalue : pre'.length = it.value + 4 := by
    rw [hlength, hpre, Item.value]
    rfl
  have hbehind : it.behind = pre'.length + (els.entries.flatMap Entry.bytes).length + 1 := by
    have hbytes : it.entry.2.bytes = document els.bytes := by
      rw [hsub]
      rfl
    rw [hvalue, Item.behind, Item.value, Entry.length_bytes, Elements.flatMap_entries, hbytes,
      length_document]
    omega
  have hwrap : wrap32 ((it.value : ℤ) + 4) = pre'.length := by
    rw [hvalue, wrap32_of_range (by omega) (by omega)]
    rfl
  rw [hwrap] at hbefore
  obtain ⟨r₁, hr₁, hdocEnd, hkey, state, hlayers₁, hstate⟩ : ∃ r₁,
      (r.atElement it.start it.type it.key it.value).inSub need = r₁ ∧
      r₁.curDocEnd = it.value + need ∧ r₁.key = it.key ∧
      ∃ state, r₁.docLayers = state :: r.docLayers ∧ state.endOffset = r.curDocEnd :=
    ⟨_, rfl, rfl, rfl, _, rfl, rfl⟩
  rw [hr₁] at hbegin hbefore
  rw [h.layers] at hlayers₁
  have hend : r₁.curDocEnd = (pre'.length + (els.entries.flatMap Entry.bytes).length + 1 : ℕ) := by
    have hcast : it.value ≤ it.behind := it.value_le_behind
    rw [hdocEnd, hneed, ← hbehind, Nat.cast_sub hcast]
    ring
  obtain ⟨r₂, hrun, hmoved⟩ := hinner hbody ⟨hbefore, hend, hlayers₁⟩
    (by rw [List.length_cons]; omega) hkey
  obtain ⟨-, hlayers₂, hend₂, hback⟩ := Before.endSub hmoved.inside (hmoved.layers.trans hlayers₁)
  rw [hmoved.docEnd, hend, ← hbehind] at hback
  refine ⟨r₂.endSub.2, ?_, hback, hend₂.trans (hstate.trans h.docEnd), hlayers₂⟩
  rw [DeviceInfo.inSubdocument, BsonReader.onto, hbegin, ok_bind]
  dsimp only
  rw [hrun]
  rfl

/-- **A loop that makes a value of every document** in a document. -/
theorem Absorbs.documents {element : ElementType → α → BsonReader → Read (α × BsonReader)}
    {absorb : α → Entry → α} (h : Absorbs mem room element absorb) (new : List UInt8 → α)
    (key : List UInt8) (els : Elements) :
    ReadsAs mem (room + 1) key (parseDocuments mem new element) els
      ((documentsIn els).map fun x => x.2.entries.foldl absorb (new x.1)) := by
  have hbody : Absorbs mem (room + 1) (fun e found r =>
      if e ≠ elementDoc then
        pure (found, r)
      else do
        let p ← inSubdocument mem (forEachElement mem element (new r.key)) r
        pure (found ++ [p.1], p.2))
      (fun found (e : Entry) => found ++ (e.2.document?.map fun body =>
        body.entries.foldl absorb (new e.1)).toList) := by
    intro last outer r it hfaces hroom found
    by_cases hdoc : it.type = elementDoc
    · obtain ⟨body, hsub⟩ := eq_doc hdoc
      obtain ⟨r', hrun, hfront⟩ := hfaces.inSubdocument hsub (h.readsAs it.key (new it.key) body) hroom
      refine ⟨r', ?_, hfront⟩
      have hkey : (r.onto it).key = it.key := rfl
      dsimp only
      rw [if_neg (not_not_intro hdoc), hkey, hrun, hsub]
      rfl
    · have hnone : it.entry.2.document? = none := by
        cases hv : it.entry.2 with
        | leaf v => rfl
        | sub kind body =>
            cases kind with
            | doc => exact absurd (by rw [Item.type, hv]; rfl) hdoc
            | array => rfl
      refine ⟨r.onto it, ?_, hfaces.onto⟩
      dsimp only
      rw [if_pos hdoc, hnone, Option.map_none, Option.toList_none, List.append_nil]
      rfl
  have hfold : ∀ (entries : List Entry) (found : List α),
      entries.foldl (fun found (e : Entry) => found ++ (e.2.document?.map fun body =>
        body.entries.foldl absorb (new e.1)).toList) found
      = found ++ (entries.filterMap fun e => e.2.document?.map fun body =>
        body.entries.foldl absorb (new e.1)) := by
    intro entries
    induction entries with
    | nil => simp
    | cons e entries ih =>
        intro found
        rw [List.foldl_cons, ih, List.append_assoc, List.filterMap_cons]
        cases e.2.document? <;> rfl
  have hdocuments : (documentsIn els).map (fun x => x.2.entries.foldl absorb (new x.1))
      = els.entries.filterMap fun e => e.2.document?.map fun body =>
        body.entries.foldl absorb (new e.1) := by
    rw [documentsIn, List.map_filterMap]
    refine List.filterMap_congr fun e _ => ?_
    obtain ⟨key, v⟩ := e
    cases v with
    | leaf v => rfl
    | sub kind body => cases kind <;> rfl
  intro pre post outer r hloc hr hroom hkey
  have hread := hbody.readsAs key [] els hloc hr hroom hkey
  rw [hfold, List.nil_append, ← hdocuments] at hread
  exact hread

end

/-! ### Values -/

section Values

variable {mem : List UInt8} {last : ℕ} {outer : List DocState} {r : BsonReader} {it : Item}

/-- The text of a string. -/
theorem Faces.textHere {s : List UInt8} (h : Faces mem last outer r it)
    (hv : it.entry.2 = .leaf (.string s)) : textHere mem (r.onto it) = .ok s := by
  obtain ⟨pre, post, hloc, hpre⟩ := h.located
  obtain ⟨start, key, v⟩ := it
  obtain rfl : v = .leaf (.string s) := hv
  obtain ⟨hsize, hcount, hbytes⟩ := hloc.string
  rw [hpre] at hsize hbytes
  have hview : (r.onto ⟨start, key, .leaf (.string s)⟩).stringValue mem
      = .ok ⟨(start + key.length + 2 + 4 : ℕ), s.length⟩ := by
    rw [BsonReader.stringValue]
    show (i32At mem (start + key.length + 2 : ℕ) >>= fun byteSize => _) = _
    rw [hsize, ok_bind, hcount]
    rfl
  rw [DeviceInfo.textHere, hview, ok_bind]
  exact hbytes

/-- The bytes of a document. -/
theorem Faces.documentHere {kind : Kind} {els : Elements} (h : Faces mem last outer r it)
    (hv : it.entry.2 = .sub kind els) :
    documentHere mem (r.onto it) = .ok (some (document els.bytes)) := by
  obtain ⟨pre, post, hloc, hpre⟩ := h.located
  obtain ⟨need, helem⟩ := h.element
  rw [show it.entry = (it.key, .sub kind els) from Prod.ext rfl hv] at hloc
  have hcontainer : it.type.isContainer = true := by
    rw [Item.type, hv]
    cases kind <;> rfl
  have hvalue : pre.length + it.key.length + 2 = it.value := by
    rw [hpre]
    rfl
  have hbytes : it.entry.2.bytes = document els.bytes := by
    rw [hv]
    rfl
  have hbehind : it.behind = it.value + (document els.bytes).length := by
    rw [Item.behind, Item.value, Entry.length_bytes, hbytes]
    omega
  have hsize : i32At mem it.value = .ok ((document els.bytes).length : ℤ) := by
    have hstored := h.stored
    rw [hbehind, Nat.add_sub_cancel_left, helem.storedSize_of_container hcontainer] at hstored
    rw [helem.i32At_of_container hcontainer, hstored]
  have hlt : (document els.bytes).length < 2147483648 := by
    have hsmall := hloc.value.2.2
    have hbytes' : (Value.sub kind els).bytes = document els.bytes := rfl
    dsimp only at hsmall
    rw [hbytes'] at hsmall
    omega
  have hdocument := hloc.document.bytes
  rw [hvalue] at hdocument
  have hspan : (r.onto it).subdocument mem = .ok (some ⟨it.value, (document els.bytes).length⟩) := by
    have hcur : (r.onto it).curType.isContainer = true := hcontainer
    rw [subdocument, if_pos hcur]
    show (i32At mem it.value >>= fun size => _) = _
    rw [hsize, ok_bind, toSizeT_natCast hlt]
    rfl
  rw [DeviceInfo.documentHere, hspan, ok_bind]
  dsimp only
  rw [hdocument]
  rfl

/-- A 32-bit integer. -/
theorem Faces.int32Value {n : BitVec 32} (h : Faces mem last outer r it)
    (hv : it.entry.2 = .leaf (.i32 n)) : (r.onto it).int32Value mem = .ok n.toInt := by
  obtain ⟨pre, post, hloc, hpre⟩ := h.located
  obtain ⟨start, key, v⟩ := it
  obtain rfl : v = .leaf (.i32 n) := hv
  have hread := i32At_located hloc
  rw [hpre] at hread
  exact hread

/-- A boolean. -/
theorem Faces.boolValue {b : Bool} (h : Faces mem last outer r it)
    (hv : it.entry.2 = .leaf (.bool b)) : (r.onto it).boolValue mem = .ok b := by
  obtain ⟨pre, post, hloc, hpre⟩ := h.located
  obtain ⟨start, key, v⟩ := it
  obtain rfl : v = .leaf (.bool b) := hv
  obtain ⟨hmem, hlength, -⟩ := hloc.value
  obtain ⟨x, hx, hb⟩ : ∃ x : UInt8, (Value.leaf (.bool b)).bytes = [x] ∧ decide (x = 1) = b := by
    cases b
    · exact ⟨0, rfl, rfl⟩
    · exact ⟨1, rfl, rfl⟩
  have hread := byteAt_append (pre ++ header (Value.leaf (.bool b)).typeByte key) x post
  dsimp only at hmem hlength
  rw [hx, List.append_assoc _ [x], List.singleton_append] at hmem
  rw [← hmem, hlength, hpre] at hread
  rw [BsonReader.boolValue]
  show (byteAt mem (start + key.length + 2 : ℕ) >>= fun b => _) = _
  rw [hread, ok_bind, ← hb]
  rfl

end Values

end ScApi
