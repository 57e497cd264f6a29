import ScApi.BsonSeeking
import ScApi.SimData

/-!
# What parsed sim data holds

The loop of `parseFromRaw` meets the elements of a document one after another, in any order. An element
with the name of a section adds the documents in it, the ones with the names of the active session and
of the active sim set a view of their text, and everything else is passed over. What the result holds is
compared with what is stored under these names, so it does not depend on the order.

## Main results

* `collect_items`: what an inner loop finds among the elements of a section.
* `parseLoop_items`: what the loop makes of the elements of a document.
* `numericId_eq`: which keys are the numbers of participants and tires.
* `parseFromRaw_yields`: what the parsed data of a document with distinct keys holds.
-/

open Bytes BoundedRead Bson

namespace ScApi

open ElementType BsonReader

/-! ### What the elements add -/

namespace Item

/-- The elements of a document, if the element is one. -/
def subItems (it : Item) : List Item :=
  match it.entry.2 with
  | .sub .doc body => itemsAt (it.value + 4) body.entries
  | _ => []

/-- What an element of a section adds: a document with an id. -/
def subSections {ι : Type} (idOf : List UInt8 → Option ι) (it : Item) : List (SubSection ι) :=
  match idOf it.key with
  | none => []
  | some id => if it.type = elementDoc then [⟨id, it.value⟩] else []

/-- What an element of the document adds to the section with a name. -/
def sectionOf {ι : Type} (name : List UInt8) (idOf : List UInt8 → Option ι) (it : Item) :
    List (SubSection ι) :=
  if it.key = name then it.subItems.flatMap (subSections idOf) else []

/-- The document under a name. -/
def documentOf (name : List UInt8) (it : Item) : Option ℤ :=
  if it.key = name ∧ it.type = elementDoc then some it.value else none

/-- The text under a name. -/
def textOf (name : List UInt8) (it : Item) : Option Span :=
  match it.entry.2 with
  | .leaf (.string s) => if it.key = name then some ⟨it.value + 4, s.length⟩ else none
  | _ => none

end Item

/-- The number that a key of four hexadecimal digits is. -/
def hexNumber : List UInt8 → Option ℤ
  | [a, b, c, d] => do
      let a ← hexDigit a
      let b ← hexDigit b
      let c ← hexDigit c
      let d ← hexDigit d
      pure (a * 4096 + b * 256 + c * 16 + d)
  | _ => none

/-- The variables of `parseFromRaw` after an element. -/
def ParseState.absorb (p : ParseState) (it : Item) : ParseState where
  raw := { p.raw with
    vehicles := p.raw.vehicles ++ it.sectionOf (ascii "vehicles") some
    sessions := p.raw.sessions ++ it.sectionOf (ascii "sessions") some
    tracks := p.raw.tracks ++ it.sectionOf (ascii "tracks") some
    participants := p.raw.participants ++ it.sectionOf (ascii "participants") hexNumber
    tires := p.raw.tires ++ it.sectionOf (ascii "tires") hexNumber
    participantRawBson := (it.documentOf (ascii "participants")).or p.raw.participantRawBson
    vehiclesRawBson := (it.documentOf (ascii "vehicles")).or p.raw.vehiclesRawBson
    tiresRawBson := (it.documentOf (ascii "tires")).or p.raw.tiresRawBson }
  simDataPtr := (it.documentOf (ascii "sim")).or p.simDataPtr
  activeSession := (it.textOf (ascii "active_session")).getD p.activeSession
  activeSim := (it.textOf (ascii "active_sim")).getD p.activeSim

/-! ### Numeric keys -/

theorem hexDigit_nonneg {c : UInt8} {d : ℤ} (h : hexDigit c = some d) : 0 ≤ d := by
  rw [hexDigit] at h
  split_ifs at h <;> (obtain rfl := Option.some.inj h; omega)

theorem hexNumber_nonneg {key : List UInt8} {n : ℤ} (h : hexNumber key = some n) : 0 ≤ n := by
  rw [hexNumber.eq_def] at h
  split at h
  · simp only [Option.bind_eq_bind, Option.bind_eq_some_iff, Option.pure_def,
      Option.some.injEq] at h
    obtain ⟨a, ha, b, hb, c, hc, d, hd, rfl⟩ := h
    have := hexDigit_nonneg ha
    have := hexDigit_nonneg hb
    have := hexDigit_nonneg hc
    have := hexDigit_nonneg hd
    omega
  · cases h

/-- **The keys that are numbers**: the digits are added up from the left. -/
theorem convertStringNumericKey_eq (key : List UInt8) :
    convertStringNumericKey key = (hexNumber key).getD (-1) := by
  rw [convertStringNumericKey]
  rcases key with _ | ⟨a, _ | ⟨b, _ | ⟨c, _ | ⟨d, _ | ⟨e, rest⟩⟩⟩⟩⟩
  case cons.cons.cons.cons.nil =>
    rw [if_neg (by simp), hexNumber]
    simp only [List.foldlM_cons, List.foldlM_nil, Option.bind_eq_bind, Option.pure_def]
    cases hexDigit a <;> cases hexDigit b <;> cases hexDigit c <;> cases hexDigit d <;> first
      | rfl
      | (simp only [Option.map_some, Option.bind_some, Option.getD_some]; ring)
  all_goals exact if_pos (by simp)

/-- **The ids of participants and tires.** -/
theorem numericId_eq (r : BsonReader) : numericId r = hexNumber r.key := by
  rw [numericId, convertStringNumericKey_eq]
  cases h : hexNumber r.key with
  | none => rfl
  | some n =>
      have := hexNumber_nonneg h
      rw [Option.getD_some, if_neg (by omega)]

/-! ### The loops -/

section Loops

variable {ι : Type} {mem : List UInt8} {r : BsonReader} {last start : ℕ} {items : List Item}
  {it : Item} {idOf : BsonReader → Option ι} {f : List UInt8 → Option ι}

/-- What an inner loop adds for an element that `next` has read. -/
theorem newSection_onto (hid : ∀ r, idOf r = f r.key) (r : BsonReader) (it : Item) :
    newSection idOf it.type (r.onto it) = it.subSections f := by
  rw [newSection, hid, Item.subSections]
  rfl

/-- **What an inner loop finds** among the elements of a section. -/
theorem collect_items (hid : ∀ r, idOf r = f r.key) {n : ℕ} (hr : Before mem r start)
    (h : ItemsFrom mem last start items) (hend : r.curDocEnd = (last + 1 : ℕ))
    (hn : items.length + 2 ≤ n) (found : List (SubSection ι)) :
    ∃ r', collect mem idOf n found r = .ok (found ++ items.flatMap (Item.subSections f), r') ∧
      Inside mem r' ∧ r'.curDocEnd = (last + 1 : ℕ) ∧ r'.docLayers = r.docLayers := by
  obtain ⟨n, rfl⟩ := Nat.exists_eq_add_of_le' (show 2 ≤ n by omega)
  induction items generalizing r start n found with
  | nil =>
      have hnext := hr.next_last h
      have hstop : (r.atDocEnd last).atEnd = true := rfl
      have hnew : newSection idOf elementEnd (r.atDocEnd last) = [] := by
        rw [newSection]
        cases idOf (r.atDocEnd last) <;> rfl
      refine ⟨_, ?_, hr.inside.next hnext, hend, rfl⟩
      rw [collect, hr.not_atEnd, if_neg (by simp), hnext, ok_bind]
      dsimp only
      rw [collect, hstop, if_pos rfl, hnew, List.flatMap_nil, pure_eq_ok]
  | cons it items ih =>
      obtain ⟨hnext, hafter⟩ := hr.next_onto h hend
      obtain ⟨rfl, -, -, -, -, hrest⟩ := h
      rw [List.length_cons] at hn
      obtain ⟨m, rfl⟩ := Nat.exists_eq_succ_of_ne_zero (show n ≠ 0 by omega)
      obtain ⟨r', hrun, hin, hend', hlayers⟩ :=
        ih hafter hrest hend (found ++ it.subSections f) m (by omega)
      refine ⟨r', ?_, hin, hend', hlayers⟩
      rw [collect, hr.not_atEnd, if_neg (by simp), hnext, ok_bind]
      dsimp only
      rw [newSection_onto hid, hrun, List.flatMap_cons, List.append_assoc]

/-- An element of a document in which the reader is before it. -/
structure Meets (mem : List UInt8) (last : ℕ) (r : BsonReader) (it : Item) : Prop where
  before : Before mem r it.start
  docEnd : r.curDocEnd = (last + 1 : ℕ)
  layers : r.docLayers = []
  behind : it.start < it.behind
  element : ∃ need, ElementAt mem (last + 1 : ℕ) it.start it.type it.key it.value need
  stored : storedSize mem it.value it.type = .ok (it.behind - it.value : ℕ)
  located : ∃ pre post, Located mem pre post [it.entry] ∧ pre.length = it.start

/-- The reader behind the element. -/
structure Leaves (mem : List UInt8) (last : ℕ) (it : Item) (r : BsonReader) : Prop where
  before : Before mem r it.behind
  docEnd : r.curDocEnd = (last + 1 : ℕ)
  layers : r.docLayers = []

/-- The reader on the element, when nothing is done with it. -/
theorem Meets.leaves (h : Meets mem last r it) : Leaves mem last it (r.onto it) := by
  have helem := h.element
  rw [← h.docEnd] at helem
  exact ⟨h.before.onto helem h.stored, h.docEnd, h.layers⟩

/-- The elements of the document that an element is. -/
theorem Meets.subItems {body : Elements} (h : Meets mem last r it)
    (hsub : it.entry.2 = .sub .doc body) :
    (it.value : ℤ) + 4 < 2147483648 ∧
      ItemsFrom mem (it.behind - 1) (it.value + 4) (itemsAt (it.value + 4) body.entries) := by
  obtain ⟨pre, post, hloc, hpre⟩ := h.located
  obtain ⟨start, key, v⟩ := it
  obtain rfl : v = .sub .doc body := hsub
  obtain ⟨pre', hlength, hbody⟩ := hloc.sub
  have hitems := itemsFrom_itemsAt hbody
  have hvalue : pre'.length = (Item.mk start (key, .sub .doc body)).value + 4 := by
    rw [hlength, hpre, Item.value]
  have hbytes : (Value.sub .doc body).bytes = document body.bytes := rfl
  have hlast : pre'.length + (body.entries.flatMap Entry.bytes).length
      = (Item.mk start (key, .sub .doc body)).behind - 1 := by
    rw [hlength, hpre, Item.behind, Entry.length_bytes, Elements.flatMap_entries, hbytes,
      length_document]
    dsimp only
    omega
  rw [hlast, hvalue] at hitems
  have hsmall := hbody.small
  exact ⟨by omega, hitems⟩

/-- **What a section adds**, with the `beginSub` and the `endSub` around its loop. -/
theorem sections_items (hid : ∀ r, idOf r = f r.key) (h : Meets mem last r it)
    (hdoc : it.type = elementDoc) (found : List (SubSection ι)) :
    ∃ r', sections mem idOf found (r.onto it)
        = .ok (found ++ it.subItems.flatMap (Item.subSections f), r') ∧ Leaves mem last it r' := by
  obtain ⟨body, hsub⟩ := eq_doc hdoc
  obtain ⟨hsmall, hfrom⟩ := h.subItems hsub
  obtain ⟨need, helem⟩ := h.element
  rw [← h.docEnd] at helem
  have hcontainer : it.type.isContainer = true := by rw [hdoc]; rfl
  obtain ⟨hbegin, hbefore⟩ := h.before.beginSub helem hcontainer (by rw [h.layers]; decide)
  have hneed : need = ((it.behind - it.value : ℕ) : ℤ) :=
    Except.ok.inj ((helem.storedSize_of_container hcontainer).symm.trans h.stored)
  have hwrap : wrap32 ((it.value : ℤ) + 4) = (it.value + 4 : ℕ) := by
    rw [wrap32_of_range (by omega) hsmall]
    rfl
  rw [hwrap] at hbefore
  have hlength := hfrom.length_le
  have hle := it.value_le_behind
  have hend : ((r.atElement it.start it.type it.key it.value).inSub need).curDocEnd
      = (it.behind - 1 + 1 : ℕ) := by
    show (it.value : ℤ) + need = _
    omega
  obtain ⟨r', hrun, hin, hend', hlayers⟩ := collect_items hid
    (n := (it.behind - 1 + 1) + 2) hbefore hfrom hend (by omega) found
  obtain ⟨-, hlayers', hend'', hback⟩ := Before.endSub hin (hlayers.trans rfl)
  have hbehind : ((it.behind - 1 + 1 : ℕ) : ℤ) = it.behind := by omega
  rw [hend', hbehind] at hback
  have hsubItems : it.subItems = itemsAt (it.value + 4) body.entries := by
    rw [Item.subItems, hsub]
  refine ⟨r'.endSub.2, ?_, hback, hend''.trans h.docEnd, hlayers'.trans h.layers⟩
  rw [sections, BsonReader.onto, hbegin, ok_bind]
  dsimp only
  rw [hend, Int.toNat_natCast, hrun, hsubItems]
  rfl

/-- The view of a text. -/
theorem Meets.stringValue {s : List UInt8} (h : Meets mem last r it)
    (hstring : it.entry.2 = .leaf (.string s)) :
    (r.onto it).stringValue mem = .ok ⟨it.value + 4, s.length⟩ := by
  obtain ⟨pre, post, hloc, hpre⟩ := h.located
  obtain ⟨start, key, v⟩ := it
  obtain rfl : v = .leaf (.string s) := hstring
  obtain ⟨hsize, hcount, -⟩ := hloc.string
  rw [hpre] at hsize
  rw [BsonReader.stringValue]
  show (i32At mem (start + key.length + 2 : ℕ) >>= fun byteSize => _) = _
  rw [hsize, ok_bind, hcount]
  rfl

/-- **What the loop does with an element.** -/
theorem parseElement_item (h : Meets mem last r it) (p : ParseState) :
    ∃ r', parseElement mem it.type p (r.onto it) = .ok (p.absorb it, r') ∧ Leaves mem last it r' := by
  have hkey : (r.onto it).key = it.key := rfl
  rw [parseElement, hkey]
  by_cases hdoc : it.type = elementDoc
  · have hspan : ∃ size, (r.onto it).subdocument mem = .ok (some ⟨it.value, size⟩) := by
      have hcontainer : (r.onto it).curType.isContainer = true := by
        show it.type.isContainer = true
        rw [hdoc]
        rfl
      obtain ⟨need, helem⟩ := h.element
      refine ⟨toSizeT need, ?_⟩
      rw [subdocument, if_pos hcontainer]
      show (i32At mem it.value >>= fun size => _) = _
      rw [helem.i32At_of_container hcontainer, ok_bind]
      rfl
    obtain ⟨size, hspan⟩ := hspan
    have htext : ∀ name, it.textOf name = none := by
      obtain ⟨body, hsub⟩ := eq_doc hdoc
      intro name
      rw [Item.textOf, hsub]
    rw [if_pos hdoc, hspan]
    simp only [ok_bind, Option.map_some]
    have hkeyed := fun found =>
      sections_items (f := some) (show ∀ r, keyId r = some r.key from fun _ => rfl) h hdoc found
    have hnumbered := fun found => sections_items numericId_eq h hdoc found
    split_ifs with hvehicles hparticipants hsessions htracks htires hsim
    · obtain ⟨r', hrun, hleaves⟩ := hkeyed p.raw.vehicles
      refine ⟨r', ?_, hleaves⟩
      rw [hrun]
      simp +decide [ParseState.absorb, Item.sectionOf, Item.documentOf, hvehicles, hdoc, htext,
        ok_bind, pure_eq_ok]
    · obtain ⟨r', hrun, hleaves⟩ := hnumbered p.raw.participants
      refine ⟨r', ?_, hleaves⟩
      rw [hrun]
      simp +decide [ParseState.absorb, Item.sectionOf, Item.documentOf, hparticipants, hdoc, htext,
        ok_bind, pure_eq_ok]
    · obtain ⟨r', hrun, hleaves⟩ := hkeyed p.raw.sessions
      refine ⟨r', ?_, hleaves⟩
      rw [hrun]
      simp +decide [ParseState.absorb, Item.sectionOf, Item.documentOf, hsessions, htext, ok_bind,
        pure_eq_ok]
    · obtain ⟨r', hrun, hleaves⟩ := hkeyed p.raw.tracks
      refine ⟨r', ?_, hleaves⟩
      rw [hrun]
      simp +decide [ParseState.absorb, Item.sectionOf, Item.documentOf, htracks, htext, ok_bind,
        pure_eq_ok]
    · obtain ⟨r', hrun, hleaves⟩ := hnumbered p.raw.tires
      refine ⟨r', ?_, hleaves⟩
      rw [hrun]
      simp +decide [ParseState.absorb, Item.sectionOf, Item.documentOf, htires, hdoc, htext, ok_bind,
        pure_eq_ok]
    · refine ⟨r.onto it, ?_, h.leaves⟩
      simp +decide [ParseState.absorb, Item.sectionOf, Item.documentOf, hsim, hdoc, htext, pure_eq_ok]
    · refine ⟨r.onto it, ?_, h.leaves⟩
      simp [ParseState.absorb, Item.sectionOf, Item.documentOf, *, pure_eq_ok]
  · -- what is not a document adds no sections
    have hsection : ∀ {κ : Type} name (idOf : List UInt8 → Option κ), it.sectionOf name idOf = [] := by
      intro κ name idOf
      have hsub : it.subItems = [] := by
        rw [Item.subItems]
        split
        · rename_i body hsub
          refine absurd ?_ hdoc
          rw [Item.type, hsub]
          rfl
        · rfl
      rw [Item.sectionOf, hsub, List.flatMap_nil, ite_self]
    have hdocument : ∀ name, it.documentOf name = none := fun name => if_neg fun hand => hdoc hand.2
    rw [if_neg hdoc]
    by_cases hstr : it.type = elementStr
    · obtain ⟨s, hstring⟩ := eq_string hstr
      rw [if_pos hstr, h.stringValue hstring]
      refine ⟨r.onto it, ?_, h.leaves⟩
      split_ifs with hsession hsim
      · simp +decide [ParseState.absorb, hsection, hdocument, Item.textOf, hstring, hsession, ok_bind,
          pure_eq_ok]
      · simp +decide [ParseState.absorb, hsection, hdocument, Item.textOf, hstring, hsim, ok_bind,
          pure_eq_ok]
      · simp [ParseState.absorb, Item.textOf, *, pure_eq_ok]
    · have htext : ∀ name, it.textOf name = none := by
        intro name
        rw [Item.textOf]
        split
        · rename_i s hstring
          refine absurd ?_ hstr
          rw [Item.type, hstring]
          rfl
        · rfl
      rw [if_neg hstr]
      refine ⟨r.onto it, ?_, h.leaves⟩
      simp [ParseState.absorb, hsection, hdocument, htext, pure_eq_ok]

/-- An element of a document with the reader in front of it. -/
theorem meets_item {c : Container mem} {front back : List Item} (hr : Before mem r it.start)
    (hend : r.curDocEnd = (c.last + 1 : ℕ)) (hlayers : r.docLayers = [])
    (hitems : c.items = front ++ it :: back) : Meets mem c.last r it := by
  obtain ⟨-, hlt, helem, hstored, -, -⟩ := itemsFrom_split hitems
  exact ⟨hr, hend, hlayers, hlt, helem, hstored, located_item c.located hitems⟩

/-- **What the loop makes of the elements of a document.** -/
theorem parseLoop_items {c : Container mem} {front back : List Item} (hr : Before mem r start)
    (hend : r.curDocEnd = (c.last + 1 : ℕ)) (hlayers : r.docLayers = [])
    (hitems : c.items = front ++ back) (hfrom : ItemsFrom mem c.last start back) (p : ParseState) :
    parseLoop mem (back.length + 1) p r = .ok (back.foldl ParseState.absorb p) := by
  induction back generalizing r start front p with
  | nil =>
      rw [List.length_nil, parseLoop, hr.next_last hfrom]
      rfl
  | cons it back ih =>
      obtain ⟨hnext, -⟩ := hr.next_onto hfrom hend
      have hpos := hfrom.pos_type it List.mem_cons_self
      obtain ⟨rfl, -, -, -, -, hrest⟩ := hfrom
      have hmeets := meets_item hr hend hlayers hitems
      obtain ⟨r', hrun, hleaves⟩ := parseElement_item hmeets p
      have hne : it.type ≠ elementEnd := by
        intro heq
        rw [heq] at hpos
        exact absurd hpos (by decide)
      have hitems' : c.items = (front ++ [it]) ++ back := by
        rw [hitems, List.append_assoc, List.singleton_append]
      rw [List.length_cons, parseLoop, hnext, ok_bind]
      dsimp only
      rw [if_neg hne, hrun]
      exact ih hleaves.before hleaves.docEnd hleaves.layers hitems' hrest (p.absorb it)

end Loops

/-! ### What is stored under a name -/

/-- The documents among the elements, with their keys. -/
def documentsIn (body : Elements) : List (List UInt8 × Elements) :=
  body.entries.filterMap fun e =>
    match e.2 with
    | .sub .doc b => some (e.1, b)
    | _ => none

/-- The documents in the section with a name. -/
def sectionIn (entries : List Entry) (name : List UInt8) : List (List UInt8 × Elements) :=
  match entries.lookup name with
  | some (.sub .doc body) => documentsIn body
  | _ => []

/-- The documents whose keys are numbers. -/
def numbered (documents : List (List UInt8 × Elements)) : List (ℤ × Elements) :=
  documents.filterMap fun x => (hexNumber x.1).map fun id => (id, x.2)

/-- The document that a value is. -/
def documentIn : Option Value → Option Elements
  | some (.sub .doc body) => some body
  | _ => none

/-- The string under a name. -/
def stringIn (entries : List Entry) (name : List UInt8) : Option (List UInt8) :=
  (entries.lookup name).bind Value.string?

/-- The id and the document of the sim: both are there, and the id is not empty. -/
def simIn (entries : List Entry) : Option (List UInt8 × Elements) :=
  match documentIn (entries.lookup (ascii "sim")), stringIn entries (ascii "active_sim") with
  | some body, some s => if s = [] then none else some (s, body)
  | _, _ => none

/-- A section holds the document with an id. -/
structure SubSection.Holds {ι : Type} (mem : List UInt8) (s : SubSection ι) (x : ι × Elements) :
    Prop where
  id : s.id = x.1
  document : IsDocument mem s.bsonPtr x.2

section Names

variable {ι : Type} {mem pre post : List UInt8} {entries : List Entry} {name : List UInt8} {v : Value}
  {start : ℕ} {f : List UInt8 → Option ι}

/-- With distinct keys, one element has the name. -/
theorem items_of_lookup (start : ℕ) (hkeys : (entries.map Prod.fst).Nodup)
    (hv : entries.lookup name = some v) :
    ∃ front it back, itemsAt start entries = front ++ it :: back ∧ it.entry = (name, v) ∧
      ∀ it' ∈ front ++ back, it'.key ≠ name := by
  induction entries generalizing start with
  | nil => cases hv
  | cons e entries ih =>
      obtain ⟨hnew, hrest⟩ := List.nodup_cons.mp hkeys
      rw [List.lookup_cons] at hv
      by_cases hkey : name = e.1
      · subst hkey
        rw [beq_self_eq_true] at hv
        obtain rfl := Option.some.inj hv
        refine ⟨[], ⟨start, e⟩, _, rfl, rfl, fun it' hmem heq => hnew ?_⟩
        rw [List.nil_append] at hmem
        rw [← heq, ← map_key_itemsAt (start + (Entry.bytes e).length)]
        exact List.mem_map_of_mem hmem
      · rw [beq_eq_false_iff_ne.mpr hkey] at hv
        obtain ⟨front, it, back, hitems, hentry, hother⟩ := ih _ hrest hv
        refine ⟨⟨start, e⟩ :: front, it, back, ?_, hentry, ?_⟩
        · rw [itemsAt, hitems, List.cons_append]
        · rintro it' (_ | ⟨_, hmem⟩)
          · exact fun heq => hkey heq.symm
          · exact hother it' hmem

theorem key_ne_of_lookup (hv : entries.lookup name = none) :
    ∀ it ∈ itemsAt start entries, it.key ≠ name := by
  intro it hmem heq
  have hkey : it.key ∈ entries.map Prod.fst := by
    rw [← map_key_itemsAt start]
    exact List.mem_map_of_mem hmem
  obtain ⟨e, he, hfst⟩ := List.mem_map.mp hkey
  have hne := List.lookup_eq_none_iff.mp hv e he
  rw [hfst, heq] at hne
  simp at hne

/-- What is added up over the elements. -/
theorem foldl_absorb_append {α : Type} (get : ParseState → List α) {add : Item → List α}
    (h : ∀ p it, get (p.absorb it) = get p ++ add it) (items : List Item) (p : ParseState) :
    get (items.foldl ParseState.absorb p) = get p ++ items.flatMap add := by
  induction items generalizing p with
  | nil => simp
  | cons it items ih => rw [List.foldl_cons, ih, h, List.flatMap_cons, List.append_assoc]

/-- What no element changes. -/
theorem foldl_absorb_none {α : Type} {get : ParseState → α} {set : Item → Option α}
    (h : ∀ p it, get (p.absorb it) = (set it).getD (get p)) {items : List Item}
    (hnone : ∀ it ∈ items, set it = none) (p : ParseState) :
    get (items.foldl ParseState.absorb p) = get p := by
  induction items generalizing p with
  | nil => rfl
  | cons it items ih =>
      rw [List.foldl_cons, ih (fun it' hmem => hnone it' (List.mem_cons_of_mem _ hmem)), h,
        hnone it List.mem_cons_self, Option.getD_none]

/-- What one element changes. -/
theorem foldl_absorb_one {α : Type} {get : ParseState → α} {set : Item → Option α}
    (h : ∀ p it, get (p.absorb it) = (set it).getD (get p)) {front back : List Item} {it : Item}
    (hnone : ∀ it' ∈ front ++ back, set it' = none) (p : ParseState) :
    get ((front ++ it :: back).foldl ParseState.absorb p) = (set it).getD (get p) := by
  rw [List.foldl_append, List.foldl_cons,
    foldl_absorb_none h (fun it' hmem => hnone it' (List.mem_append_right _ hmem)), h,
    foldl_absorb_none h (fun it' hmem => hnone it' (List.mem_append_left _ hmem))]

/-- **The documents in a section** are held in order. -/
theorem holds_subSections {body : Elements} (h : Located mem pre post body.entries) :
    List.Forall₂ (SubSection.Holds mem) ((itemsAt pre.length body.entries).flatMap (Item.subSections f))
      ((documentsIn body).filterMap fun x => (f x.1).map fun id => (id, x.2)) := by
  rw [documentsIn]
  generalize body.entries = entries at h
  induction entries generalizing pre with
  | nil => exact .nil
  | cons e entries ih =>
      have htail := ih h.tail
      rw [List.length_append] at htail
      rw [itemsAt, List.flatMap_cons, List.filterMap_cons]
      obtain ⟨key, v⟩ := e
      by_cases hdoc : ElementType.ofByte v.typeByte = elementDoc
      · obtain ⟨b, rfl⟩ := eq_doc hdoc
        have hkey : (Item.mk pre.length (key, .sub .doc b)).key = key := rfl
        rw [Item.subSections, hkey]
        dsimp only
        rw [List.filterMap_cons]
        dsimp only
        cases f key with
        | none => exact htail
        | some id =>
            have hone : (if (Item.mk pre.length (key, .sub .doc b)).type = elementDoc then
                [(⟨id, (Item.mk pre.length (key, .sub .doc b)).value⟩ : SubSection ι)] else [])
                = [⟨id, (Item.mk pre.length (key, .sub .doc b)).value⟩] := if_pos rfl
            dsimp only
            rw [hone, List.singleton_append]
            exact .cons ⟨rfl, h.head.document⟩ htail
      · have hnew : Item.subSections f ⟨pre.length, (key, v)⟩ = [] := by
          rw [Item.subSections]
          split
          · rfl
          · exact if_neg hdoc
        rw [hnew, List.nil_append]
        cases v with
        | leaf v => exact htail
        | sub kind b =>
            cases kind with
            | doc => exact absurd rfl hdoc
            | array => exact htail

/-- **A section of a document with distinct keys.** -/
theorem holds_sectionOf (name : List UInt8) (f : List UInt8 → Option ι) (h : Located mem pre post entries)
    (hkeys : (entries.map Prod.fst).Nodup) :
    List.Forall₂ (SubSection.Holds mem) ((itemsAt pre.length entries).flatMap (Item.sectionOf name f))
      ((sectionIn entries name).filterMap fun x => (f x.1).map fun id => (id, x.2)) := by
  have hother : ∀ it : Item, it.key ≠ name → it.sectionOf name f = [] := fun it hne => if_neg hne
  rw [sectionIn]
  cases hv : entries.lookup name with
  | none =>
      have hnone : (itemsAt pre.length entries).flatMap (Item.sectionOf name f) = [] :=
        List.flatMap_eq_nil_iff.mpr fun it hmem => hother it (key_ne_of_lookup hv it hmem)
      rw [hnone]
      exact .nil
  | some v =>
      obtain ⟨front, it, back, hitems, hentry, hne⟩ := items_of_lookup pre.length hkeys hv
      have hfront : front.flatMap (Item.sectionOf name f) = [] :=
        List.flatMap_eq_nil_iff.mpr fun it' hmem => hother it' (hne it' (List.mem_append_left _ hmem))
      have hback : back.flatMap (Item.sectionOf name f) = [] :=
        List.flatMap_eq_nil_iff.mpr fun it' hmem => hother it' (hne it' (List.mem_append_right _ hmem))
      have hkey : it.key = name := congrArg Prod.fst hentry
      rw [hitems, List.flatMap_append, List.flatMap_cons, hfront, hback, List.nil_append,
        List.append_nil, Item.sectionOf, if_pos hkey, Item.subItems, hentry]
      cases v with
      | leaf v => exact .nil
      | sub kind body =>
          cases kind with
          | array => exact .nil
          | doc =>
              obtain ⟨pre', post', hloc, hpre⟩ := located_item h hitems
              rw [hentry] at hloc
              obtain ⟨pre'', hlength, hbody⟩ := hloc.sub
              have hvalue : it.value + 4 = pre''.length := by
                rw [hlength, hpre, Item.value, hentry]
              rw [hvalue]
              exact holds_subSections hbody

/-- A value that one element sets. -/
theorem rel_foldl_absorb {α β : Type} {get : ParseState → α} {set : Item → Option α} {R : α → β → Prop}
    {p : ParseState} {g : Option Value → β} (h : ∀ p it, get (p.absorb it) = (set it).getD (get p))
    (hother : ∀ it, it.key ≠ name → set it = none) (hnone : R (get p) (g none))
    (hthis : ∀ it v pre post, it.entry = (name, v) → Located mem pre post [(name, v)] →
      pre.length = it.start → R ((set it).getD (get p)) (g (some v)))
    (hloc : Located mem pre post entries) (hkeys : (entries.map Prod.fst).Nodup) :
    R (get ((itemsAt pre.length entries).foldl ParseState.absorb p)) (g (entries.lookup name)) := by
  cases hv : entries.lookup name with
  | none =>
      rw [foldl_absorb_none h fun it hmem => hother it (key_ne_of_lookup hv it hmem)]
      exact hnone
  | some v =>
      obtain ⟨front, it, back, hitems, hentry, hne⟩ := items_of_lookup pre.length hkeys hv
      obtain ⟨pre', post', hone, hpre⟩ := located_item hloc hitems
      rw [hitems, foldl_absorb_one h fun it' hmem => hother it' (hne it' hmem)]
      rw [hentry] at hone
      exact hthis it v pre' post' hentry hone hpre

end Names

/-! ### The result -/

/-- A view of a text. -/
def Span.Shows (mem : List UInt8) (view : Span) (s : List UInt8) : Prop :=
  bytesAt mem view.offset view.length = .ok s ∧ view.length = s.length

/-- A view of a text, or an empty one if there is none. -/
def Span.ShowsAny (mem : List UInt8) (view : Span) : Option (List UInt8) → Prop
  | some s => view.Shows mem s
  | none => view = ⟨0, 0⟩

/-- `SimData::getCurrentSession`; the null pointer is `none`. -/
def RawData.getCurrentSession (raw : RawData) : Option (SubSection (List UInt8)) :=
  if 0 ≤ raw.activeSessionIdx ∧ raw.activeSessionIdx < raw.sessions.length then
    raw.sessions[raw.activeSessionIdx.toNat]?
  else
    none

/-- A document of sim data with distinct keys. -/
structure SimDataDocument (entries : List Entry) : Prop where
  clean : ∀ e ∈ entries, 0 ∉ e.1 ∧ e.2.CleanKeys
  size : (document (entries.flatMap Entry.bytes)).length < 2147483648
  keys : (entries.map Prod.fst).Nodup

/-- **The parsed data holds what is stored under the names.** -/
structure RawData.Yields (mem : List UInt8) (entries : List Entry) (raw : RawData) : Prop where
  vehicles : List.Forall₂ (SubSection.Holds mem) raw.vehicles (sectionIn entries (ascii "vehicles"))
  sessions : List.Forall₂ (SubSection.Holds mem) raw.sessions (sectionIn entries (ascii "sessions"))
  tracks : List.Forall₂ (SubSection.Holds mem) raw.tracks (sectionIn entries (ascii "tracks"))
  participants : List.Forall₂ (SubSection.Holds mem) raw.participants
    (numbered (sectionIn entries (ascii "participants")))
  tires : List.Forall₂ (SubSection.Holds mem) raw.tires
    (numbered (sectionIn entries (ascii "tires")))
  currentSession : ∀ s, stringIn entries (ascii "active_session") = some s →
    raw.getCurrentSession = raw.sessions.find? fun x => s = x.id
  sim : Option.Rel (fun s x => Span.Shows mem s.id x.1 ∧ IsDocument mem s.bsonPtr x.2) raw.sim
    (simIn entries)

section Result

variable {mem pre post : List UInt8} {entries entries' : List Entry} {s : List UInt8} {view : Span}

theorem viewEq_eq (h : Span.Shows mem view s) (id : List UInt8) :
    viewEq mem id view = .ok (decide (s = id)) := by
  rw [viewEq]
  split_ifs with hlen
  · rw [h.1, ok_bind, pure_eq_ok]
    exact congrArg Except.ok (decide_eq_decide.mpr eq_comm)
  · have hne : s ≠ id := by
      rintro rfl
      exact hlen h.2.symm
    rw [decide_eq_false hne, pure_eq_ok]

/-- **The active session** is the first one with the id. -/
theorem findActive_eq (h : Span.Shows mem view s) (sessions : List (SubSection (List UInt8)))
    (idx : ℤ) :
    ∃ i, findActive mem view idx sessions = .ok i ∧
      ((i = -1 ∧ sessions.find? (fun x => s = x.id) = none) ∨
        ∃ n : ℕ, i = idx + n ∧ n < sessions.length ∧
          sessions.find? (fun x => s = x.id) = sessions[n]?) := by
  induction sessions generalizing idx with
  | nil => exact ⟨-1, rfl, .inl ⟨rfl, rfl⟩⟩
  | cons x rest ih =>
      rw [findActive, viewEq_eq h, ok_bind, List.find?_cons]
      by_cases hid : s = x.id
      · rw [decide_eq_true hid]
        refine ⟨idx, rfl, .inr ⟨0, by simp, by simp, ?_⟩⟩
        simp
      · rw [decide_eq_false hid]
        obtain ⟨i, hrun, hfound⟩ := ih (idx + 1)
        refine ⟨i, hrun, hfound.imp_right ?_⟩
        rintro ⟨n, rfl, hn, hfind⟩
        exact ⟨n + 1, by push_cast; ring, by simpa using hn, by simpa using hfind⟩

/-- The text that an element sets. -/
theorem showsAny_textOf {name : List UInt8} (get : ParseState → Span) {p : ParseState}
    (h : ∀ (p : ParseState) (it : Item), get (p.absorb it) = (it.textOf name).getD (get p)) (hempty : get p = ⟨0, 0⟩)
    (hloc : Located mem pre post entries) (hkeys : (entries.map Prod.fst).Nodup) :
    (get ((itemsAt pre.length entries).foldl ParseState.absorb p)).ShowsAny mem
      (stringIn entries name) := by
  refine rel_foldl_absorb (R := Span.ShowsAny mem) (g := fun o => o.bind Value.string?) h ?_ hempty ?_ hloc hkeys
  · intro it hne
    rw [Item.textOf]
    split
    · exact if_neg hne
    · rfl
  · rintro ⟨start, key, v'⟩ v pre post hentry hone hpre
    obtain ⟨rfl, rfl⟩ := Prod.mk.inj hentry
    rw [Item.textOf]
    dsimp only
    split
    · rename_i s
      have htext := hone.string.2.2
      rw [hpre] at htext
      rw [if_pos (show (Item.mk start (key, .leaf (.string s))).key = key from rfl)]
      exact ⟨htext, rfl⟩
    · rename_i hother
      have hnone : v'.string? = none := by
        cases v' with
        | leaf l => cases l <;> first | rfl | exact absurd rfl (hother _)
        | sub kind body => rfl
      rw [Option.getD_none, Option.bind_some, hnone]
      exact hempty

/-- The document that an element sets. -/
theorem rel_documentOf {name : List UInt8} (get : ParseState → Option ℤ) {p : ParseState}
    (h : ∀ (p : ParseState) (it : Item), get (p.absorb it) = (it.documentOf name).or (get p)) (hnone : get p = none)
    (hloc : Located mem pre post entries) (hkeys : (entries.map Prod.fst).Nodup) :
    Option.Rel (IsDocument mem) (get ((itemsAt pre.length entries).foldl ParseState.absorb p))
      (documentIn (entries.lookup name)) := by
  have hset : ∀ p it, get (ParseState.absorb p it)
      = ((it.documentOf name).map some).getD (get p) := by
    intro p it
    rw [h]
    cases it.documentOf name <;> rfl
  refine rel_foldl_absorb (R := Option.Rel (IsDocument mem)) (g := documentIn) hset ?_ ?_ ?_ hloc
    hkeys
  · intro it hne
    rw [Item.documentOf, if_neg fun hand => hne hand.1]
    rfl
  · rw [hnone]
    exact .none
  · rintro ⟨start, key, v'⟩ v pre post hentry hone hpre
    obtain ⟨rfl, rfl⟩ := Prod.mk.inj hentry
    rw [hnone, Item.documentOf]
    by_cases hdoc : ElementType.ofByte v'.typeByte = elementDoc
    · obtain ⟨body, rfl⟩ := eq_doc hdoc
      have hbytes := hone.document
      rw [hpre] at hbytes
      rw [if_pos ⟨rfl, hdoc⟩]
      exact .some hbytes
    · have hother : documentIn (some v') = none := by
        cases v' with
        | leaf l => rfl
        | sub kind body =>
            cases kind with
            | doc => exact absurd rfl hdoc
            | array => rfl
      rw [if_neg fun hand => hdoc hand.2, hother]
      exact .none

/-- The reader at the beginning of a document. -/
theorem ofBuffer_document {body : List UInt8} (h : (document body).length < 2147483648)
    (tail : List UInt8) :
    ofBuffer (some (document body ++ tail))
      = .ok (accepted (document body).length (document body).length) := by
  rw [ofBuffer, getTotalDocumentSize_document h tail, ok_bind, toSizeT_natCast h, length_document,
    if_neg (by omega), pure_eq_ok]

/-- What the loop has found, and what follows behind it. -/
theorem finishParse_yields (h : SimDataDocument entries) (hloc : Located mem pre post entries) :
    ∃ raw, finishParse mem ((itemsAt pre.length entries).foldl ParseState.absorb
        { raw := { rawBson := mem } }) = .ok raw ∧ raw.Yields mem entries := by
  have hkeyed : ∀ l : List (List UInt8 × Elements),
      (l.filterMap fun x => (some x.1).map fun id => (id, x.2)) = l := fun l => by
    simp
  have hvehicles := holds_sectionOf (ascii "vehicles") some hloc h.keys
  have hsessions := holds_sectionOf (ascii "sessions") some hloc h.keys
  have htracks := holds_sectionOf (ascii "tracks") some hloc h.keys
  have hparticipants := holds_sectionOf (ascii "participants") hexNumber hloc h.keys
  have htires := holds_sectionOf (ascii "tires") hexNumber hloc h.keys
  rw [hkeyed] at hvehicles hsessions htracks
  obtain ⟨p, hp⟩ : ∃ p : ParseState, p = { raw := { rawBson := mem } } := ⟨_, rfl⟩
  have hsession := showsAny_textOf (p := p) ParseState.activeSession (fun _ _ => rfl)
    (by rw [hp]) hloc h.keys
  have hactiveSim := showsAny_textOf (p := p) ParseState.activeSim (fun _ _ => rfl) (by rw [hp])
    hloc h.keys
  have hsim := rel_documentOf (p := p) ParseState.simDataPtr (fun _ _ => rfl) (by rw [hp]) hloc h.keys
  have hlists : ∀ {α : Type} (get : ParseState → List α) (add : Item → List α), get p = [] →
      (∀ p it, get (ParseState.absorb p it) = get p ++ add it) →
      get ((itemsAt pre.length entries).foldl ParseState.absorb p)
        = (itemsAt pre.length entries).flatMap add := by
    intro α get add hnil hadd
    rw [foldl_absorb_append get hadd, hnil, List.nil_append]
  have h₁ := hlists (fun p => p.raw.vehicles) _ (by rw [hp]) fun _ _ => rfl
  have h₂ := hlists (fun p => p.raw.sessions) _ (by rw [hp]) fun _ _ => rfl
  have h₃ := hlists (fun p => p.raw.tracks) _ (by rw [hp]) fun _ _ => rfl
  have h₄ := hlists (fun p => p.raw.participants) _ (by rw [hp]) fun _ _ => rfl
  have h₅ := hlists (fun p => p.raw.tires) _ (by rw [hp]) fun _ _ => rfl
  rw [← h₁] at hvehicles
  rw [← h₂] at hsessions
  rw [← h₃] at htracks
  rw [← h₄] at hparticipants
  rw [← h₅] at htires
  rw [← hp]
  generalize (itemsAt pre.length entries).foldl ParseState.absorb p = q at *
  have hshows : q.activeSession.Shows mem ((stringIn entries (ascii "active_session")).getD []) := by
    cases hs : stringIn entries (ascii "active_session") with
    | some s =>
        rw [hs] at hsession
        exact hsession
    | none =>
        rw [hs] at hsession
        have hempty : q.activeSession = ⟨0, 0⟩ := hsession
        rw [hempty]
        exact ⟨bytesAt_eq_ok_iff.mpr ⟨le_rfl, by simp, by simp⟩, rfl⟩
  obtain ⟨i, hrun, hfound⟩ := findActive_eq hshows q.raw.sessions 0
  rw [finishParse, hrun, ok_bind, pure_eq_ok]
  refine ⟨_, rfl, hvehicles, hsessions, htracks, hparticipants, htires, ?_, ?_⟩
  · intro s hs
    rw [hs, Option.getD_some] at hfound
    rw [RawData.getCurrentSession]
    dsimp only
    rcases hfound with ⟨rfl, hnone⟩ | ⟨n, rfl, hn, hfind⟩
    · rw [if_neg (by omega), hnone]
    · rw [if_pos (by omega), hfind, zero_add, Int.toNat_natCast]
  · rw [simIn]
    dsimp only
    generalize documentIn (entries.lookup (ascii "sim")) = document? at hsim ⊢
    generalize stringIn entries (ascii "active_sim") = string? at hactiveSim ⊢
    generalize q.simDataPtr = ptr at hsim ⊢
    cases hsim with
    | none => exact .none
    | some hdocument =>
        cases string? with
        | none =>
            have hempty : q.activeSim = ⟨0, 0⟩ := hactiveSim
            dsimp only
            rw [if_pos (by rw [hempty])]
            exact .none
        | some text =>
            have hshows : q.activeSim.Shows mem text := hactiveSim
            dsimp only
            by_cases hempty : text = []
            · rw [if_pos hempty, if_pos (by rw [hshows.2, hempty, List.length_nil])]
              exact .none
            · have hlength : q.activeSim.length ≠ 0 := by
                rw [hshows.2]
                exact fun hzero => hempty (List.length_eq_zero_iff.mp hzero)
              rw [if_neg hempty, if_neg hlength]
              exact .some ⟨hshows, hdocument⟩

/-- What the parsed data of a document holds. -/
theorem parseFromRaw_document (h : SimDataDocument entries) (tail : List UInt8) (revision : ℕ) :
    ∃ fuel raw, parseFromRaw (some (document (entries.flatMap Entry.bytes) ++ tail)) revision fuel
        = .ok (some raw) ∧ raw.Yields (document (entries.flatMap Entry.bytes) ++ tail) entries := by
  obtain ⟨c, hc⟩ : ∃ c, c = documentContainer entries tail h.clean h.size := ⟨_, rfl⟩
  have henters : Enters c (accepted (document (entries.flatMap Entry.bytes)).length
      (document (entries.flatMap Entry.bytes)).length) := by
    rw [hc]
    exact enters_document h.clean h.size _
  have hbefore := henters.inside.before henters.type
  rw [henters.offset] at hbefore
  have hloop := parseLoop_items hbefore henters.docEnd rfl (List.nil_append _).symm
    (itemsFrom_container c) { raw := { rawBson := document (entries.flatMap Entry.bytes) ++ tail } }
  have hitems : c.items = itemsAt c.pre.length entries := by
    rw [hc]
    rfl
  have hloc := c.located
  have hentries : c.entries = entries := by rw [hc]; rfl
  rw [hentries] at hloc
  obtain ⟨raw, hfinish, hyields⟩ := finishParse_yields h hloc
  rw [← hitems] at hfinish
  refine ⟨c.items.length + 1, raw, ?_, hyields⟩
  rw [parseFromRaw, ofBuffer_document h.size, ok_bind, hloop, ok_bind, hfinish, ok_bind, pure_eq_ok]

theorem length_document_perm (hperm : entries'.Perm entries) :
    (document (entries'.flatMap Entry.bytes)).length
      = (document (entries.flatMap Entry.bytes)).length := by
  rw [length_document, length_document, (hperm.flatMap_right Entry.bytes).length_eq]

/-- A document in another order. -/
theorem SimDataDocument.perm (h : SimDataDocument entries) (hperm : entries'.Perm entries) :
    SimDataDocument entries' where
  clean := fun e he => h.clean e (hperm.mem_iff.mp he)
  size := (length_document_perm hperm).trans_lt h.size
  keys := ((hperm.map Prod.fst).nodup_iff).mpr h.keys

/-- **What the parsed data of a document holds**, in every order of its elements. -/
theorem parseFromRaw_yields (h : SimDataDocument entries) (hperm : entries'.Perm entries)
    (tail : List UInt8) (revision : ℕ) :
    ∃ fuel raw, parseFromRaw (some (document (entries'.flatMap Entry.bytes) ++ tail)) revision fuel
        = .ok (some raw) ∧ raw.Yields (document (entries'.flatMap Entry.bytes) ++ tail) entries := by
  obtain ⟨fuel, raw, hrun, hyields⟩ := parseFromRaw_document (h.perm hperm) tail revision
  refine ⟨fuel, raw, hrun, ?_⟩
  have hlookup := lookup_perm h.keys hperm
  have hsection : ∀ name, sectionIn entries' name = sectionIn entries name := fun name => by
    rw [sectionIn, sectionIn, hlookup]
  have hstring : ∀ name, stringIn entries' name = stringIn entries name := fun name => by
    rw [stringIn, stringIn, hlookup]
  have hsim : simIn entries' = simIn entries := by rw [simIn, simIn, hlookup, hstring]
  obtain ⟨hvehicles, hsessions, htracks, hparticipants, htires, hsession, hfound⟩ := hyields
  rw [hsection] at hvehicles hsessions htracks hparticipants htires
  rw [hstring] at hsession
  rw [hsim] at hfound
  exact ⟨hvehicles, hsessions, htracks, hparticipants, htires, hsession, hfound⟩

end Result

/-- An active session in front of the sessions, and participants of which one has no number. -/
def simDataEntries : List Entry :=
  [(ascii "active_session", .leaf (.string [98])),
    (ascii "participants", .sub .doc (.sub .doc (ascii "00Ff") .nil (.sub .doc [97] .nil .nil))),
    (ascii "sessions", .sub .doc (.sub .doc [97] .nil (.sub .doc [98] .nil .nil)))]

theorem simDataDocument_entries : SimDataDocument simDataEntries where
  clean := by
    rintro e (_ | ⟨_, _ | ⟨_, _ | ⟨_, ⟨⟩⟩⟩⟩)
    · exact ⟨by decide, trivial⟩
    · exact ⟨by decide, by decide, trivial, by decide, trivial, trivial⟩
    · exact ⟨by decide, by decide, trivial, by decide, trivial, trivial⟩
  size := by decide +kernel
  keys := by decide +kernel

example : numbered (sectionIn simDataEntries (ascii "participants")) = [(255, .nil)] := by
  decide +kernel

theorem parseFromRaw_yields_reversed :
    ∃ fuel raw,
      parseFromRaw (some (document (simDataEntries.reverse.flatMap Entry.bytes) ++ [])) 0 fuel
        = .ok (some raw) ∧
      raw.Yields (document (simDataEntries.reverse.flatMap Entry.bytes) ++ []) simDataEntries :=
  parseFromRaw_yields simDataDocument_entries (List.reverse_perm _) [] 0

end ScApi
