import ScApi.ResponseBytes

/-!
# Searching in a document

A reader in a document is before the first element, on an element, or at the end. A search calls `next`
until it has found something, and goes back to where it was when there is nothing to find: it seeks to
the offset of the element that it was on, with the index that it had there, and reads the element again.

The offset is that of the element read last. Before the first element of a document this is not a
position in the document, or not the position that the reader was at. And reading the element again
counts it again, so in an array the index is one too high afterwards.

## Main results

* `search_items`: what a search from some position finds, and the reader that it leaves.
* `InContainer.seek_on`, `InContainer.seek_last`: where `seek` goes in a container.
-/

open Bytes BoundedRead Bson

namespace ScApi

open ElementType BsonReader

/-! ### The elements of a container -/

/-- An element and the offset at which it starts. -/
structure Item where
  start : ℕ
  entry : Entry
  deriving DecidableEq, Repr

namespace Item

/-- The type that the reader reports. -/
def type (it : Item) : ElementType :=
  ElementType.ofByte it.entry.2.typeByte

/-- The key of the element. -/
def key (it : Item) : List UInt8 :=
  it.entry.1

/-- Where the value begins. -/
def value (it : Item) : ℕ :=
  it.start + it.entry.1.length + 2

/-- Where the next element starts. -/
def behind (it : Item) : ℕ :=
  it.start + (Entry.bytes it.entry).length

theorem value_le_behind (it : Item) : it.value ≤ it.behind := by
  rw [value, behind, Entry.length_bytes]
  omega

end Item

/-- The elements from an offset on. -/
def itemsAt : ℕ → List Entry → List Item
  | _, [] => []
  | start, e :: entries => ⟨start, e⟩ :: itemsAt (start + (Entry.bytes e).length) entries

theorem map_key_itemsAt (start : ℕ) (entries : List Entry) :
    (itemsAt start entries).map Item.key = entries.map Prod.fst := by
  induction entries generalizing start with
  | nil => rfl
  | cons e entries ih => rw [itemsAt, List.map_cons, List.map_cons, ih, Item.key]

theorem itemsAt_append (start : ℕ) (front back : List Entry) :
    itemsAt start (front ++ back)
      = itemsAt start front ++ itemsAt (start + (front.flatMap Entry.bytes).length) back := by
  induction front generalizing start with
  | nil => rfl
  | cons e front ih =>
      rw [List.cons_append, itemsAt, itemsAt, ih, List.cons_append, List.flatMap_cons,
        List.length_append, Nat.add_assoc]

/-- **A document or an array in memory**: its elements behind the bytes up to its size, and the byte
that ends it. -/
structure Container (mem : List UInt8) where
  kind : Kind
  pre : List UInt8
  entries : List Entry
  post : List UInt8
  located : Located mem pre (0 :: post) entries

namespace Container

variable {mem : List UInt8} (c : Container mem)

/-- The offset of the first element. -/
def first : ℕ :=
  c.pre.length

/-- The offset of the byte that ends the container. -/
def last : ℕ :=
  c.pre.length + (c.entries.flatMap Entry.bytes).length

/-- The elements with their offsets. -/
def items : List Item :=
  itemsAt c.first c.entries

theorem first_le_last : c.first ≤ c.last :=
  Nat.le_add_right _ _

end Container

/-- The elements from `start` on are those of a container that ends at `last`. -/
def ItemsFrom (mem : List UInt8) (last : ℕ) : ℕ → List Item → Prop
  | start, [] => start = last ∧ byteAt mem last = .ok 0
  | start, it :: items => it.start = start ∧ it.start < it.behind ∧
      (∃ need, ElementAt mem (last + 1 : ℕ) it.start it.type it.key it.value need) ∧
      storedSize mem it.value it.type = .ok (it.behind - it.value : ℕ) ∧ it.value ≤ it.behind ∧
      ItemsFrom mem last it.behind items

theorem itemsFrom_itemsAt {mem pre post : List UInt8} {entries : List Entry}
    (h : Located mem pre (0 :: post) entries) :
    ItemsFrom mem (pre.length + (entries.flatMap Entry.bytes).length) pre.length
      (itemsAt pre.length entries) := by
  induction entries generalizing pre with
  | nil => exact ⟨rfl, h.atEnd⟩
  | cons e entries ih =>
      have hlength : (List.flatMap Entry.bytes (e :: entries)).length
          = (Entry.bytes e).length + (entries.flatMap Entry.bytes).length := by
        rw [List.flatMap_cons, List.length_append]
      have hentry := Entry.length_bytes e
      have hlt : ((pre.length + (Entry.bytes e).length : ℕ) : ℤ)
          < (pre.length + (List.flatMap Entry.bytes (e :: entries)).length + 1 : ℕ) := by omega
      obtain ⟨helem, hstored⟩ := h.head.elementAt hlt
      have hrest := ih h.tail
      rw [List.length_append, Nat.add_assoc, ← hlength] at hrest
      have hsize : pre.length + (Entry.bytes e).length - (pre.length + e.1.length + 2)
          = e.2.bytes.length := by
        omega
      refine ⟨rfl, ?_, helem, ?_, ?_, hrest⟩
      · show pre.length < pre.length + (Entry.bytes e).length
        omega
      · show storedSize mem (pre.length + e.1.length + 2 : ℕ) _
          = .ok ((pre.length + (Entry.bytes e).length - (pre.length + e.1.length + 2) : ℕ) : ℤ)
        rw [hsize]
        exact hstored
      · show pre.length + e.1.length + 2 ≤ pre.length + (Entry.bytes e).length
        omega

section

variable {mem : List UInt8} {last start : ℕ} {items : List Item} {it : Item}

theorem itemsFrom_append {front : List Item} (h : ItemsFrom mem last start (front ++ items)) :
    ∃ start', start ≤ start' ∧ (∀ it ∈ front, it.start < start') ∧ ItemsFrom mem last start' items := by
  induction front generalizing start with
  | nil => exact ⟨start, le_rfl, by simp, h⟩
  | cons it front ih =>
      obtain ⟨rfl, hlt, -, -, -, hrest⟩ := h
      obtain ⟨start', hle, hfront, h'⟩ := ih hrest
      refine ⟨start', by omega, ?_, h'⟩
      rintro it' (_ | ⟨_, hmem⟩)
      · omega
      · exact hfront it' hmem

/-- The elements lie in front of the end, each behind the ones before. -/
theorem ItemsFrom.length_le (h : ItemsFrom mem last start items) : start + items.length ≤ last := by
  induction items generalizing start with
  | nil => exact h.1.le
  | cons it items ih =>
      obtain ⟨rfl, hlt, -, -, -, hrest⟩ := h
      have := ih hrest
      rw [List.length_cons]
      omega

theorem ItemsFrom.start_le (h : ItemsFrom mem last start items) :
    ∀ it ∈ items, start ≤ it.start ∧ it.start < last := by
  induction items generalizing start with
  | nil => simp
  | cons it items ih =>
      obtain ⟨rfl, hlt, -, -, -, hrest⟩ := h
      have hle := hrest.length_le
      rintro it' (_ | ⟨_, hmem⟩)
      · omega
      · have := ih hrest it' hmem
        omega

theorem ItemsFrom.pos_type (h : ItemsFrom mem last start items) :
    ∀ it ∈ items, 0 < it.type.value := by
  induction items generalizing start with
  | nil => simp
  | cons it items ih =>
      obtain ⟨-, -, ⟨need, helem⟩, -, -, hrest⟩ := h
      rintro it' (_ | ⟨_, hmem⟩)
      · exact helem.pos
      · exact ih hrest it' hmem

end

/-! ### Where a reader stands -/

namespace BsonReader

/-- The reader after `next` has read an element. -/
def onto (r : BsonReader) (it : Item) : BsonReader :=
  r.atElement it.start it.type it.key it.value

/-- The reader is on an element. -/
structure On (r : BsonReader) (it : Item) : Prop where
  type : r.curType = it.type
  key : r.key = it.key
  start : r.elementStartOffset = it.start
  value : r.bufOffset = it.value

/-- The places in a container: before the first element, on an element, and at the end. -/
inductive Place {mem : List UInt8} (c : Container mem) (r : BsonReader) : Prop
  | before (htype : r.curType = elementInternalDocBegin) (hoff : r.bufOffset = c.first)
  | on {front back : List Item} {it : Item} (hitems : c.items = front ++ it :: back) (hon : r.On it)
  | atEnd (htype : r.curType = elementEnd) (hstart : r.elementStartOffset = c.last)
      (hoff : r.bufOffset = wrap32 (c.last + 1))
      (hkey : ∀ it ∈ c.items.getLast?, r.key = it.key)

/-- The index is not counted in a document, and is counted in an array. -/
def IndexFits : Kind → ℤ → Prop
  | .doc, a => a = -2
  | .array, a => a ≠ -2 ∧ -2147483648 ≤ a ∧ a < 2147483648

/-- The document of the reader is the container. -/
structure InContainer {mem : List UInt8} (c : Container mem) (r : BsonReader) : Prop where
  inside : Inside mem r
  docBegin : r.curDocBegin = c.first
  docEnd : r.curDocEnd = (c.last + 1 : ℕ)

/-- **The reader stands in a container**: its document is the container, it is at one of the places,
its index is counted in an array and in no document, and the offset of the element read last is that of
an element of the container, or lies in front of it. -/
structure Stands {mem : List UInt8} (c : Container mem) (r : BsonReader) : Prop extends
    InContainer c r where
  index : IndexFits c.kind r.arrIndex
  offset : r.elementStartOffset < c.first ∨ (∃ it ∈ c.items, r.elementStartOffset = it.start) ∨
    r.elementStartOffset = c.last
  place : Place c r

/-- The readers are in the same document. -/
structure SameDoc (r r' : BsonReader) : Prop where
  layers : r'.docLayers = r.docLayers
  size : r'.size = r.size
  docBegin : r'.curDocBegin = r.curDocBegin
  docEnd : r'.curDocEnd = r.curDocEnd

theorem SameDoc.trans {r r' r'' : BsonReader} (h : SameDoc r r') (h' : SameDoc r' r'') :
    SameDoc r r'' :=
  ⟨h'.layers.trans h.layers, h'.size.trans h.size, h'.docBegin.trans h.docBegin,
    h'.docEnd.trans h.docEnd⟩

/-! ### One step -/

section Items

variable {mem : List UInt8} {last start : ℕ} {items : List Item} {it : Item} {r : BsonReader}

/-- Behind an element, when nothing is done with it. -/
theorem Before.onto (hr : Before mem r it.start)
    (helem : ∃ need, ElementAt mem r.curDocEnd it.start it.type it.key it.value need)
    (hstored : storedSize mem it.value it.type = .ok (it.behind - it.value : ℕ)) :
    Before mem (r.onto it) it.behind := by
  obtain ⟨need, helem⟩ := helem
  have hafter := hr.atElement helem hstored
  have hbehind : (it.value : ℤ) + (it.behind - it.value : ℕ) = it.behind := by
    have := it.value_le_behind
    omega
  rwa [hbehind] at hafter

/-- **`next` reads the first of the elements.** -/
theorem Before.next_onto (hr : Before mem r start) (h : ItemsFrom mem last start (it :: items))
    (hend : r.curDocEnd = (last + 1 : ℕ)) :
    r.next mem = .ok (it.type, r.onto it) ∧ Before mem (r.onto it) it.behind := by
  obtain ⟨rfl, -, ⟨need, helem⟩, hstored, -, -⟩ := h
  rw [← hend] at helem
  exact ⟨hr.next_element helem, hr.onto ⟨need, helem⟩ hstored⟩

/-- **`next` ends the document** behind the elements. -/
theorem Before.next_last (hr : Before mem r start) (h : ItemsFrom mem last start []) :
    r.next mem = .ok (elementEnd, r.atDocEnd last) := by
  obtain ⟨rfl, hbyte⟩ := h
  exact hr.next_end hbyte

theorem On.onto (r : BsonReader) (it : Item) : (r.onto it).On it :=
  ⟨rfl, rfl, rfl, rfl⟩

/-! ### What a search finds -/

/-- The first of some elements that a search stops at, and the reader then, or the reader on the last
of them. -/
def searchItems (found : BsonReader → Bool) : BsonReader → List Item → Option Item × BsonReader
  | r, [] => (none, r)
  | r, it :: items =>
      if found (r.onto it) then (some it, r.onto it) else searchItems found (r.onto it) items

theorem mem_of_searchItems {found : BsonReader → Bool} {r' : BsonReader}
    (h : searchItems found r items = (some it, r')) : it ∈ items := by
  induction items generalizing r with
  | nil => exact absurd h (by simp [searchItems])
  | cons it' items ih =>
      rw [searchItems] at h
      split_ifs at h with hfound
      · obtain ⟨heq, -⟩ := Prod.mk.inj h
        exact List.mem_cons.mpr (.inl (Option.some.inj heq).symm)
      · exact List.mem_cons_of_mem _ (ih h)

/-- The result of a search, before it goes back. -/
def searchResult (last : ℕ) : Option Item × BsonReader → ElementType × BsonReader
  | (some it, r) => (it.type, r)
  | (none, r) => (elementEnd, r.atDocEnd last)

/-- The loop of a search goes through the elements. -/
theorem scan_items (found : BsonReader → Bool) {n : ℕ} (hr : Before mem r start)
    (h : ItemsFrom mem last start items) (hend : r.curDocEnd = (last + 1 : ℕ))
    (hn : items.length < n) :
    (r.next mem >>= fun p => scan mem found n p.1 p.2)
      = .ok (searchResult last (searchItems found r items)) := by
  obtain ⟨n, rfl⟩ := Nat.exists_eq_succ_of_ne_zero (by omega : n ≠ 0)
  induction items generalizing r start n with
  | nil =>
      rw [hr.next_last h, ok_bind, scan, if_neg (show ¬ 0 < elementEnd.value by decide)]
      rfl
  | cons it items ih =>
      obtain ⟨hnext, hafter⟩ := hr.next_onto h hend
      have hpos := h.pos_type it List.mem_cons_self
      obtain ⟨rfl, -, -, -, -, hrest⟩ := h
      rw [hnext, ok_bind, scan, if_pos hpos, searchItems]
      dsimp only
      split_ifs with hfound
      · rfl
      · rw [List.length_cons] at hn
        obtain ⟨m, rfl⟩ := Nat.exists_eq_succ_of_ne_zero (by omega : n ≠ 0)
        exact ih hafter hrest hend m (by omega)

/-- **What a search from some position finds**, and the reader that it leaves. -/
theorem search_items (found : BsonReader → Bool) (offset : ElementOffset) (hr : Before mem r start)
    (h : ItemsFrom mem last start items) (hend : r.curDocEnd = (last + 1 : ℕ)) :
    searchFrom mem found offset r = match searchItems found r items with
      | (some it, r') => .ok (it.type, r')
      | (none, r') => (r'.atDocEnd last).seek mem offset >>= fun p => .ok (elementEnd, p.2) := by
  have hframe : ∀ p, r.next mem = .ok p → p.2.curDocEnd = (last + 1 : ℕ) := by
    rintro ⟨t, r'⟩ hp
    rw [← hend]
    rcases hr.inside.next_cases hp with ⟨-, -, rfl⟩ | ⟨_, -, -, -, hread⟩
    · rfl
    · exact hread.frame.2.1
  have hlen := h.length_le
  have hscan := scan_items found hr h hend (show items.length < last + 1 + 2 by omega)
  obtain ⟨⟨t, r₁⟩, hnext, hscan⟩ := bind_eq_ok.mp hscan
  have hfuel : r₁.curDocEnd.toNat + 2 = last + 1 + 2 := by
    rw [hframe _ hnext, Int.toNat_natCast]
  have hitem : ∀ it r', searchItems found r items = (some it, r') → it.type ≠ elementEnd := by
    intro it r' hsearch heq
    have hpos := h.pos_type it (mem_of_searchItems hsearch)
    rw [heq] at hpos
    exact absurd hpos (by decide)
  rw [searchFrom, hnext, ok_bind]
  dsimp only
  rw [hfuel, hscan, ok_bind]
  cases hsearch : searchItems found r items with
  | mk o r' =>
      cases o with
      | some it =>
          have hresult : searchResult last (some it, r') = (it.type, r') := rfl
          rw [hresult]
          dsimp only
          rw [if_neg (hitem it r' hsearch), pure_eq_ok]
      | none =>
          have hresult : searchResult last (none, r') = (elementEnd, r'.atDocEnd last) := rfl
          rw [hresult]
          dsimp only
          rw [if_pos rfl]
          rfl

/-- The reader that a search leaves on an element. -/
theorem searchItems_some {found : BsonReader → Bool} {r' : BsonReader} (hr : Before mem r start)
    (h : ItemsFrom mem last start items) (hend : r.curDocEnd = (last + 1 : ℕ))
    (hsearch : searchItems found r items = (some it, r')) :
    found r' = true ∧ Before mem r' it.behind ∧ r'.On it ∧ SameDoc r r' := by
  induction items generalizing r start with
  | nil => exact absurd hsearch (by simp [searchItems])
  | cons it' items ih =>
      obtain ⟨-, hafter⟩ := hr.next_onto h hend
      rw [searchItems] at hsearch
      split_ifs at hsearch with hfound
      · obtain ⟨heq, rfl⟩ := Prod.mk.inj hsearch
        obtain rfl := Option.some.inj heq
        exact ⟨hfound, hafter, On.onto r _, ⟨rfl, rfl, rfl, rfl⟩⟩
      · obtain ⟨hfound', hbefore, hon, hsame⟩ := ih hafter h.2.2.2.2.2 hend hsearch
        exact ⟨hfound', hbefore, hon, ⟨hsame.layers, hsame.size, hsame.docBegin, hsame.docEnd⟩⟩

/-- The reader that a search leaves behind the last element. -/
theorem searchItems_none {found : BsonReader → Bool} {r' : BsonReader} (hr : Before mem r start)
    (h : ItemsFrom mem last start items) (hend : r.curDocEnd = (last + 1 : ℕ))
    (hsearch : searchItems found r items = (none, r')) :
    Before mem r' last ∧ SameDoc r r' ∧ r'.key = items.getLast?.elim r.key Item.key := by
  induction items generalizing r start with
  | nil =>
      obtain ⟨-, rfl⟩ := Prod.mk.inj hsearch
      obtain ⟨rfl, -⟩ := h
      exact ⟨hr, ⟨rfl, rfl, rfl, rfl⟩, rfl⟩
  | cons it items ih =>
      obtain ⟨-, hafter⟩ := hr.next_onto h hend
      rw [searchItems] at hsearch
      split_ifs at hsearch with hfound
      · cases (Prod.mk.inj hsearch).1
      · obtain ⟨hbefore, hsame, hkey⟩ := ih hafter h.2.2.2.2.2 hend hsearch
        refine ⟨hbefore, ⟨hsame.layers, hsame.size, hsame.docBegin, hsame.docEnd⟩, ?_⟩
        rw [hkey]
        cases items with
        | nil => rfl
        | cons it' items =>
            rw [List.getLast?_cons_cons, List.getLast?_eq_some_getLast (List.cons_ne_nil _ _)]
            rfl

/-- **A search for a key** finds the first element with it. -/
theorem searchItems_key (key : List UInt8) (r : BsonReader) (items : List Item) :
    (searchItems (fun r => r.key = key) r items).1 = items.find? fun it => it.key = key := by
  induction items generalizing r with
  | nil => rfl
  | cons it items ih =>
      have hkey : (r.onto it).key = it.key := rfl
      rw [searchItems, List.find?_cons, hkey]
      by_cases h : it.key = key
      · simp [h]
      · simp only [h, decide_false]
        exact ih _

/-- **A search for an index** finds the element that the index is counted up to. -/
theorem searchItems_index {i : ℤ} (h0 : 0 ≤ i) (hi : i < 2147483648) (items : List Item) :
    ∀ r : BsonReader, r.arrIndex < 2147483648 →
      (searchItems (fun r => r.arrIndex = i) r items).1
        = if -1 ≤ r.arrIndex ∧ r.arrIndex < i then items[(i - r.arrIndex - 1).toNat]? else none := by
  induction items with
  | nil =>
      intro r _
      rw [List.getElem?_nil, ite_self]
      rfl
  | cons it items ih =>
      intro r hr
      have hindex : (r.onto it).arrIndex = nextArrIndex r.arrIndex := rfl
      have hwrap := wrap32_range (r.arrIndex + 1)
      have ih := ih (r.onto it) (by rw [hindex, nextArrIndex]; split_ifs <;> omega)
      rw [hindex] at ih
      rw [searchItems, hindex]
      by_cases hcount : -1 ≤ r.arrIndex
      · rw [nextArrIndex, if_pos hcount] at ih ⊢
        rcases lt_trichotomy (r.arrIndex + 1) i with hlt | heq | hgt
        · -- the index is still below `i`
          have hplus : wrap32 (r.arrIndex + 1) = r.arrIndex + 1 :=
            wrap32_of_range (by omega) (by omega)
          obtain ⟨k, hk⟩ := Int.eq_ofNat_of_zero_le (show 0 ≤ i - (r.arrIndex + 1) - 1 by omega)
          have hk' : (i - r.arrIndex - 1).toNat = k + 1 := by omega
          have hk'' : (i - (r.arrIndex + 1) - 1).toNat = k := by omega
          rw [hplus, hk'', if_pos ⟨by omega, hlt⟩] at ih
          rw [hplus, if_neg (by simpa using hlt.ne), ih, if_pos ⟨hcount, by omega⟩, hk',
            List.getElem?_cons_succ]
        · have hplus : wrap32 (r.arrIndex + 1) = i := by
            rw [heq, wrap32_of_range (by omega) hi]
          have hzero : (i - r.arrIndex - 1).toNat = 0 := by omega
          rw [hplus, if_pos (decide_eq_true rfl), if_pos ⟨hcount, by omega⟩, hzero,
            List.getElem?_cons_zero]
        · have hne : wrap32 (r.arrIndex + 1) ≠ i := by
            rw [wrap32]
            omega
          have hover : ¬ (-1 ≤ wrap32 (r.arrIndex + 1) ∧ wrap32 (r.arrIndex + 1) < i) := by
            rw [wrap32]
            omega
          rw [if_neg hover] at ih
          rw [if_neg (by simpa using hne), ih, if_neg (by omega)]
      · have hnever : ¬ (-1 ≤ r.arrIndex ∧ r.arrIndex < i) := fun h => hcount h.1
        rw [nextArrIndex, if_neg hcount] at ih ⊢
        rw [if_neg hnever] at ih ⊢
        rw [if_neg (by simp; omega), ih]

end Items

/-! ### Going back -/

section Back

variable {mem : List UInt8} {c : Container mem} {r r' : BsonReader} {it : Item}
  {front back : List Item}

theorem itemsFrom_container (c : Container mem) : ItemsFrom mem c.last c.first c.items :=
  itemsFrom_itemsAt c.located

theorem type_ne_end_of_mem (hmem : it ∈ c.items) : it.type ≠ elementEnd := by
  intro heq
  have hpos := (itemsFrom_container c).pos_type it hmem
  rw [heq] at hpos
  exact absurd hpos (by decide)

theorem On.type_pos (hon : r.On it) (hitems : c.items = front ++ it :: back) :
    0 < r.curType.value := by
  rw [hon.type]
  exact (itemsFrom_container c).pos_type it (by rw [hitems]; simp)

theorem On.type_ne_begin (hon : r.On it) (hitems : c.items = front ++ it :: back) :
    r.curType ≠ elementInternalDocBegin := by
  intro heq
  have hpos := hon.type_pos hitems
  rw [heq] at hpos
  exact absurd hpos (by decide)

theorem On.type_ne_end (hon : r.On it) (hitems : c.items = front ++ it :: back) :
    r.curType ≠ elementEnd := by
  rw [hon.type]
  exact type_ne_end_of_mem (by rw [hitems]; simp)

/-- The elements lie one behind the other. -/
theorem starts_around (hitems : c.items = front ++ it :: back) :
    (∀ it' ∈ front, it'.start < it.start) ∧ ∀ it' ∈ back, it.start < it'.start := by
  have hfrom := itemsFrom_container c
  rw [hitems] at hfrom
  obtain ⟨start', -, hfront, rfl, hlt, -, -, -, hback⟩ := itemsFrom_append hfrom
  exact ⟨hfront, fun it' hmem => hlt.trans_le (hback.start_le it' hmem).1⟩

/-- The elements from one of them on. -/
theorem itemsFrom_split (hitems : c.items = front ++ it :: back) :
    ItemsFrom mem c.last it.start (it :: back) := by
  have h := itemsFrom_container c
  rw [hitems] at h
  obtain ⟨start', -, -, h'⟩ := itemsFrom_append h
  obtain rfl : it.start = start' := h'.1
  exact h'

/-- A reader on an element is before the next one. -/
theorem InContainer.before_behind (h : InContainer c r) (hitems : c.items = front ++ it :: back)
    (hon : r.On it) : Before mem r it.behind := by
  obtain ⟨-, -, ⟨need, helem⟩, hstored, hle, hrest⟩ := itemsFrom_split hitems
  have hlen := hrest.length_le
  have hend := h.docEnd
  have hlt := h.inside.docEnd_lt
  have hbehind : (it.value : ℤ) + (it.behind - it.value : ℕ) = it.behind := by omega
  refine ⟨h.inside, ?_, ?_⟩
  · rw [hon.type]
    exact ended_of_pos helem.pos
  · have hskip := skipValue_eq (by rw [hon.value, hon.type]; exact hstored) (Int.natCast_nonneg _)
      (by rw [hon.value]; omega) (by rw [hon.value]; omega)
    rwa [hon.value, hbehind] at hskip

/-- The reader at an offset in the container. -/
def jumped (r : BsonReader) (offset : ℕ) (arrIndex : ℤ) : BsonReader :=
  { r with curType := elementInternalDocBegin, bufOffset := offset, arrIndex }

theorem InContainer.before_jumped (h : InContainer c r) {offset : ℕ} (arrIndex : ℤ)
    (h0 : c.first ≤ offset) (h1 : offset ≤ c.last) :
    Before mem (r.jumped offset arrIndex) offset ∧
      r.seek mem ⟨offset, arrIndex⟩ = (r.jumped offset arrIndex).next mem := by
  have hdocBegin := h.docBegin
  have hend := h.docEnd
  have hlo : r.curDocBegin ≤ (⟨offset, arrIndex⟩ : ElementOffset).offset := by
    dsimp only
    omega
  have hhi : (⟨offset, arrIndex⟩ : ElementOffset).offset < r.curDocEnd := by
    dsimp only
    omega
  refine ⟨(h.inside.jump hlo hhi).before rfl, ?_⟩
  rw [seek, if_pos ⟨hlo, hhi⟩]
  rfl

/-- **Seeking to an element** reads it again, and counts it again. -/
theorem InContainer.seek_on (h : InContainer c r) (hitems : c.items = front ++ it :: back)
    (arrIndex : ℤ) :
    r.seek mem ⟨it.start, arrIndex⟩ = .ok (it.type, (r.jumped it.start arrIndex).onto it) := by
  have hsplit := itemsFrom_split hitems
  obtain ⟨hlo, hhi⟩ := (itemsFrom_container c).start_le it (by rw [hitems]; simp)
  obtain ⟨hbefore, hseek⟩ := h.before_jumped arrIndex hlo hhi.le
  rw [hseek]
  exact (hbefore.next_onto hsplit h.docEnd).1

/-- Seeking to the end. -/
theorem InContainer.seek_last (h : InContainer c r) (arrIndex : ℤ) :
    r.seek mem ⟨c.last, arrIndex⟩ = .ok (elementEnd, (r.jumped c.last arrIndex).atDocEnd c.last) := by
  obtain ⟨start', -, -, hlast⟩ :=
    itemsFrom_append (show ItemsFrom mem c.last c.first (c.items ++ []) by
      rw [List.append_nil]; exact itemsFrom_container c)
  obtain ⟨hbefore, hseek⟩ := h.before_jumped arrIndex c.first_le_last le_rfl
  rw [hseek, hbefore.next_last ⟨rfl, hlast.2⟩]

/-- A reader that seeks is not before the first element any more. -/
theorem next_type_ne_begin {t : ElementType} (hr : Inside mem r)
    (h : r.next mem = .ok (t, r')) : r'.curType ≠ elementInternalDocBegin := by
  rcases hr.next_cases h with ⟨hended, -, rfl⟩ | ⟨_, -, -, -, hread⟩
  · intro heq
    rw [heq] at hended
    cases hended
  · cases hread with
    | docEnd => exact ElementType.noConfusion
    | formatError htype =>
        rw [htype]
        exact ElementType.noConfusion
    | element helem =>
        intro heq
        have htype : t = elementInternalDocBegin := heq
        have hpos := helem.pos
        rw [htype] at hpos
        exact absurd hpos (by decide)

end Back

end BsonReader

end ScApi
