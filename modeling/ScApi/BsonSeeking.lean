import ScApi.BsonPositions
import ScApi.BsonWalk

/-!
# Which searches come back

The calls that move a reader in a document lead to places in it. From each of them the searches are
compared with what they are meant for: to find the first element with a key, the first one behind the
position, or the element at an index, and else to change nothing.

## Main results

* `Reached.stands`: where the readers stand that the calls lead to.
* `seeks_right_iff`: when the searches for a key find what they should, and change nothing else.
* `seekIndex_right_iff`: when the search for an index does.
-/

open Bytes BoundedRead Bson

namespace ScApi

open ElementType

namespace BsonReader

/-! ### The places that calls lead to -/

/-- An offset of an element of the container, with an index, as `elementOffset` gives it there. -/
structure Target {mem : List UInt8} (c : Container mem) (o : ElementOffset) : Prop where
  index : IndexFits c.kind o.arrIndex
  offset : o.offset < c.first ∨ (∃ it ∈ c.items, o.offset = it.start) ∨ o.offset = c.last

section Closed

variable {mem : List UInt8} {c : Container mem} {r r' : BsonReader} {t : ElementType}

theorem Stands.target (h : Stands c r) : Target c r.elementOffset :=
  ⟨h.index, h.offset⟩

theorem nextArrIndex_eq_iff (a : ℤ) : nextArrIndex a = a ↔ ¬ -1 ≤ a := by
  rw [nextArrIndex]
  split_ifs with hcount
  · refine iff_of_false ?_ (not_not_intro hcount)
    rw [wrap32]
    omega
  · exact iff_of_true rfl hcount

/-- The index of one more element. -/
theorem IndexFits.next {kind : Kind} {a : ℤ} (h : IndexFits kind a) :
    IndexFits kind (nextArrIndex a) := by
  cases kind with
  | doc =>
      obtain rfl : a = -2 := h
      rfl
  | array =>
      obtain ⟨hne, hlo, hhi⟩ := h
      rw [nextArrIndex]
      split_ifs with hcount
      · have hwrap := wrap32_range (a + 1)
        refine ⟨?_, hwrap.1, hwrap.2⟩
        rw [wrap32]
        omega
      · exact ⟨hne, hlo, hhi⟩

theorem next_atEnd (htype : r.curType = elementEnd) : r.next mem = .ok (elementEnd, r) := by
  rw [BsonReader.next, htype]
  rfl

theorem next_type (hr : Inside mem r) (h : r.next mem = .ok (t, r')) : r'.curType = t := by
  rcases hr.next_cases h with ⟨-, rfl, rfl⟩ | ⟨_, -, -, -, hread⟩
  · rfl
  · exact hread.frame.1

/-- One element further, from in front of some of the elements. -/
theorem InContainer.next_stands (h : InContainer c r) {front back : List Item} {start : ℕ}
    (hbefore : Before mem r start) (hitems : c.items = front ++ back)
    (hfrom : ItemsFrom mem c.last start back)
    (hindex : IndexFits c.kind r.arrIndex)
    (hkey : ∀ it ∈ front.getLast?, r.key = it.key) (hnext : r.next mem = .ok (t, r')) :
    Stands c r' := by
  have hin := h.inside.next hnext
  cases back with
  | nil =>
      rw [hbefore.next_last hfrom] at hnext
      obtain ⟨rfl, rfl⟩ := Prod.mk.inj (Except.ok.inj hnext)
      rw [List.append_nil] at hitems
      exact ⟨⟨hin, h.docBegin, h.docEnd⟩, hindex, .inr (.inr rfl),
        .atEnd rfl rfl rfl (hitems ▸ hkey)⟩
  | cons it back =>
      rw [(hbefore.next_onto hfrom h.docEnd).1] at hnext
      obtain ⟨rfl, rfl⟩ := Prod.mk.inj (Except.ok.inj hnext)
      exact ⟨⟨hin, h.docBegin, h.docEnd⟩, hindex.next,
        .inr (.inl ⟨it, by rw [hitems]; simp, rfl⟩), .on hitems (On.onto r it)⟩

/-- **`next` leads from place to place.** -/
theorem Stands.next (h : Stands c r) (hnext : r.next mem = .ok (t, r')) : Stands c r' := by
  have hin := h.toInContainer
  cases h.place with
  | before htype hoff =>
      have hbefore := h.inside.before htype
      rw [hoff] at hbefore
      exact hin.next_stands hbefore (List.nil_append _).symm (itemsFrom_container c) h.index (by simp)
        hnext
  | @on front back it hitems hon =>
      refine hin.next_stands (hin.before_behind hitems hon)
        (show c.items = (front ++ [it]) ++ back by rw [hitems]; simp)
        (itemsFrom_split hitems).2.2.2.2.2 h.index ?_ hnext
      intro it' hlast
      rw [List.getLast?_concat, Option.mem_some_iff] at hlast
      rw [← hlast]
      exact hon.key
  | atEnd htype hstart hoff hkey =>
      rw [next_atEnd htype] at hnext
      obtain ⟨-, rfl⟩ := Prod.mk.inj (Except.ok.inj hnext)
      exact h

theorem Stands.seekBegin (h : Stands c r) : Stands c r.seekBegin := by
  have hindex := h.index
  refine ⟨⟨h.inside.seekBegin, h.docBegin, h.docEnd⟩, ?_, h.offset, .before rfl h.docBegin⟩
  rw [BsonReader.seekBegin]
  dsimp only
  cases hkind : c.kind with
  | doc =>
      rw [hkind] at hindex
      rw [show r.arrIndex = -2 from hindex]
      rfl
  | array =>
      rw [hkind] at hindex
      split_ifs
      · exact ⟨by decide, by decide, by decide⟩
      · exact hindex

/-- **`seek` leads to places**, from the end with the key of the last element. -/
theorem Stands.seek {o : ElementOffset} (h : Stands c r) (ho : Target c o)
    (hkey : o.offset = c.last → ∀ it ∈ c.items.getLast?, r.key = it.key)
    (hseek : r.seek mem o = .ok (t, r')) : Stands c r' := by
  obtain ⟨offset, arrIndex⟩ := o
  have hindex := ho.index
  dsimp only at hindex hkey
  rcases ho.offset with hlt | ⟨it, hmem, hstart⟩ | hlast
  · have hout : ¬ (r.curDocBegin ≤ offset ∧ offset < r.curDocEnd) := by
      rw [h.docBegin]
      exact fun hin => absurd hlt (not_lt.mpr hin.1)
    rw [BsonReader.seek, if_neg hout] at hseek
    obtain ⟨-, rfl⟩ := Prod.mk.inj (Except.ok.inj hseek)
    exact h
  · obtain ⟨front, back, hitems⟩ := List.append_of_mem hmem
    obtain rfl : offset = it.start := hstart
    obtain ⟨hlo, hhi⟩ := (itemsFrom_container c).start_le it hmem
    obtain ⟨hbefore, heq⟩ := h.before_jumped arrIndex hlo hhi.le
    rw [h.seek_on hitems] at hseek
    rw [h.seek_on hitems] at heq
    rw [hseek] at heq
    obtain ⟨-, rfl⟩ := Prod.mk.inj (Except.ok.inj hseek)
    exact ⟨⟨hbefore.inside.next heq.symm, h.docBegin, h.docEnd⟩, hindex.next,
      .inr (.inl ⟨it, hmem, rfl⟩), .on hitems (On.onto _ it)⟩
  · obtain rfl : offset = c.last := hlast
    obtain ⟨hbefore, heq⟩ := h.before_jumped arrIndex c.first_le_last le_rfl
    rw [h.seek_last] at hseek heq
    rw [hseek] at heq
    obtain ⟨-, rfl⟩ := Prod.mk.inj (Except.ok.inj hseek)
    exact ⟨⟨hbefore.inside.next heq.symm, h.docBegin, h.docEnd⟩, hindex, .inr (.inr rfl),
      .atEnd rfl rfl rfl (hkey rfl)⟩

theorem scan_type {found : BsonReader → Bool} {n : ℕ} (hr : Stands c r) (ht : r.curType = t)
    {t' : ElementType} (h : scan mem found n t r = .ok (t', r')) : r'.curType = t' := by
  induction n generalizing t r with
  | zero => cases h
  | succ n ih =>
      rw [scan] at h
      split_ifs at h
      · obtain ⟨rfl, rfl⟩ := Prod.mk.inj (Except.ok.inj h)
        exact ht
      · obtain ⟨⟨t₁, r₁⟩, hnext, h⟩ := bind_eq_ok.mp h
        exact ih (hr.next hnext) (next_type hr.inside hnext) h
      · obtain ⟨rfl, rfl⟩ := Prod.mk.inj (Except.ok.inj h)
        exact ht

/-- **Searches lead to places.** -/
theorem Stands.searchFrom {found : BsonReader → Bool} {o : ElementOffset} (h : Stands c r)
    (ho : Target c o) (hsearch : searchFrom mem found o r = .ok (t, r')) : Stands c r' := by
  obtain ⟨⟨t₁, r₁⟩, hnext, hsearch⟩ := bind_eq_ok.mp hsearch
  obtain ⟨⟨t₂, r₂⟩, hscan, hsearch⟩ := bind_eq_ok.mp hsearch
  have h₁ := h.next hnext
  have h₂ : Stands c r₂ := scan_closed (P := Stands c) Stands.next h₁ hscan
  dsimp only at hsearch
  split_ifs at hsearch with hend
  · obtain ⟨⟨t₃, r₃⟩, hseek, hsearch⟩ := bind_eq_ok.mp hsearch
    obtain ⟨-, rfl⟩ := Prod.mk.inj (Except.ok.inj hsearch)
    have htype := (scan_type h₁ (next_type h.inside hnext) hscan).trans hend
    refine h₂.seek ho (fun _ => ?_) hseek
    cases h₂.place with
    | before hbegin => exact ElementType.noConfusion (htype.symm.trans hbegin)
    | @on front back it hitems hon =>
        exact absurd htype (hon.type_ne_end hitems)
    | atEnd _ _ _ hkey => exact hkey
  · obtain ⟨-, rfl⟩ := Prod.mk.inj (Except.ok.inj hsearch)
    exact h₂

/-- A reader before the first element of a container, as a constructor and `beginSub` leave it. -/
structure Enters (c : Container mem) (r : BsonReader) : Prop extends InContainer c r where
  type : r.curType = elementInternalDocBegin
  offset : r.bufOffset = c.first
  index : r.arrIndex = if c.kind = .array then -1 else -2
  start : r.elementStartOffset < c.first

/-- **The readers that calls lead to** in a container. `seek` is given the offset of an element. -/
inductive Reached (c : Container mem) : BsonReader → Prop
  | enter {r : BsonReader} (h : Enters c r) : Reached c r
  | next {r r' : BsonReader} {t : ElementType} (h : Reached c r)
      (hnext : r.next mem = .ok (t, r')) : Reached c r'
  | seekBegin {r : BsonReader} (h : Reached c r) : Reached c r.seekBegin
  | seekKey {r r' : BsonReader} {t : ElementType} {key : List UInt8} (h : Reached c r)
      (hseek : r.seekKey mem key = .ok (t, r')) : Reached c r'
  | seekNextKey {r r' : BsonReader} {t : ElementType} {key : List UInt8} (h : Reached c r)
      (hseek : r.seekNextKey mem key = .ok (t, r')) : Reached c r'
  | seekIndex {r r' : BsonReader} {t : ElementType} {i : ℤ} (h : Reached c r)
      (hseek : r.seekIndex mem i = .ok (t, r')) : Reached c r'
  | seek {r r₀ r' : BsonReader} {t : ElementType} (h : Reached c r) (h₀ : Reached c r₀)
      (hon : 0 < r₀.curType.value) (hseek : r.seek mem r₀.elementOffset = .ok (t, r')) : Reached c r'

/-- **Where the readers stand that calls lead to.** -/
theorem Reached.stands (h : Reached c r) : Stands c r := by
  induction h with
  | enter h =>
      refine ⟨h.toInContainer, ?_, .inl h.start, .before h.type h.offset⟩
      rw [h.index]
      cases c.kind with
      | doc => rfl
      | array => exact ⟨by decide, by decide, by decide⟩
  | next _ hnext ih => exact ih.next hnext
  | seekBegin _ ih => exact ih.seekBegin
  | seekKey _ hseek ih => exact ih.seekBegin.searchFrom ih.target hseek
  | seekNextKey _ hseek ih => exact ih.searchFrom ih.target hseek
  | @seekIndex r r' t i _ hseek ih =>
      rw [BsonReader.seekIndex] at hseek
      split_ifs at hseek
      · obtain ⟨-, rfl⟩ := Prod.mk.inj (Except.ok.inj hseek)
        exact ih
      · exact ih.seekBegin.searchFrom ih.target hseek
      · exact ih.searchFrom ih.target hseek
  | @seek r r₀ r' t _ _ hon hseek ih ih₀ =>
      refine ih.seek ih₀.target (fun hlast => ?_) hseek
      cases ih₀.place with
      | before htype =>
          rw [htype] at hon
          exact absurd hon (by decide)
      | @on front back it hitems hit =>
          obtain ⟨-, hlt⟩ := (itemsFrom_container c).start_le it (by rw [hitems]; simp)
          have hstart : (it.start : ℤ) = c.last := hit.start.symm.trans hlast
          omega
      | atEnd htype =>
          rw [htype] at hon
          exact absurd hon (by decide)

end Closed

/-! ### Entering a container -/

/-- The document at the start of a memory. -/
def documentContainer (entries : List Entry) (tail : List UInt8)
    (hclean : ∀ e ∈ entries, 0 ∉ e.1 ∧ e.2.CleanKeys)
    (hlen : (document (entries.flatMap Entry.bytes)).length < 2147483648) :
    Container (document (entries.flatMap Entry.bytes) ++ tail) where
  kind := .doc
  pre := toLe 4 ((entries.flatMap Entry.bytes).length + 5)
  entries
  post := tail
  located := located_document entries tail hclean hlen

section Enter

variable {mem : List UInt8} {c : Container mem} {r r' : BsonReader} {it : Item}
  {front back : List Item}

/-- **A constructor enters a document.** -/
theorem enters_document {entries : List Entry} {tail : List UInt8}
    (hclean : ∀ e ∈ entries, 0 ∉ e.1 ∧ e.2.CleanKeys)
    (hlen : (document (entries.flatMap Entry.bytes)).length < 2147483648) (size : ℕ) :
    Enters (documentContainer entries tail hclean hlen)
      (accepted size (document (entries.flatMap Entry.bytes)).length) := by
  have hlength := length_document (entries.flatMap Entry.bytes)
  refine ⟨⟨inside_accepted (by omega) (by omega) ?_, rfl, ?_⟩, rfl, rfl, rfl, ?_⟩
  · rw [List.length_append]
    omega
  · show ((document (entries.flatMap Entry.bytes)).length : ℤ)
      = ((toLe 4 ((entries.flatMap Entry.bytes).length + 5)).length
        + (entries.flatMap Entry.bytes).length + 1 : ℕ)
    rw [length_toLe, hlength]
    omega
  · exact (by decide : (0 : ℤ) < 4)

/-- An element of a container in the memory. -/
theorem located_item {pre post : List UInt8} {entries : List Entry} (h : Located mem pre post entries)
    (hitems : itemsAt pre.length entries = front ++ it :: back) :
    ∃ pre' post', Located mem pre' post' [it.entry] ∧ pre'.length = it.start := by
  induction front generalizing pre entries with
  | nil =>
      cases entries with
      | nil => cases hitems
      | cons e entries =>
          obtain ⟨rfl, -⟩ := List.cons.inj hitems
          exact ⟨pre, _, h.head, rfl⟩
  | cons it' front ih =>
      cases entries with
      | nil => cases hitems
      | cons e entries =>
          obtain ⟨-, hrest⟩ := List.cons.inj hitems
          rw [← List.length_append] at hrest
          exact ih h.tail hrest

end Enter

/-! ### Searching for a key -/

/-- What the next calls of `next` are going to report: the types, keys, indexes and values. -/
def following (mem : List UInt8) : ℕ → BsonReader → Read (List (ElementType × List UInt8 × ℤ × ℤ))
  | 0, _ => pure []
  | n + 1, r => do
      let (t, r) ← r.next mem
      let rest ← following mem n r
      pure ((t, r.key, r.arrIndex, r.bufOffset) :: rest)

/-- Nothing that a user of the reader sees is different. -/
structure Unchanged (mem : List UInt8) (r r' : BsonReader) : Prop where
  type : r'.curType = r.curType
  key : r'.key = r.key
  index : r'.arrIndex = r.arrIndex
  following : ∀ n, following mem n r' = following mem n r

/-- A search finds the first of some elements with a key, or else changes nothing. -/
def FindsKey (mem : List UInt8) (r : BsonReader) (items : List Item) (key : List UInt8)
    (result : Read (ElementType × BsonReader)) : Prop :=
  ∃ t r', result = .ok (t, r') ∧
    match items.find? fun it => it.key = key with
    | some it => t = it.type ∧ r'.On it ∧ SameDoc r r'
    | none => t = elementEnd ∧ Unchanged mem r r'

/-- The reader is at the end, or on an element that is not counted. -/
def Restorable (r : BsonReader) : Prop :=
  r.curType = elementEnd ∨ 0 < r.curType.value ∧ ¬ -1 ≤ r.arrIndex

instance (r : BsonReader) : Decidable (Restorable r) :=
  inferInstanceAs (Decidable (_ ∨ _ ∧ _))

/-- The elements behind the position of the reader. -/
def itemsAfter {mem : List UInt8} (c : Container mem) (r : BsonReader) : List Item :=
  if r.curType = elementInternalDocBegin then c.items
  else c.items.filter fun it => r.elementStartOffset < it.start

section Keys

variable {mem : List UInt8} {c : Container mem} {r r' q : BsonReader} {t : ElementType} {it : Item}
  {front back : List Item} {key : List UInt8}

theorem Unchanged.refl (mem : List UInt8) (r : BsonReader) : Unchanged mem r r :=
  ⟨rfl, rfl, rfl, fun _ => rfl⟩

/-- **Back on an element**, it is counted once more. -/
theorem InContainer.back_on (hitems : c.items = front ++ it :: back) (hon : r.On it)
    (hsame : SameDoc r q) (hq : InContainer c q) :
    q.seek mem r.elementOffset = .ok (it.type, { r with arrIndex := nextArrIndex r.arrIndex }) := by
  have hoffset : r.elementOffset = ⟨it.start, r.arrIndex⟩ := by rw [elementOffset, hon.start]
  rw [hoffset, hq.seek_on hitems]
  have hreader : (q.jumped it.start r.arrIndex).onto it = ⟨q.docLayers, q.size, it.start, it.value,
      nextArrIndex r.arrIndex, q.curDocBegin, q.curDocEnd, it.type, it.key⟩ := rfl
  rw [hreader, hsame.layers, hsame.size, hsame.docBegin, hsame.docEnd, ← hon.start, ← hon.value,
    ← hon.type, ← hon.key]

/-- **Back at the end.** -/
theorem InContainer.back_atEnd (hstart : r.elementStartOffset = c.last)
    (htype : r.curType = elementEnd) (hoff : r.bufOffset = wrap32 (c.last + 1))
    (hsame : SameDoc r q) (hkey : q.key = r.key) (hq : InContainer c q) :
    q.seek mem r.elementOffset = .ok (elementEnd, r) := by
  have hoffset : r.elementOffset = ⟨c.last, r.arrIndex⟩ := by rw [elementOffset, hstart]
  rw [hoffset, hq.seek_last]
  have hreader : (q.jumped c.last r.arrIndex).atDocEnd c.last = ⟨q.docLayers, q.size, c.last,
      wrap32 (c.last + 1), r.arrIndex, q.curDocBegin, q.curDocEnd, elementEnd, q.key⟩ := rfl
  rw [hreader, hsame.layers, hsame.size, hsame.docBegin, hsame.docEnd, hkey, ← hstart, ← htype,
    hstart, ← hoff, ← hstart]

/-- Going back to the offset of a place succeeds. -/
theorem InContainer.exists_seek {o : ElementOffset} (h : InContainer c q) (ho : Target c o) :
    ∃ p, q.seek mem o = .ok p := by
  obtain ⟨offset, arrIndex⟩ := o
  rcases ho.offset with hlt | ⟨it, hmem, hstart⟩ | hlast
  · have hout : ¬ (q.curDocBegin ≤ offset ∧ offset < q.curDocEnd) := by
      rw [h.docBegin]
      exact fun hin => absurd hlt (not_lt.mpr hin.1)
    exact ⟨_, if_neg hout⟩
  · obtain ⟨front, back, hitems⟩ := List.append_of_mem hmem
    obtain rfl : offset = it.start := hstart
    exact ⟨_, h.seek_on hitems arrIndex⟩
  · obtain rfl : offset = c.last := hlast
    exact ⟨_, h.seek_last arrIndex⟩

/-- Where a search that finds nothing gets to: the end of the container. -/
theorem InContainer.searched {found : BsonReader → Bool} {start : ℕ} {items : List Item} {r' : BsonReader}
    (h : InContainer c r) (hbefore : Before mem r start) (hfrom : ItemsFrom mem c.last start items)
    (hresult : searchItems found r items = (none, r')) : InContainer c (r'.atDocEnd c.last) := by
  obtain ⟨hbehind, hsame, -⟩ := searchItems_none hbefore hfrom h.docEnd hresult
  have hrest : ItemsFrom mem c.last start (items ++ []) := by
    rw [List.append_nil]
    exact hfrom
  obtain ⟨start', -, -, hlast⟩ := itemsFrom_append hrest
  have hnext := hbehind.next_last ⟨rfl, hlast.2⟩
  exact ⟨hbehind.inside.next hnext, hsame.docBegin.trans h.docBegin, hsame.docEnd.trans h.docEnd⟩

/-- **When a search comes back** to where it started. -/
theorem Stands.unchanged_iff (h : Stands c r) (hq : InContainer c q) (hsame : SameDoc r q)
    (htype : q.curType = elementEnd) (hkey : r.curType = elementEnd → q.key = r.key) :
    (∃ r', (q.seek mem r.elementOffset >>= fun p => .ok (elementEnd, p.2)) = .ok (elementEnd, r') ∧
      Unchanged mem r r') ↔ Restorable r := by
  cases h.place with
  | before hbegin =>
      refine iff_of_false ?_ ?_
      · rintro ⟨r', hback, hunchanged⟩
        obtain ⟨⟨t, r₁⟩, hseek, hback⟩ := bind_eq_ok.mp hback
        obtain ⟨-, rfl⟩ := Prod.mk.inj (Except.ok.inj hback)
        have hfirst := hunchanged.type.trans hbegin
        dsimp only at hfirst
        rw [BsonReader.seek] at hseek
        split_ifs at hseek with hin
        · exact next_type_ne_begin (hq.inside.jump hin.1 hin.2) hseek hfirst
        · obtain ⟨-, rfl⟩ := Prod.mk.inj (Except.ok.inj hseek)
          exact ElementType.noConfusion (htype.symm.trans hfirst)
      · rw [Restorable, hbegin]
        exact fun hor => hor.elim ElementType.noConfusion fun hpos => absurd hpos.1 (by decide)
  | on hitems hon =>
      rw [hq.back_on hitems hon hsame, ok_bind, Restorable, or_iff_right (hon.type_ne_end hitems),
        and_iff_right (hon.type_pos hitems), ← nextArrIndex_eq_iff]
      constructor
      · rintro ⟨r', hback, hunchanged⟩
        obtain ⟨-, rfl⟩ := Prod.mk.inj (Except.ok.inj hback)
        exact hunchanged.index
      · intro heq
        rw [heq]
        exact ⟨r, rfl, Unchanged.refl mem r⟩
  | atEnd hend hstart hoff =>
      rw [hq.back_atEnd hstart hend hoff hsame (hkey hend), ok_bind]
      exact iff_of_true ⟨r, rfl, Unchanged.refl mem r⟩ (.inl hend)

/-- What a search for a key among some elements does. -/
theorem Stands.findsKey_iff {r₁ : BsonReader} {start : ℕ} {items : List Item} (h : Stands c r)
    (hin : InContainer c r₁) (hsame : SameDoc r r₁) (hbefore : Before mem r₁ start)
    (hfrom : ItemsFrom mem c.last start items)
    (hkey : r.curType = elementEnd → items.getLast?.elim r₁.key Item.key = r.key) :
    FindsKey mem r items key (BsonReader.searchFrom mem (fun r => r.key = key) r.elementOffset r₁) ↔
      (∃ it ∈ items, it.key = key) ∨ Restorable r := by
  have hsearch := search_items (fun r => r.key = key) r.elementOffset hbefore hfrom
    hin.docEnd
  have hfind := searchItems_key key r₁ items
  rw [hsearch, FindsKey, ← hfind]
  cases hresult : searchItems (fun r => r.key = key) r₁ items with
  | mk o r' =>
      rw [hresult] at hfind
      dsimp only at hfind ⊢
      cases o with
      | some it =>
          obtain ⟨-, -, hon, hsame'⟩ := searchItems_some hbefore hfrom hin.docEnd hresult
          have hmem := List.mem_of_find?_eq_some hfind.symm
          have heq := List.find?_some hfind.symm
          exact iff_of_true ⟨it.type, r', rfl, rfl, hon, hsame.trans hsame'⟩
            (.inl ⟨it, hmem, of_decide_eq_true heq⟩)
      | none =>
          obtain ⟨-, hsame', hlastKey⟩ := searchItems_none hbefore hfrom hin.docEnd hresult
          have habsent : ¬ ∃ it ∈ items, it.key = key := by
            rintro ⟨it, hmem, heq⟩
            exact List.find?_eq_none.mp hfind.symm it hmem (decide_eq_true heq)
          rw [or_iff_right habsent, ← h.unchanged_iff (hin.searched hbefore hfrom hresult)
            ((hsame.trans hsame').trans ⟨rfl, rfl, rfl, rfl⟩) rfl
            fun hend => hlastKey.trans (hkey hend)]
          constructor
          · rintro ⟨t, r'', heq, rfl, hunchanged⟩
            exact ⟨r'', heq, hunchanged⟩
          · rintro ⟨r'', heq, hunchanged⟩
            exact ⟨elementEnd, r'', heq, rfl, hunchanged⟩

/-- The elements behind an element. -/
theorem itemsAfter_on (hitems : c.items = front ++ it :: back) (hon : r.On it) :
    itemsAfter c r = back := by
  obtain ⟨hfront, hback⟩ := starts_around hitems
  rw [itemsAfter, if_neg (hon.type_ne_begin hitems), hitems, List.filter_append, List.filter_cons, hon.start]
  have hfrontNil : front.filter (fun it' => (it.start : ℤ) < it'.start) = [] := by
    refine List.filter_eq_nil_iff.mpr fun it' hmem => ?_
    have := hfront it' hmem
    simpa using this.le
  have hbackAll : back.filter (fun it' => (it.start : ℤ) < it'.start) = back := by
    refine List.filter_eq_self.mpr fun it' hmem => ?_
    exact decide_eq_true (Int.ofNat_lt.mpr (hback it' hmem))
  rw [hfrontNil, hbackAll, if_neg (by simp), List.nil_append]

theorem itemsAfter_atEnd (htype : r.curType = elementEnd) (hstart : r.elementStartOffset = c.last) :
    itemsAfter c r = [] := by
  rw [itemsAfter, if_neg (by rw [htype]; exact ElementType.noConfusion), hstart]
  refine List.filter_eq_nil_iff.mpr fun it hmem => ?_
  have := ((itemsFrom_container c).start_le it hmem).2
  simpa using this.le

/-- The reader that `seekBegin` leaves. -/
theorem Stands.before_seekBegin (h : Stands c r) : Before mem r.seekBegin c.first := by
  have hbefore := h.seekBegin.inside.before rfl
  have hoff : r.seekBegin.bufOffset = c.first := h.docBegin
  rwa [hoff] at hbefore

/-- `seekKey` does what it is meant for when there is an element with the key, and else when the reader
is at the end, or on an element of a document. -/
theorem Stands.seekKey_iff (h : Stands c r) :
    FindsKey mem r c.items key (r.seekKey mem key) ↔
      (∃ it ∈ c.items, it.key = key) ∨ Restorable r := by
  refine h.findsKey_iff h.seekBegin.toInContainer ⟨rfl, rfl, rfl, rfl⟩ h.before_seekBegin
    (itemsFrom_container c) fun hend => ?_
  cases h.place with
  | before htype => exact ElementType.noConfusion (hend.symm.trans htype)
  | on hitems hon => exact absurd hend (hon.type_ne_end hitems)
  | atEnd _ _ _ hkey =>
      cases hlast : c.items.getLast? with
      | none => rfl
      | some it => exact (hkey it hlast).symm

/-- At the end, a search from there finds nothing and comes back. -/
theorem InContainer.searchFrom_atEnd (h : InContainer c r) (found : BsonReader → Bool)
    (htype : r.curType = elementEnd) (hstart : r.elementStartOffset = c.last)
    (hoff : r.bufOffset = wrap32 (c.last + 1)) :
    searchFrom mem found r.elementOffset r = .ok (elementEnd, r) := by
  have hback := h.back_atEnd hstart htype hoff ⟨rfl, rfl, rfl, rfl⟩ rfl
  rw [searchFrom, next_atEnd htype, ok_bind]
  dsimp only
  rw [scan, if_neg (show ¬ 0 < elementEnd.value by decide), pure_eq_ok, ok_bind]
  dsimp only
  rw [if_pos rfl, hback, ok_bind, pure_eq_ok]

/-- `seekNextKey` does so for the elements behind the position. -/
theorem Stands.seekNextKey_iff (h : Stands c r) :
    FindsKey mem r (itemsAfter c r) key (r.seekNextKey mem key) ↔
      (∃ it ∈ itemsAfter c r, it.key = key) ∨ Restorable r := by
  have hin := h.toInContainer
  cases h.place with
  | before htype hoff =>
      have hbefore := h.inside.before htype
      rw [hoff] at hbefore
      have hafter : itemsAfter c r = c.items := if_pos htype
      rw [hafter]
      exact h.findsKey_iff hin ⟨rfl, rfl, rfl, rfl⟩ hbefore (itemsFrom_container c)
        fun hend => ElementType.noConfusion (hend.symm.trans htype)
  | on hitems hon =>
      rw [itemsAfter_on hitems hon]
      exact h.findsKey_iff hin ⟨rfl, rfl, rfl, rfl⟩ (hin.before_behind hitems hon)
        (itemsFrom_split hitems).2.2.2.2.2 fun hend => absurd hend (hon.type_ne_end hitems)
  | atEnd htype hstart hoff =>
      rw [itemsAfter_atEnd htype hstart]
      exact iff_of_true ⟨elementEnd, r, hin.searchFrom_atEnd _ htype hstart hoff, rfl,
        Unchanged.refl mem r⟩ (.inr (.inl htype))

/-- **When the searches for a key do what they are meant for.** -/
theorem seeks_right_iff (hr : Reached c r) (key : List UInt8) :
    (FindsKey mem r c.items key (r.seekKey mem key) ↔
      (∃ it ∈ c.items, it.key = key) ∨ Restorable r) ∧
    (FindsKey mem r (itemsAfter c r) key (r.seekNextKey mem key) ↔
      (∃ it ∈ itemsAfter c r, it.key = key) ∨ Restorable r) :=
  ⟨hr.stands.seekKey_iff, hr.stands.seekNextKey_iff⟩

/-- A search for a key that there is not ends at the end. -/
theorem Stands.seekKey_absent (h : Stands c r) (habsent : ∀ it ∈ c.items, it.key ≠ key) :
    ∃ r', r.seekKey mem key = .ok (elementEnd, r') := by
  have hbegin := h.seekBegin.toInContainer
  have hsearch := search_items (fun r => r.key = key) r.elementOffset h.before_seekBegin
    (itemsFrom_container c) hbegin.docEnd
  have hnone : (c.items.find? fun it => it.key = key) = none :=
    List.find?_eq_none.mpr fun it hmem heq => habsent it hmem (of_decide_eq_true heq)
  have hfind := searchItems_key key r.seekBegin c.items
  rw [hnone] at hfind
  obtain ⟨r', hr'⟩ : ∃ r', searchItems (fun r => r.key = key) r.seekBegin c.items = (none, r') :=
    ⟨_, Prod.ext hfind rfl⟩
  obtain ⟨p, hseek⟩ :=
    (hbegin.searched h.before_seekBegin (itemsFrom_container c) hr').exists_seek h.target
  refine ⟨p.2, ?_⟩
  rw [BsonReader.seekKey, hsearch, hr']
  dsimp only
  rw [hseek, ok_bind]

/-- **A search for a key that there is once** leaves the reader on its element. -/
theorem seekKey_entry {c : Container mem} {r : BsonReader} {front back : List Entry} {key : List UInt8} {v : Value}
    (hr : Reached c r) (hentries : c.entries = front ++ (key, v) :: back)
    (hfront : ∀ e ∈ front, e.1 ≠ key) :
    ∃ r', r.seekKey mem key = .ok (ElementType.ofByte v.typeByte, r') ∧ Reached c r' ∧
      r'.docLayers = r.docLayers ∧ r'.curType = ElementType.ofByte v.typeByte ∧
      r'.bufOffset = (c.first + (front.flatMap Entry.bytes).length + key.length + 2 : ℕ) ∧
      r'.curDocEnd = (c.last + 1 : ℕ) ∧
      Before mem r' (c.first + (front.flatMap Entry.bytes).length
        + (Entry.bytes (key, v)).length : ℕ) := by
  obtain ⟨it, hit⟩ : ∃ it : Item, it = ⟨c.first + (front.flatMap Entry.bytes).length, (key, v)⟩ :=
    ⟨_, rfl⟩
  have hitems : ∃ back', c.items = itemsAt c.first front ++ it :: back' := by
    rw [Container.items, hentries, itemsAt_append, hit]
    exact ⟨_, rfl⟩
  obtain ⟨back', hitems⟩ := hitems
  have hkey : it.key = key := by rw [hit]; rfl
  have hfind : (c.items.find? fun it => it.key = key) = some it := by
    have hnone : (itemsAt c.first front).find? (fun it => it.key = key) = none := by
      rw [List.find?_eq_none]
      intro it' hmem heq
      have hmap := List.mem_map_of_mem (f := Item.key) hmem
      rw [map_key_itemsAt] at hmap
      obtain ⟨e, he, hfst⟩ := List.mem_map.mp hmap
      exact hfront e he (hfst.trans (of_decide_eq_true heq))
    rw [hitems, List.find?_append, hnone, Option.none_or, List.find?_cons, hkey, decide_eq_true rfl]
  obtain ⟨t, r', hseek, hfound⟩ := hr.stands.seekKey_iff.mpr
    (.inl ⟨it, by rw [hitems]; simp, hkey⟩)
  rw [hfind] at hfound
  obtain ⟨rfl, hon, hsame⟩ := hfound
  have hreached := hr.seekKey hseek
  have hin := hreached.stands.toInContainer
  have hbefore := hin.before_behind hitems hon
  rw [hit] at hseek hon hbefore
  exact ⟨r', hseek, hreached, hsame.layers, hon.type, hon.value, hin.docEnd, hbefore⟩

end Keys

/-- A number and a flag. -/
def twoEntries : List Entry :=
  [([97], .leaf (.i32 7)), ([98], .leaf (.bool true))]

theorem clean_twoEntries : ∀ e ∈ twoEntries, 0 ∉ e.1 ∧ e.2.CleanKeys := by
  rintro e (_ | ⟨_, _ | ⟨_, ⟨⟩⟩⟩) <;> exact ⟨by decide, trivial⟩

/-- Their document. -/
def twoContainer : Container (document (twoEntries.flatMap Entry.bytes) ++ []) :=
  documentContainer twoEntries [] clean_twoEntries (by decide)

theorem enters_two : Enters twoContainer (accepted 16 16) :=
  enters_document clean_twoEntries (by decide) 16

theorem seeks_right_two :
    FindsKey (document (twoEntries.flatMap Entry.bytes) ++ []) (accepted 16 16) twoContainer.items [98]
        ((accepted 16 16).seekKey (document (twoEntries.flatMap Entry.bytes) ++ []) [98]) :=
  (seeks_right_iff (Reached.enter enters_two) [98]).1.mpr (.inl (by decide))

/-- Before the first element, a search for a key that there is not does not come back. -/
theorem not_seeks_right :
    Reached twoContainer (accepted 16 16) ∧
      ¬ FindsKey (document (twoEntries.flatMap Entry.bytes) ++ []) (accepted 16 16) twoContainer.items
        [122] ((accepted 16 16).seekKey (document (twoEntries.flatMap Entry.bytes) ++ []) [122]) :=
  ⟨.enter enters_two, fun h =>
    absurd ((Reached.enter enters_two).stands.seekKey_iff.mp h) (by decide)⟩

/-! ### Searching for an index -/

/-- The number of the element that the reader is on, -1 before the first one, and that of all elements
at the end. -/
def position {mem : List UInt8} (c : Container mem) (r : BsonReader) : ℤ :=
  if r.curType = elementInternalDocBegin then -1
  else (c.items.filter fun it => it.start < r.elementStartOffset).length

/-- A search finds the element at an index, if there is one, and else reports the end. -/
def FindsIndex {mem : List UInt8} (c : Container mem) (i : ℤ)
    (result : Read (ElementType × BsonReader)) : Prop :=
  ∃ t r', result = .ok (t, r') ∧
    match c.items[i.toNat]? with
    | some it => t = it.type ∧ r'.On it ∧ r'.arrIndex = i
    | none => t = elementEnd

/-- Counted on from the index of the reader, some element behind the position gets to `i`. -/
def CountsTo {mem : List UInt8} (c : Container mem) (r : BsonReader) (i : ℤ) : Prop :=
  -1 ≤ r.arrIndex ∧ r.arrIndex < i ∧ position c r + (i - r.arrIndex) < c.items.length

section Index

variable {mem : List UInt8} {c : Container mem} {r r' q : BsonReader} {t : ElementType} {it : Item}
  {front back : List Item} {i : ℤ}

theorem position_on (hitems : c.items = front ++ it :: back) (hon : r.On it) :
    position c r = front.length := by
  obtain ⟨hfront, hback⟩ := starts_around hitems
  rw [position, if_neg (hon.type_ne_begin hitems), hitems, List.filter_append, List.filter_cons, hon.start]
  have hfrontAll : front.filter (fun it' => (it'.start : ℤ) < it.start) = front := by
    refine List.filter_eq_self.mpr fun it' hmem => ?_
    exact decide_eq_true (Int.ofNat_lt.mpr (hfront it' hmem))
  have hbackNil : back.filter (fun it' => (it'.start : ℤ) < it.start) = [] := by
    refine List.filter_eq_nil_iff.mpr fun it' hmem => ?_
    have := hback it' hmem
    simpa using this.le
  rw [hfrontAll, hbackNil, if_neg (by simp), List.append_nil]

theorem position_atEnd (htype : r.curType = elementEnd) (hstart : r.elementStartOffset = c.last) :
    position c r = c.items.length := by
  rw [position, if_neg (by rw [htype]; exact ElementType.noConfusion), hstart]
  have hall : c.items.filter (fun it => (it.start : ℤ) < c.last) = c.items := by
    refine List.filter_eq_self.mpr fun it hmem => ?_
    have := ((itemsFrom_container c).start_le it hmem).2
    exact decide_eq_true (by omega)
  rw [hall]

/-- An element is known by where it starts. -/
theorem getElem_of_start {j k : ℕ} {it it' : Item} (hj : c.items[j]? = some it)
    (hk : c.items[k]? = some it') (h : it.start = it'.start) : j = k := by
  have hlt : ∀ {j k : ℕ} {it it' : Item}, c.items[j]? = some it → c.items[k]? = some it' → j < k →
      it.start < it'.start := by
    intro j k it it' hj hk hjk
    obtain ⟨hjlt, rfl⟩ := List.getElem?_eq_some_iff.mp hj
    have hsplit : c.items = c.items.take j ++ c.items[j] :: c.items.drop (j + 1) := by
      rw [← List.drop_eq_getElem_cons hjlt, List.take_append_drop]
    have hmem : it' ∈ c.items.drop (j + 1) := by
      refine List.mem_of_getElem? (i := k - (j + 1)) ?_
      rw [List.getElem?_drop, Nat.add_sub_cancel' hjk]
      exact hk
    exact (starts_around hsplit).2 it' hmem
  rcases lt_trichotomy j k with hjk | heq | hkj
  · exact absurd h (hlt hj hk hjk).ne
  · exact heq
  · exact absurd h (hlt hk hj hkj).ne'

/-- What a search for an index among the elements from some number on does. -/
theorem Stands.findsIndex_iff {r₁ : BsonReader} {start k : ℕ} (h : Stands c r)
    (hin : InContainer c r₁) (hbefore : Before mem r₁ start)
    (hfrom : ItemsFrom mem c.last start (c.items.drop k)) (hindex : r₁.arrIndex < 2147483648)
    (h0 : 0 ≤ i) (hi : i < 2147483648) :
    FindsIndex c i (BsonReader.searchFrom mem (fun r => r.arrIndex = i) r.elementOffset r₁) ↔
      if -1 ≤ r₁.arrIndex ∧ r₁.arrIndex < i ∧ k + (i - r₁.arrIndex - 1) < c.items.length then
        k = r₁.arrIndex + 1
      else c.items.length ≤ i := by
  have hsearch := search_items (fun r => r.arrIndex = i) r.elementOffset hbefore hfrom
    hin.docEnd
  have hfind := searchItems_index h0 hi (c.items.drop k) r₁ hindex
  rw [hsearch, FindsIndex]
  cases hresult : searchItems (fun r => r.arrIndex = i) r₁ (c.items.drop k) with
  | mk o r' =>
      rw [hresult] at hfind
      dsimp only at hfind ⊢
      cases o with
      | some it =>
          obtain ⟨hindex', -, hon, -⟩ := searchItems_some hbefore hfrom hin.docEnd hresult
          obtain ⟨⟨hlo, hhi⟩, hget⟩ : (-1 ≤ r₁.arrIndex ∧ r₁.arrIndex < i) ∧
              c.items[k + (i - r₁.arrIndex - 1).toNat]? = some it := by
            split_ifs at hfind with hcount
            exact ⟨hcount, by rw [← List.getElem?_drop]; exact hfind.symm⟩
          obtain ⟨hlt, -⟩ := List.getElem?_eq_some_iff.mp hget
          rw [if_pos ⟨hlo, hhi, by omega⟩]
          constructor
          · rintro ⟨t, r'', heq, hright⟩
            obtain ⟨rfl, rfl⟩ := Prod.mk.inj (Except.ok.inj heq)
            cases hget' : c.items[i.toNat]? with
            | none =>
                rw [hget'] at hright
                exact absurd hright (type_ne_end_of_mem (List.mem_of_getElem? hget))
            | some it' =>
                rw [hget'] at hright
                obtain ⟨-, hon', -⟩ := hright
                have hstart : it.start = it'.start :=
                  Int.ofNat_inj.mp (hon.start.symm.trans hon'.start)
                have := getElem_of_start hget hget' hstart
                omega
          · intro hk
            have hnum : k + (i - r₁.arrIndex - 1).toNat = i.toNat := by omega
            rw [hnum] at hget
            rw [hget]
            exact ⟨it.type, r', rfl, rfl, hon, of_decide_eq_true hindex'⟩
      | none =>
          have hnot : ¬ (-1 ≤ r₁.arrIndex ∧ r₁.arrIndex < i ∧
              k + (i - r₁.arrIndex - 1) < c.items.length) := by
            rintro ⟨hlo, hhi, hlt⟩
            rw [if_pos ⟨hlo, hhi⟩, List.getElem?_drop, eq_comm, List.getElem?_eq_none_iff] at hfind
            omega
          rw [if_neg hnot]
          obtain ⟨p, hseek⟩ := (hin.searched hbefore hfrom hresult).exists_seek h.target
          dsimp only
          rw [hseek, ok_bind]
          constructor
          · rintro ⟨t, r'', heq, hright⟩
            obtain ⟨rfl, -⟩ := Prod.mk.inj (Except.ok.inj heq)
            cases hget' : c.items[i.toNat]? with
            | none =>
                have := List.getElem?_eq_none_iff.mp hget'
                omega
            | some it' =>
                rw [hget'] at hright
                exact absurd hright.1.symm (type_ne_end_of_mem (List.mem_of_getElem? hget'))
          · intro hle
            have hget' : c.items[i.toNat]? = none := List.getElem?_eq_none_iff.mpr (by omega)
            rw [hget']
            exact ⟨elementEnd, p.2, rfl, rfl⟩

/-- **When `seekIndex` finds what it should.** -/
theorem seekIndex_right_iff (hkind : c.kind = .array) (hr : Reached c r) (h0 : 0 ≤ i)
    (hi : i < 2147483648) :
    FindsIndex c i (r.seekIndex mem i) ↔
      i < r.arrIndex ∨ (r.arrIndex = position c r ∧ i ≠ r.arrIndex) ∨
        (c.items.length ≤ i ∧ ¬ CountsTo c r i) := by
  have h := hr.stands
  have hin := h.toInContainer
  have hindex := h.index
  rw [hkind] at hindex
  obtain ⟨hne, hlo, hhi⟩ := hindex
  rw [seekIndex, if_neg (by omega)]
  by_cases hback : i < r.arrIndex
  · have hbegin : r.seekBegin.arrIndex = -1 := if_pos (by omega)
    rw [if_pos hback, h.findsIndex_iff (k := 0) h.seekBegin.toInContainer h.before_seekBegin
      (itemsFrom_container c) (by rw [hbegin]; decide) h0 hi, hbegin]
    refine iff_of_true ?_ (.inl hback)
    split_ifs <;> omega
  · rw [if_neg hback, or_iff_right hback, CountsTo]
    cases h.place with
    | before htype hoff =>
        have hbefore := h.inside.before htype
        rw [hoff] at hbefore
        have hposition : position c r = -1 := if_pos htype
        rw [h.findsIndex_iff (k := 0) hin hbefore (itemsFrom_container c) hhi h0 hi, hposition]
        split_ifs <;> omega
    | @on front back it hitems hon =>
        have hdrop : c.items.drop (front.length + 1) = back := by
          rw [hitems, List.drop_append, List.drop_of_length_le (by omega)]
          simp
        rw [h.findsIndex_iff hin (hin.before_behind hitems hon)
          (hdrop ▸ (itemsFrom_split hitems).2.2.2.2.2) hhi h0 hi, position_on hitems hon]
        split_ifs <;> omega
    | atEnd htype hstart hoff =>
        rw [hin.searchFrom_atEnd _ htype hstart hoff, position_atEnd htype hstart, FindsIndex]
        constructor
        · rintro ⟨t, r', heq, hright⟩
          obtain ⟨rfl, rfl⟩ := Prod.mk.inj (Except.ok.inj heq)
          cases hget : c.items[i.toNat]? with
          | none =>
              have := List.getElem?_eq_none_iff.mp hget
              omega
          | some it =>
              rw [hget] at hright
              exact absurd hright.1.symm (type_ne_end_of_mem (List.mem_of_getElem? hget))
        · intro hcond
          have hget : c.items[i.toNat]? = none := List.getElem?_eq_none_iff.mpr (by omega)
          rw [hget]
          exact ⟨elementEnd, r, rfl, rfl⟩

end Index

/-- A document with an array of two numbers. -/
def arrayDocument : List UInt8 :=
  document (Entry.bytes ([97], .sub .array (.leaf [48] (.i32 7) (.leaf [49] (.i32 8) .nil))))

/-- The array. -/
def arrayContainer : Container arrayDocument where
  kind := .array
  pre := arrayDocument.take 11
  entries := [([48], .leaf (.i32 7)), ([49], .leaf (.i32 8))]
  post := [0]
  located := {
    mem_eq := by decide
    small := by decide
    clean := by
      rintro e (_ | ⟨_, _ | ⟨_, ⟨⟩⟩⟩) <;> exact ⟨by decide, trivial⟩ }

/-- The reader that has entered it. -/
def arrayReader : BsonReader where
  docLayers := [⟨4, 27, -2⟩]
  size := 27
  elementStartOffset := 4
  bufOffset := 11
  arrIndex := -1
  curDocBegin := 11
  curDocEnd := 26
  curType := elementInternalDocBegin
  key := [97]

/-- It is the reader that `next` and `beginSub` leave. -/
theorem enters_array : Enters arrayContainer arrayReader := by
  have hctor : ofBufferSize (some arrayDocument) 27 = .ok (accepted 27 27) := by decide +kernel
  have hnext : (accepted 27 27).next arrayDocument
      = .ok (elementArray, (accepted 27 27).atElement 4 elementArray [97] 7) := by decide +kernel
  have hbegin : ((accepted 27 27).atElement 4 elementArray [97] 7).beginSub arrayDocument
      = .ok (true, arrayReader) := by decide +kernel
  have hin := ((inside_ofBufferSize (by decide) hctor).next hnext).beginSub hbegin
  exact ⟨⟨hin, by decide, by decide⟩, rfl, by decide, by decide, by decide⟩

theorem seekIndex_right_second :
    FindsIndex arrayContainer 1 (arrayReader.seekIndex arrayDocument 1) :=
  (seekIndex_right_iff rfl (Reached.enter enters_array) (by decide) (by decide)).mpr
    (.inr (.inl ⟨by decide, by decide⟩))

/-- On the first element, the search for it finds nothing. -/
theorem not_seekIndex_right :
    ∃ r, Reached arrayContainer r ∧ r.arrIndex = 0 ∧
      ¬ FindsIndex arrayContainer 0 (r.seekIndex arrayDocument 0) := by
  have hnext : arrayReader.next arrayDocument
      = .ok (elementI32, arrayReader.atElement 11 elementI32 [48] 14) := by decide +kernel
  have hseek : ((arrayReader.atElement 11 elementI32 [48] 14).seekIndex arrayDocument 0).map Prod.fst
      = .ok elementEnd := by decide +kernel
  refine ⟨_, .next (.enter enters_array) hnext, by decide, ?_⟩
  rintro ⟨t, r', heq, hright⟩
  rw [heq] at hseek
  obtain rfl : t = elementEnd := Except.ok.inj hseek
  exact ElementType.noConfusion (hright.1 : elementEnd = elementI32)


end BsonReader

end ScApi
