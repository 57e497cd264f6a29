import ScApi.BsonVisits
import ScApi.ElementLoops
import ScApi.Lib.Tiling

/-!
# The raw elements of a document

`rawElement` gives the bytes of the element that the reader is on, with its type and its key, and at the
end of the document the byte that ends it. The switch for the sizes of the values is a third one, beside
that of `next` for what to skip and that for the room there has to be.

A client takes the spans one after the other. At each element it may enter the sub document and do
anything inside before it leaves it and goes on. The spans are the same ones in every walk, and together
they are the document without its size.

## Main results

* `rawElement_eq`: the sizes that `rawElement` writes down are those that `next` skips.
* `tiles_spansOf`: the spans of some elements lie next to each other.
* `RawWalk.ahead`: where the reader of a walk stands, and what it has taken.
* `rawElement_spans`: the spans of every walk are those of the document.
-/

open Bytes BoundedRead Bson Tiling

namespace ScApi

open ElementType BsonReader

/-! ### The three switches -/

namespace BsonReader

/-- The switch of `BsonReader::rawElement` for `value_size`. -/
def rawValueSize (mem : List UInt8) (bufOffset : ℤ) : ElementType → Read ℤ
  | elementDouble | elementI64 => pure 8
  | elementI32 => pure 4
  | elementBool => pure 1
  | elementStr => do
      let length ← i32At mem bufOffset
      pure (wrap32 (length + 4))
  | elementBinary => do
      let size ← i32At mem bufOffset
      pure (wrap32 (size + 5))
  | elementDoc | elementArray => i32At mem bufOffset
  | elementNull | elementEnd | elementUnsupported | elementFormatError | elementInternalDocBegin =>
      pure 0

variable {mem : List UInt8} {r : BsonReader} {t : ElementType} {o : ℤ}

/-- **`rawElement` has the sizes that `next` skips.** -/
theorem rawValueSize_eq (mem : List UInt8) (o : ℤ) (t : ElementType) :
    rawValueSize mem o t = storedSize mem o t := by
  cases t <;> rfl

/-- The room that `next` asks for is one byte more for the types of eight bytes. -/
theorem valueSize_eq (ht : 0 < t.value) : valueSize mem o t =
    (do
      let count ← rawValueSize mem o t
      pure (if t = elementDouble ∨ t = elementI64 then count + 1 else count)) := by
  cases t <;> first
    | exact absurd ht (by decide)
    | rfl
    | skip
  all_goals
    rw [valueSize, rawValueSize]
    cases i32At mem o <;> rfl

/-- **`rawElement` with its own switch.** -/
theorem rawElement_eq (hpos : 0 < r.curType.value) : r.rawElement mem =
    (do
      let valueSize ← rawValueSize mem r.bufOffset r.curType
      pure (some ⟨r.elementStartOffset,
        toSizeT (wrap32 (wrap32 (r.bufOffset - r.elementStartOffset) + valueSize))⟩)) := by
  rw [rawValueSize_eq, rawElement]
  cases hct : r.curType <;> first
    | rfl
    | exact absurd (hct ▸ hpos) (by decide)

end BsonReader

/-! ### The spans of a document -/

/-- The bytes of an element, from its type on. -/
def Item.span (it : Item) : Span :=
  ⟨it.start, (Entry.bytes it.entry).length⟩

/-- The spans of some elements from an offset on. -/
def spansOf (start : ℕ) (entries : List Entry) : List Span :=
  (itemsAt start entries).map Item.span

theorem spansOf_append (start : ℕ) (front back : List Entry) :
    spansOf start (front ++ back)
      = spansOf start front ++ spansOf (start + (front.flatMap Entry.bytes).length) back := by
  rw [spansOf, itemsAt_append, List.map_append, spansOf, spansOf]

/-- **The elements lie next to each other.** -/
theorem tiles_spansOf (start : ℕ) (entries : List Entry) :
    Tiles Span.offset Span.length start (spansOf start entries)
      (start + (entries.flatMap Entry.bytes).length : ℕ) := by
  induction entries generalizing start with
  | nil => rfl
  | cons e entries ih =>
      have hrest := ih (start + (Entry.bytes e).length)
      rw [Nat.add_assoc, ← List.length_append, ← List.flatMap_cons] at hrest
      exact ⟨rfl, hrest⟩

/-- The spans of a container: those of its elements, and the byte that ends it. -/
def Container.spans {mem : List UInt8} (c : Container mem) : List Span :=
  spansOf c.first c.entries ++ [⟨c.last, 1⟩]

theorem Container.tiles_spans {mem : List UInt8} (c : Container mem) :
    Tiles Span.offset Span.length c.first c.spans (c.last + 1 : ℕ) :=
  (tiles_spansOf c.first c.entries).append ⟨rfl, rfl⟩

/-- **The spans are those of the document**: they begin behind its size, each one begins where the one
before it ends, and the last one ends with the document. So no two of them overlap, and the bytes of the
memory in them are the document without its size. -/
structure Covers (mem doc : List UInt8) (spans : List Span) : Prop where
  adjacent : Tiles Span.offset Span.length 4 spans doc.length
  disjoint : spans.Pairwise fun s s' => s.offset + (s.length : ℤ) ≤ s'.offset
  body : spans.flatMap (contents Span.offset Span.length mem) = doc.drop 4

theorem covers_of_tiles {doc tail : List UInt8} {spans : List Span}
    (h : Tiles Span.offset Span.length 4 spans doc.length) : Covers (doc ++ tail) doc spans where
  adjacent := h
  disjoint := h.pairwise
  body := by
    have hle := h.le
    have hcount : ((doc.length : ℤ) - 4).toNat = doc.length - 4 := by omega
    have hfour : (4 : ℤ).toNat = 4 := rfl
    rw [h.flatMap_contents (by decide), hcount, hfour, List.drop_append_of_le_length (by omega),
      List.take_append_of_le_length (by rw [List.length_drop]), List.take_of_length_le (by
        rw [List.length_drop])]

/-! ### Walks -/

/-- What a client does on an element before it goes on: it stays there, or it enters the sub document,
does anything inside, and leaves it. -/
inductive Away (mem : List UInt8) (r : BsonReader) : BsonReader → Prop
  | stays : Away mem r r
  | visits {offsets : List ElementOffset} {r' : BsonReader} (h : Visited mem ⟨r, offsets⟩ r') :
      Away mem r r'

/-- **A walk over the elements** of a document, with the span taken at each of them. -/
inductive RawWalk (mem : List UInt8) (r₀ : BsonReader) : List Span → BsonReader → Prop
  | start : RawWalk mem r₀ [] r₀
  | element {spans : List Span} {span : Span} {r r₁ r₂ : BsonReader} {t : ElementType}
      (h : RawWalk mem r₀ spans r) (hnext : r.next mem = .ok (t, r₁)) (ht : t ≠ elementEnd)
      (hspan : r₁.rawElement mem = .ok (some span)) (haway : Away mem r₁ r₂) :
      RawWalk mem r₀ (spans ++ [span]) r₂

section

variable {mem : List UInt8} {last : ℕ} {outer : List DocState} {r r' r₀ : BsonReader} {it : Item}
  {c : Container mem} {taken : List Span}

/-- **On an element**, `rawElement` gives its bytes. -/
theorem Faces.rawElement_onto (h : Faces mem last outer r it) (hpos : 0 < it.type.value) :
    (r.onto it).rawElement mem = .ok (some it.span) := by
  have hin := h.onto.before.inside
  have hpos : 0 < (r.onto it).curType.value := hpos
  have hbuf : (r.onto it).bufOffset = it.value := rfl
  have hstart : (r.onto it).elementStartOffset = it.start := rfl
  have hstored : storedSize mem (r.onto it).bufOffset (r.onto it).curType
      = .ok (it.behind - it.value : ℕ) := h.stored
  have hvalue := it.value_le_behind
  have hbehind : it.behind = it.start + (Entry.bytes it.entry).length := rfl
  have hlt := hin.docEnd_lt
  -- the room that there is for the value is enough for its bytes
  obtain ⟨-, -, need, hneed, -, hfit⟩ := hin.current hpos
  rw [valueSize_eq hpos, rawValueSize_eq, hstored, ok_bind] at hneed
  have hroom : ((it.behind - it.value : ℕ) : ℤ) ≤ need := by
    have hneed := Except.ok.inj hneed
    split_ifs at hneed <;> omega
  have hheader : wrap32 ((it.value : ℤ) - it.start) = it.value - it.start :=
    wrap32_of_range (by omega) (by omega)
  have hlength : wrap32 ((it.value : ℤ) - it.start + (it.behind - it.value : ℕ))
      = (Entry.bytes it.entry).length := by
    rw [wrap32_of_range (by omega) (by omega)]
    omega
  rw [rawElement_eq hpos, rawValueSize_eq, hstored, ok_bind, hbuf, hstart, hheader, hlength,
    toSizeT_natCast (by omega), pure_eq_ok, Item.span]

/-- Whatever a client does on an element, it is in front of the next one then. -/
theorem Faces.away (h : Faces mem last outer r it) (haway : Away mem (r.onto it) r') :
    InFront mem last outer it.behind r' := by
  have hbehind := h.onto
  cases haway with
  | stays => exact hbehind
  | visits hvisited =>
      obtain ⟨hbefore, hdocEnd, hlayers, -⟩ :=
        Visited.before_behind hvisited hbehind.before.inside (On.onto r it) h.stored
      exact ⟨hbefore, hdocEnd.trans hbehind.docEnd, hlayers.trans hbehind.layers⟩

theorem BsonReader.Enters.inFront (h : Enters c r) : InFront mem c.last r.docLayers c.first r := by
  have hbefore := h.inside.before h.type
  rw [h.offset] at hbefore
  exact ⟨hbefore, h.docEnd, rfl⟩

/-- **Where the reader of a walk stands**: it has taken the spans of some elements, and is in front of
the others. -/
theorem RawWalk.ahead (hr₀ : Enters c r₀) (h : RawWalk mem r₀ taken r) :
    ∃ front back, c.entries = front ++ back ∧ taken = spansOf c.first front ∧
      InFront mem c.last r₀.docLayers (c.pre ++ front.flatMap Entry.bytes).length r ∧
      Located mem (c.pre ++ front.flatMap Entry.bytes) (0 :: c.post) back ∧
      c.last = (c.pre ++ front.flatMap Entry.bytes).length + (back.flatMap Entry.bytes).length := by
  induction h with
  | start =>
      refine ⟨[], c.entries, rfl, rfl, ?_⟩
      rw [List.flatMap_nil, List.append_nil]
      exact ⟨hr₀.inFront, c.located, rfl⟩
  | element _ hnext ht hspan haway ih =>
      obtain ⟨front, back, hentries, rfl, hfront, hback, hend⟩ := ih
      cases back with
      | nil =>
          rw [List.flatMap_nil, List.length_nil, Nat.add_zero] at hend
          rw [hfront.next_end hback hend] at hnext
          exact absurd (Prod.mk.inj (Except.ok.inj hnext)).1.symm ht
      | cons e back =>
          obtain ⟨hfaces, hnext', hpos⟩ := hfront.next_element hback hend
          rw [hnext'] at hnext
          obtain ⟨rfl, rfl⟩ := Prod.mk.inj (Except.ok.inj hnext)
          rw [hfaces.rawElement_onto hpos] at hspan
          obtain rfl := Option.some.inj (Except.ok.inj hspan)
          have hpre : c.pre ++ (front ++ [e]).flatMap Entry.bytes
              = c.pre ++ front.flatMap Entry.bytes ++ Entry.bytes e := by
            rw [List.flatMap_append, List.flatMap_singleton, List.append_assoc]
          refine ⟨front ++ [e], back, by rw [hentries, List.append_assoc]; rfl, ?_, ?_, ?_, ?_⟩
          · rw [spansOf_append, Container.first, ← List.length_append]
            rfl
          · rw [hpre, List.length_append]
            exact hfaces.away haway
          · rw [hpre]
            exact hback.tail
          · rw [hpre, hend, List.flatMap_cons]
            simp only [List.length_append, Nat.add_assoc]

/-- **The next span of a walk** is the next one of the container, and the last one is at its end. -/
theorem RawWalk.next_span (hr₀ : Enters c r₀) (h : RawWalk mem r₀ taken r) :
    ∃ span rest t r₁, c.spans = taken ++ span :: rest ∧ r.next mem = .ok (t, r₁) ∧
      r₁.rawElement mem = .ok (some span) ∧ (t = elementEnd ↔ rest = []) := by
  obtain ⟨front, back, hentries, rfl, hr, hback, hend⟩ := h.ahead hr₀
  rw [Container.spans, hentries, spansOf_append, Container.first, ← List.length_append]
  cases back with
  | nil =>
      rw [List.flatMap_nil, List.length_nil, Nat.add_zero] at hend
      refine ⟨⟨c.last, 1⟩, [], _, _, ?_, hr.next_end hback hend, rfl, by simp⟩
      show spansOf c.pre.length front ++ [] ++ [_] = _
      rw [List.append_nil]
  | cons e back =>
      obtain ⟨hfaces, hnext, hpos⟩ := hr.next_element hback hend
      obtain ⟨start, hstart⟩ : ∃ start, start = (c.pre ++ front.flatMap Entry.bytes).length := ⟨_, rfl⟩
      rw [← hstart] at hfaces hnext hpos ⊢
      refine ⟨_, spansOf (start + (Entry.bytes e).length) back ++ [⟨c.last, 1⟩], _, _, ?_, hnext,
        hfaces.rawElement_onto hpos, iff_of_false ?_ (by simp)⟩
      · rw [List.append_assoc]
        rfl
      · intro hdocEnd
        rw [hdocEnd] at hpos
        exact absurd hpos (by decide)

end

/-- **The raw elements of a document** are adjacent and disjoint, and together they are the document
without its size. Every walk takes these spans, one after the other, whatever it does inside of the sub
documents, up to the last one at the end of the document. -/
theorem rawElement_spans {els : Elements} (tail : List UInt8) (hclean : els.CleanKeys)
    (hlen : (document els.bytes).length < 2147483648) {size : ℕ}
    (hsize : (document els.bytes).length ≤ size) {r₀ : BsonReader}
    (hr₀ : ofBufferSize (some (document els.bytes ++ tail)) size = .ok r₀ ∨
      ofBuffer (some (document els.bytes ++ tail)) = .ok r₀) :
    ∃ spans, Covers (document els.bytes ++ tail) (document els.bytes) spans ∧
      ∀ taken r, RawWalk (document els.bytes ++ tail) r₀ taken r →
        ∃ span rest t r₁, spans = taken ++ span :: rest ∧
          r.next (document els.bytes ++ tail) = .ok (t, r₁) ∧
          r₁.rawElement (document els.bytes ++ tail) = .ok (some span) ∧
          (t = elementEnd ↔ rest = []) := by
  have hlength := length_document els.bytes
  obtain ⟨htotal, hsized, -⟩ := atElements_ofBufferSize tail hlen hsize
  obtain ⟨s, rfl⟩ : ∃ s, r₀ = accepted s (document els.bytes).length := by
    rcases hr₀ with h | h
    · exact ⟨size, (Except.ok.inj (hsized.symm.trans h)).symm⟩
    · rw [ofBuffer, htotal, ok_bind, toSizeT_natCast hlen, if_neg (by omega)] at h
      exact ⟨_, (Except.ok.inj h).symm⟩
  rw [← Elements.flatMap_entries els] at hlen hlength ⊢
  have henters : Enters (documentContainer els.entries tail hclean.entries hlen) (accepted s _) :=
    enters_document hclean.entries hlen s
  obtain ⟨c, hc⟩ : ∃ c, c = documentContainer els.entries tail hclean.entries hlen := ⟨_, rfl⟩
  rw [← hc] at henters
  have hfirst : c.first = 4 := by
    rw [hc]
    exact length_toLe _ _
  have hlast : c.last + 1 = (document (els.entries.flatMap Entry.bytes)).length := by
    have hlast : c.last = c.first + (els.entries.flatMap Entry.bytes).length := by
      rw [hc]
      rfl
    omega
  have htiles := c.tiles_spans
  rw [hfirst, hlast] at htiles
  exact ⟨c.spans, covers_of_tiles htiles, fun taken r hwalk => hwalk.next_span henters⟩

/-- A number, and a document with another one. -/
def nestedElements : Elements :=
  .leaf [97] (.i32 1) (.sub .doc [98] (.leaf [99] (.i32 2) .nil) .nil)

theorem clean_nestedElements : nestedElements.CleanKeys :=
  ⟨by decide, by decide, ⟨by decide, trivial⟩, trivial⟩

theorem nestedDocument_eq : nestedDocument = document nestedElements.bytes ++ [] := by
  rw [← Elements.flatMap_entries]
  rfl

/-- A walk that enters the document inside, and leaves it at once. -/
theorem walk_nested :
    RawWalk nestedDocument (accepted 27 27) [⟨4, 7⟩, ⟨11, 15⟩] nestedBack := by
  have hnumber : (accepted 27 27).next nestedDocument
      = .ok (elementI32, (accepted 27 27).atElement 4 elementI32 [97] 7) := by decide +kernel
  have hsub : ((accepted 27 27).atElement 4 elementI32 [97] 7).next nestedDocument
      = .ok (elementDoc, nestedClient.reader) := by decide +kernel
  have hspan : ((accepted 27 27).atElement 4 elementI32 [97] 7).rawElement nestedDocument
      = .ok (some ⟨4, 7⟩) := by decide +kernel
  have hfirst := RawWalk.element .start hnumber (by decide) hspan .stays
  exact .element hfirst hsub (by decide) (by decide +kernel) (.visits visited_nested)

theorem rawElement_spans_nested :
    Covers nestedDocument (document nestedElements.bytes) [⟨4, 7⟩, ⟨11, 15⟩, ⟨26, 1⟩] := by
  have hctor : ofBufferSize (some (document nestedElements.bytes ++ [])) 27 = .ok (accepted 27 27) :=
    ofBufferSize_document (by decide) [] le_rfl
  obtain ⟨spans, hcovers, hwalks⟩ := rawElement_spans [] clean_nestedElements (by decide)
    (by decide : (document nestedElements.bytes).length ≤ 27) (.inl hctor)
  rw [← nestedDocument_eq] at hcovers hwalks
  obtain ⟨span, rest, t, r₁, rfl, hnext, hspan, hlast⟩ := hwalks _ _ walk_nested
  have hend : nestedBack.next nestedDocument = .ok (elementEnd, nestedBack.atDocEnd 26) := by
    decide +kernel
  rw [hend] at hnext
  obtain ⟨rfl, rfl⟩ := Prod.mk.inj (Except.ok.inj hnext)
  obtain rfl := hlast.mp rfl
  obtain rfl := Option.some.inj (Except.ok.inj hspan)
  exact hcovers

end ScApi
