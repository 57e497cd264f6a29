import ScApi.BsonBounds

/-!
# The spans that the accessors return

A walk over a buffer with `next`, `beginSub` and `endSub` keeps track of the documents it has
entered. At an element, the accessor of the element's type returns a span of the buffer; the
code that uses it reads the span without a further check.

`next` compares the size in front of a string or a binary value with the document only after
adding the 4 or 5 bytes that surround the value, so a size of zero (of a string) or below passes
the check. The terminator of a string is not looked at.

## Main results

* `Walk.entered`: the documents of a walk lie inside each other, and the walk does not go back
  before the document it is in.
* `accessorsInside_iff`: the spans at an element lie inside its document, with a NUL byte behind
  a string, exactly when the sizes in front of its value are proper ones.
-/

open Bytes BoundedRead

namespace ScApi

open ElementType BsonReader

/-- A document in the buffer: the offset of its size, and the offset behind it. -/
structure Extent where
  first : ℤ
  behind : ℤ
  deriving DecidableEq, Repr

/-- A walk over a buffer, with the documents it is in, the innermost first. -/
inductive Walk (mem : List UInt8) : List Extent → BsonReader → Prop
  | start {docSize : ℤ} (h : ofBufferSize (some mem) mem.length = .ok (accepted mem.length docSize)) :
      Walk mem [⟨0, docSize⟩] (accepted mem.length docSize)
  | next {docs : List Extent} {r r' : BsonReader} {t : ElementType} (hw : Walk mem docs r)
      (h : r.next mem = .ok (t, r')) : Walk mem docs r'
  | beginSub {docs : List Extent} {r r' : BsonReader} {docSize : ℤ} (hw : Walk mem docs r)
      (hsize : i32At mem r.bufOffset = .ok docSize) (h : r.beginSub mem = .ok (true, r')) :
      Walk mem (⟨r.bufOffset, r.bufOffset + docSize⟩ :: docs) r'
  | endSub {d : Extent} {docs : List Extent} {r r' : BsonReader} (hw : Walk mem (d :: docs) r)
      (h : r.endSub = (true, r')) : Walk mem docs r'

/-- The documents that a reader is in: the innermost ends where the reader's document does, the
others where its layers do, each lies inside the next, and the reader has not gone back before
the innermost one. -/
structure Entered (mem : List UInt8) (docs : List Extent) (r : BsonReader) : Prop where
  inside : Inside mem r
  ends : docs.map Extent.behind = r.curDocEnd :: r.docLayers.map DocState.endOffset
  nested : docs.Pairwise fun d d' => d'.first ≤ d.first
  ordered : ∀ d ∈ docs, d.first ≤ d.behind
  ahead : ∀ d ∈ docs.head?, r.curType.ended = false → ∀ start, r.skipValue mem = .ok start →
    0 ≤ start → d.first ≤ start
  current : ∀ d ∈ docs.head?, 0 < r.curType.value → d.first ≤ r.elementStartOffset

namespace Entered

variable {mem : List UInt8} {docs : List Extent} {d : Extent} {r r' : BsonReader}
  {t : ElementType}

theorem next (hr : Entered mem docs r) (h : r.next mem = .ok (t, r')) : Entered mem docs r' := by
  have hin := hr.inside.next h
  rcases hr.inside.next_cases h with ⟨-, -, rfl⟩ | ⟨start, hrun, hs, -, hread⟩
  · exact hr
  obtain ⟨htype, hdoc, hdl, hes⟩ := hread.frame
  have hcur : ∀ d ∈ docs.head?, 0 < r'.curType.value → d.first ≤ r'.elementStartOffset := by
    intro d hd hpos
    rw [hes]
    cases hread with
    | docEnd hbyte => exact absurd hpos (by simp [atDocEnd, value])
    | formatError hft => exact absurd hpos (by simp [hft, value])
    | element helem => exact hr.ahead d hd hrun start hs helem.start_nonneg
  exact {
    inside := hin
    ends := by rw [hdoc, hdl]; exact hr.ends
    nested := hr.nested
    ordered := hr.ordered
    ahead := by
      intro d hd hrun' s hs' _
      cases hread with
      | docEnd hbyte => exact absurd hrun' (by simp [atDocEnd, ended])
      | formatError hft => exact absurd hrun' (by simp [hft, ended])
      | element helem =>
          have hpos := helem.pos
          obtain ⟨s', hs'', hle, -⟩ := hin.skipValue_current hpos
          rw [hs'] at hs''
          obtain rfl := Except.ok.inj hs''
          have hfirst := hcur d hd hpos
          have hlt := (hin.current hpos).2.1
          omega
    current := hcur }

theorem beginSub {docSize : ℤ} (hr : Entered mem docs r)
    (hsize : i32At mem r.bufOffset = .ok docSize) (h : r.beginSub mem = .ok (true, r')) :
    Entered mem (⟨r.bufOffset, r.bufOffset + docSize⟩ :: docs) r' := by
  obtain ⟨docSize', hc, hsize', h0, hfit, rfl, hskip⟩ := hr.inside.beginSub_start h
  rw [hsize] at hsize'
  obtain rfl := Except.ok.inj hsize'
  have hpos := pos_of_container hc
  obtain ⟨-, hes, -⟩ := hr.inside.current hpos
  have hall : ∀ d ∈ docs, d.first ≤ r.bufOffset := by
    intro d hd
    cases docs with
    | nil => simp at hd
    | cons d₀ docs =>
        have hfirst := hr.current d₀ rfl hpos
        rcases List.mem_cons.mp hd with rfl | hd
        · omega
        · have := (List.pairwise_cons.mp hr.nested).1 d hd
          omega
  exact {
    inside := hr.inside.beginSub h
    ends := by rw [List.map_cons, hr.ends]; rfl
    nested := List.pairwise_cons.mpr ⟨hall, hr.nested⟩
    ordered := by
      intro d hd
      rcases List.mem_cons.mp hd with rfl | hd
      · dsimp only; omega
      · exact hr.ordered d hd
    ahead := by
      intro d hd _ s hs hs0
      obtain rfl : (⟨r.bufOffset, r.bufOffset + docSize⟩ : Extent) = d := by simpa using hd
      rw [hskip] at hs
      obtain rfl := Except.ok.inj hs
      have hrange := hr.inside.bufOffset_range
      dsimp only
      unfold wrap32 at hs0 ⊢
      omega
    current := fun _ _ hp => absurd hp (by simp [inSub, value]) }

theorem endSub (hr : Entered mem (d :: docs) r) (h : r.endSub = (true, r')) :
    Entered mem docs r' := by
  have htrue : r.endSub.1 = true := by rw [h]
  obtain ⟨l, layers, hcons, hle, hl, hend, htype, hskip⟩ := hr.inside.endSub_start htrue
  have hin := hr.inside.endSub
  rw [h] at hl hend htype hskip hin
  have hends := hr.ends
  rw [hcons, List.map_cons, List.map_cons] at hends
  obtain ⟨hd, hrest⟩ := List.cons.inj hends
  exact {
    inside := hin
    ends := by rw [hend, hl]; exact hrest
    nested := (List.pairwise_cons.mp hr.nested).2
    ordered := fun d' hd' => hr.ordered d' (List.mem_cons_of_mem _ hd')
    ahead := by
      intro d' hd' _ s hs _
      rw [hskip] at hs
      obtain rfl := Except.ok.inj hs
      have hmem := List.mem_of_mem_head? hd'
      have := (List.pairwise_cons.mp hr.nested).1 d' hmem
      have := hr.ordered d List.mem_cons_self
      omega
    current := fun _ _ hp => absurd hp (by rw [htype]; decide) }

end Entered

/-- **The documents of a walk lie inside each other**, and the walk does not go back before the
document it is in. -/
theorem Walk.entered {mem : List UInt8} {docs : List Extent} {r : BsonReader}
    (h : Walk mem docs r) : Entered mem docs r := by
  induction h with
  | @start docSize h =>
      have hin := inside_ofBufferSize le_rfl h
      have h0 := hin.docEnd_nonneg
      exact {
        inside := hin
        ends := rfl
        nested := List.pairwise_singleton _ _
        ordered := by
          intro d hd
          obtain rfl := List.mem_singleton.mp hd
          exact h0
        ahead := by
          intro d hd _ s _ hs0
          obtain rfl : (⟨0, docSize⟩ : Extent) = d := by simpa using hd
          exact hs0
        current := fun _ _ hp => absurd hp (by simp [accepted, fresh, value]) }
  | next hw h ih => exact ih.next h
  | beginSub hw hsize h ih => exact ih.beginSub hsize h
  | endSub hw h ih => exact ih.endSub h

/-! ### Accessors -/

/-- A span lies wholly inside a document. -/
def Span.Within (span : Span) (d : Extent) : Prop :=
  d.first ≤ span.offset ∧ span.offset + span.length ≤ d.behind

/-- The span of the accessor of the current element's type, and `rawElement`, lie inside the
document `d`; a string span is followed by a NUL byte that is inside the document too. -/
def AccessorsInside (mem : List UInt8) (d : Extent) (r : BsonReader) : Prop :=
  (∃ span, r.rawElement mem = .ok (some span) ∧ span.Within d) ∧
    match r.curType with
    | elementStr => ∃ span, r.stringValue mem = .ok span ∧ span.Within d ∧
        span.offset + span.length < d.behind ∧ byteAt mem (span.offset + span.length) = .ok 0
    | elementBinary => ∃ span, r.binaryValue mem = .ok span ∧ span.Within d
    | elementDoc | elementArray => ∃ span, r.subdocument mem = .ok (some span) ∧ span.Within d
    | _ => True

/-- The size in front of the current value is a proper one: a string has at least its terminator,
which is a NUL byte, and a binary value has no negative size. -/
def ProperSize (mem : List UInt8) (r : BsonReader) : Prop :=
  match r.curType with
  | elementStr => ∃ n, i32At mem r.bufOffset = .ok n ∧ 1 ≤ n ∧
      byteAt mem (r.bufOffset + 4 + (n - 1)) = .ok 0
  | elementBinary => ∃ n, i32At mem r.bufOffset = .ok n ∧ 0 ≤ n
  | _ => True

namespace BsonReader

variable {mem : List UInt8} {r : BsonReader} {d : Extent}

theorem within_rawElement (hr : Inside mem r) (hpos : 0 < r.curType.value)
    (hfirst : d.first ≤ r.elementStartOffset) (hend : d.behind = r.curDocEnd) :
    ∃ span, r.rawElement mem = .ok (some span) ∧ span.Within d := by
  obtain ⟨a, need, hraw, -, ha0, han, -, hfit⟩ := hr.rawElement_current hpos
  obtain ⟨hs0, hs1, -⟩ := hr.current hpos
  have hlt := hr.docEnd_lt
  refine ⟨_, hraw, hfirst, ?_⟩
  dsimp only
  rw [toSizeT_of_nonneg (by omega) (by omega), hend]
  omega

/-- A string span and its terminator are in order exactly when the size is at least one and the
last byte that it counts is the NUL. -/
theorem within_stringValue (hr : Inside mem r) (ht : r.curType = elementStr)
    (hfirst : d.first ≤ r.elementStartOffset) (hend : d.behind = r.curDocEnd) :
    (∃ span, r.stringValue mem = .ok span ∧ span.Within d ∧
        span.offset + span.length < d.behind ∧ byteAt mem (span.offset + span.length) = .ok 0) ↔
      ∃ n, i32At mem r.bufOffset = .ok n ∧ 1 ≤ n ∧
        byteAt mem (r.bufOffset + 4 + (n - 1)) = .ok 0 := by
  obtain ⟨hs0, hs1, need, hneed, hn, hfit⟩ := hr.current (by rw [ht]; decide)
  rw [ht] at hneed
  obtain ⟨n, hsize, hneed⟩ := bind_eq_ok.mp hneed
  have hwrap : wrap32 (n + 4) = need := Except.ok.inj hneed
  have hrange := i32At_range hsize
  have hlt := hr.docEnd_lt
  have hvalue : r.stringValue mem = .ok ⟨r.bufOffset + 4, toSizeT (wrap32 (n - 1))⟩ := by
    rw [stringValue, hsize, ok_bind, pure_eq_ok]
  have hlen : 1 ≤ n → (toSizeT (wrap32 (n - 1)) : ℤ) = n - 1 := fun hn1 => by
    rw [wrap32_of_range (by omega) (by omega), toSizeT_of_nonneg (by omega) (by omega)]
  constructor
  · rintro ⟨span, hspan, hwithin, hbehind, hnul⟩
    rw [hvalue] at hspan
    obtain rfl := Except.ok.inj hspan
    dsimp only at hbehind hnul
    have hn1 : 1 ≤ n := by
      unfold wrap32 toSizeT at *
      omega
    rw [hlen hn1] at hnul
    exact ⟨n, hsize, hn1, hnul⟩
  · rintro ⟨m, hm, hm1, hnul⟩
    rw [hsize] at hm
    obtain rfl := Except.ok.inj hm
    have hneed' : need = n + 4 := by
      unfold wrap32 at hwrap
      omega
    have hlen := hlen hm1
    refine ⟨_, hvalue, ⟨?_, ?_⟩, ?_, ?_⟩ <;> dsimp only
    · omega
    · omega
    · omega
    · rw [hlen]
      exact hnul

/-- A binary span is in order exactly when its size is not negative. -/
theorem within_binaryValue (hr : Inside mem r) (ht : r.curType = elementBinary)
    (hfirst : d.first ≤ r.elementStartOffset) (hend : d.behind = r.curDocEnd) :
    (∃ span, r.binaryValue mem = .ok span ∧ span.Within d) ↔
      ∃ n, i32At mem r.bufOffset = .ok n ∧ 0 ≤ n := by
  obtain ⟨hs0, hs1, need, hneed, hn, hfit⟩ := hr.current (by rw [ht]; decide)
  rw [ht] at hneed
  obtain ⟨n, hsize, hneed⟩ := bind_eq_ok.mp hneed
  have hwrap : wrap32 (n + 5) = need := Except.ok.inj hneed
  have hrange := i32At_range hsize
  have hlt := hr.docEnd_lt
  have hvalue : r.binaryValue mem = .ok ⟨r.bufOffset + 5, toSizeT n⟩ := by
    rw [binaryValue, hsize, ok_bind, pure_eq_ok]
  constructor
  · rintro ⟨span, hspan, -, hbehind⟩
    rw [hvalue] at hspan
    obtain rfl := Except.ok.inj hspan
    dsimp only at hbehind
    refine ⟨n, hsize, ?_⟩
    unfold toSizeT at hbehind
    omega
  · rintro ⟨m, hm, hm0⟩
    rw [hsize] at hm
    obtain rfl := Except.ok.inj hm
    have hneed' : need = n + 5 := by
      unfold wrap32 at hwrap
      omega
    have hlen : (toSizeT n : ℤ) = n := toSizeT_of_nonneg (by omega) (by omega)
    refine ⟨_, hvalue, ?_, ?_⟩ <;> dsimp only <;> omega

/-- The span of a sub document is always in order: `next` has refused a negative size. -/
theorem within_subdocument (hr : Inside mem r) (hc : r.curType.isContainer = true)
    (hfirst : d.first ≤ r.elementStartOffset) (hend : d.behind = r.curDocEnd) :
    ∃ span, r.subdocument mem = .ok (some span) ∧ span.Within d := by
  obtain ⟨hs0, hs1, need, hneed, hn, hfit⟩ := hr.current (pos_of_container hc)
  have hlt := hr.docEnd_lt
  have hsize : i32At mem r.bufOffset = .ok need := by
    cases ht : r.curType <;> rw [ht] at hc hneed <;> first
      | exact absurd hc (by decide)
      | exact hneed
  have hlen : (toSizeT need : ℤ) = need := toSizeT_of_nonneg hn (by omega)
  refine ⟨⟨r.bufOffset, toSizeT need⟩, ?_, ?_, ?_⟩
  · rw [subdocument, if_pos hc, hsize, ok_bind, pure_eq_ok]
  · dsimp only
    omega
  · dsimp only
    omega

end BsonReader

/-- **At every element of every walk, the accessors' spans lie inside the element's document, and
a NUL byte inside it follows a string, exactly when the size in front of the value is proper.**
-/
theorem accessorsInside_iff {mem : List UInt8} {d : Extent} {docs : List Extent}
    {r : BsonReader} (hw : Walk mem (d :: docs) r) (hpos : 0 < r.curType.value) :
    AccessorsInside mem d r ↔ ProperSize mem r := by
  have he := hw.entered
  have hr := he.inside
  have hfirst := he.current d rfl hpos
  have hend : d.behind = r.curDocEnd := (List.cons.inj he.ends).1
  have hraw := within_rawElement hr hpos hfirst hend
  unfold AccessorsInside ProperSize
  rw [and_iff_right hraw]
  cases ht : r.curType with
  | elementStr => exact within_stringValue hr ht hfirst hend
  | elementBinary => exact within_binaryValue hr ht hfirst hend
  | elementDoc | elementArray =>
      exact iff_of_true (within_subdocument hr (by rw [ht]; rfl) hfirst hend) trivial
  | _ => exact Iff.rfl

/-- A string of one character at the top level. -/
theorem accessorsInside_string :
    ∃ r, Walk [14, 0, 0, 0, 2, 97, 0, 2, 0, 0, 0, 120, 0, 0] [⟨0, 14⟩] r ∧
      0 < r.curType.value ∧
      AccessorsInside [14, 0, 0, 0, 2, 97, 0, 2, 0, 0, 0, 120, 0, 0] ⟨0, 14⟩ r := by
  have hstart : Walk [14, 0, 0, 0, 2, 97, 0, 2, 0, 0, 0, 120, 0, 0] [⟨0, 14⟩] (accepted 14 14) :=
    Walk.start (by decide)
  have hwalk : Walk [14, 0, 0, 0, 2, 97, 0, 2, 0, 0, 0, 120, 0, 0] [⟨0, 14⟩]
      ((accepted 14 14).atElement 4 elementStr [97] 7) :=
    Walk.next (t := elementStr) hstart (by decide)
  have hpos : 0 < elementStr.value := by decide
  refine ⟨_, hwalk, hpos, (accessorsInside_iff hwalk hpos).mpr ?_⟩
  exact ⟨2, by decide, by decide, by decide⟩

/-- A validated document with a string whose size counts no terminator: the length of the string
span is the largest of its type. -/
theorem not_accessorsInside_of_validate :
    ¬ ∀ mem : List UInt8, validate mem mem.length = .ok true →
      ∀ (d : Extent) (docs : List Extent) (r : BsonReader), Walk mem (d :: docs) r →
        0 < r.curType.value → AccessorsInside mem d r := by
  intro h
  have hvalid : validate [11, 0, 0, 0, 2, 0, 0, 0, 0, 0, 0] 11 = .ok true := by decide
  have hstart : Walk [11, 0, 0, 0, 2, 0, 0, 0, 0, 0, 0] [⟨0, 11⟩] (accepted 11 11) :=
    Walk.start (by decide)
  have hwalk : Walk [11, 0, 0, 0, 2, 0, 0, 0, 0, 0, 0] [⟨0, 11⟩]
      ((accepted 11 11).atElement 4 elementStr [] 6) :=
    Walk.next (t := elementStr) hstart (by decide)
  obtain ⟨-, span, hspan, ⟨-, hbehind⟩, -⟩ := h _ hvalid _ _ _ hwalk (by decide)
  have hlong : stringValue [11, 0, 0, 0, 2, 0, 0, 0, 0, 0, 0]
      ((accepted 11 11).atElement 4 elementStr [] 6) = .ok ⟨10, 18446744073709551615⟩ := by
    decide +kernel
  rw [hlong] at hspan
  obtain rfl := Except.ok.inj hspan
  exact absurd hbehind (by decide)

end ScApi
