import ScApi.BsonBounds

/-!
# Documents as chains of elements

`Before` says where a reader stands: `next` is going to read the element at an offset. The moves
of a reader over complete elements are equations about it.

`ElementsFrom` says that the bytes from an offset on are the elements of a document, each complete,
up to the byte that ends the document, and that the same holds of every sub document. It is what
`validate` checks.

## Main results

* `Before.next_element`, `Before.next_end`: `next` moves along the chain.
* `Before.beginSub`, `Before.endSub`: into a sub document, and behind it.
* `elementsFrom_of_validate`: a buffer that `validate` accepts is a chain of elements.
-/

open Bytes BoundedRead

namespace ScApi

open ElementType

namespace BsonReader

/-- The reader has not ended, and `next` is going to read the element at `start`. -/
structure Before (mem : List UInt8) (r : BsonReader) (start : ℤ) : Prop where
  inside : Inside mem r
  running : r.curType.ended = false
  skip : r.skipValue mem = .ok start

section Before

variable {mem : List UInt8} {r r' : BsonReader} {start value need count : ℤ} {t : ElementType}
  {key : List UInt8}

theorem Inside.before (hr : Inside mem r) (ht : r.curType = elementInternalDocBegin) :
    Before mem r r.bufOffset where
  inside := hr
  running := by rw [ht]; rfl
  skip := hr.skipValue_begin ht

theorem Before.next_eq (hr : Before mem r start) : r.next mem = r.readElement mem start :=
  Inside.next_of_skipValue hr.running hr.skip

theorem Before.next_end (hr : Before mem r start) (hbyte : byteAt mem start = .ok 0) :
    r.next mem = .ok (elementEnd, r.atDocEnd start) := by
  rw [hr.next_eq, readElement_of_end r hbyte]

theorem Before.next_element (hr : Before mem r start)
    (h : ElementAt mem r.curDocEnd start t key value need) :
    r.next mem = .ok (t, r.atElement start t key value) := by
  rw [hr.next_eq, readElement_of_elementAt hr.inside.docEnd_lt h]

theorem Before.not_atEnd (hr : Before mem r start) : r.atEnd = false := by
  rcases hr.inside.pos_or_begin hr.running with hpos | hbegin
  · have hne : r.curType.value ≠ 0 := by omega
    have hge : ¬ r.curType.value < 0 := by omega
    simp [atEnd, error, hne, hge]
  · simp [atEnd, error, hbegin, value]

/-- The number of bytes of a value: `next` has asked for at least as many. -/
theorem ElementAt.exists_storedSize {docEnd : ℤ}
    (h : ElementAt mem docEnd start t key value need) :
    ∃ count, storedSize mem value t = .ok count ∧ 0 ≤ count ∧ count ≤ need :=
  storedSize_of_valueSize h.need_eq h.need_nonneg

/-- A key is shorter than the document. -/
theorem ElementAt.key_lt {docEnd : ℤ} (h : ElementAt mem docEnd start t key value need) :
    key.length < docEnd := by
  have hs := h.start_nonneg
  have hv := h.start_lt_value
  have hv' := h.value_le_docEnd
  rw [h.key_eq, slice, List.length_take]
  omega

theorem ElementAt.storedSize_range {docEnd : ℤ}
    (h : ElementAt mem docEnd start t key value need) (hcount : storedSize mem value t = .ok count) :
    0 ≤ count ∧ count ≤ need := by
  obtain ⟨count', hcount', h0, hle⟩ := h.exists_storedSize
  rw [hcount] at hcount'
  obtain rfl := Except.ok.inj hcount'
  exact ⟨h0, hle⟩

/-- The size of a sub document is the first four bytes of its value. -/
theorem ElementAt.i32At_of_container {docEnd : ℤ}
    (h : ElementAt mem docEnd start t key value need) (hc : t.isContainer = true) :
    i32At mem value = .ok need := by
  have hneed := h.need_eq
  cases t <;> first
    | exact absurd hc (by decide)
    | exact hneed

theorem ElementAt.storedSize_of_container {docEnd : ℤ}
    (h : ElementAt mem docEnd start t key value need) (hc : t.isContainer = true) :
    storedSize mem value t = .ok need := by
  have hneed := h.need_eq
  cases t <;> first
    | exact absurd hc (by decide)
    | exact hneed

/-- The element that follows starts behind the bytes of the value. -/
theorem Before.atElement (hr : Before mem r start)
    (h : ElementAt mem r.curDocEnd start t key value need)
    (hcount : storedSize mem value t = .ok count) :
    Before mem (r.atElement start t key value) (value + count) := by
  have hin := hr.inside.readAt (ReadAt.element h)
  have hpos : 0 < (r.atElement start t key value).curType.value := h.pos
  obtain ⟨h0, hle⟩ := h.storedSize_range hcount
  have hv := h.start_lt_value
  have hs := h.start_nonneg
  have hfits := h.fits
  have hend := hr.inside.docEnd_lt
  refine ⟨hin, ended_of_pos hpos, ?_⟩
  exact skipValue_eq hcount h0 (by dsimp only [BsonReader.atElement]; omega)
    (by dsimp only [BsonReader.atElement]; omega)

/-- **Into a sub document**: the reader is before its first element. -/
theorem Before.beginSub (hr : Before mem r start)
    (h : ElementAt mem r.curDocEnd start t key value need) (hc : t.isContainer = true)
    (hl : r.docLayers.length ≠ kMaxSubdocs) :
    (r.atElement start t key value).beginSub mem
        = .ok (true, (r.atElement start t key value).inSub need) ∧
      Before mem ((r.atElement start t key value).inSub need) (wrap32 (value + 4)) := by
  have hin := hr.inside.readAt (ReadAt.element h)
  have hsize := h.i32At_of_container hc
  have hend := hr.inside.docEnd_lt
  have hs := h.start_nonneg
  have hv := h.start_lt_value
  have hneed := h.need_nonneg
  have hfits := h.fits
  have hwrap : wrap32 (value + need) = value + need := wrap32_of_range (by omega) (by omega)
  have heq : (r.atElement start t key value).beginSub mem
      = .ok (true, (r.atElement start t key value).inSub need) := by
    have hcont : (r.atElement start t key value).curType.isContainer = true := hc
    have hlayers : (r.atElement start t key value).docLayers.length ≠ kMaxSubdocs := hl
    have hoff : (r.atElement start t key value).bufOffset = value := rfl
    rw [BsonReader.beginSub, if_neg (by simp [hcont]), if_neg hlayers, hoff, hsize, ok_bind, hwrap]
    rfl
  exact ⟨heq, (hin.beginSub heq).before rfl⟩

/-- **Behind a sub document**: the enclosing document goes on at the end of the sub document. -/
theorem Before.endSub {d : DocState} {layers : List DocState} (hr : Inside mem r)
    (hl : r.docLayers = d :: layers) :
    r.endSub.1 = true ∧ r.endSub.2.docLayers = layers ∧ r.endSub.2.curDocEnd = d.endOffset ∧
      Before mem r.endSub.2 r.curDocEnd := by
  have htrue : r.endSub.1 = true := by rw [BsonReader.endSub, hl]
  obtain ⟨d', layers', hcons, -, hrest, hend, htype, hskip⟩ := hr.endSub_start htrue
  rw [hl] at hcons
  obtain ⟨rfl, rfl⟩ := List.cons.inj hcons
  exact ⟨htrue, hrest, hend, hr.endSub, by rw [htype]; rfl, hskip⟩

end Before

/-! ### Chains -/

/-- **The bytes from `start` on are the elements of a document** that ends at `docEnd`, up to the
byte that ends it; every value is complete, and the body of every sub document is such a chain
too. -/
inductive ElementsFrom (mem : List UInt8) : ℤ → ℤ → Prop
  | docEnd {docEnd start : ℤ} (hbyte : byteAt mem start = .ok 0) : ElementsFrom mem docEnd start
  | element {docEnd start value need count : ℤ} {t : ElementType} {key : List UInt8}
      (h : ElementAt mem docEnd start t key value need)
      (hcount : storedSize mem value t = .ok count)
      (body : t.isContainer = true → ElementsFrom mem (value + need) (wrap32 (value + 4)))
      (rest : ElementsFrom mem docEnd (value + count)) : ElementsFrom mem docEnd start

/-- What is left to read for a validation that is `depth` sub documents deep: the rest of the
document it is in, and behind each sub document the rest of the document around it. -/
def Remaining (mem : List UInt8) : ℕ → List DocState → ℤ → ℤ → Prop
  | 0, _, docEnd, start => ElementsFrom mem docEnd start
  | _ + 1, [], _, _ => False
  | depth + 1, d :: layers, docEnd, start =>
      ElementsFrom mem docEnd start ∧ Remaining mem depth layers d.endOffset docEnd

/-- An element in front of what is left. -/
theorem Remaining.element {mem : List UInt8} {depth : ℕ} {layers : List DocState}
    {docEnd start value need count : ℤ} {t : ElementType} {key : List UInt8}
    (h : ElementAt mem docEnd start t key value need) (hcount : storedSize mem value t = .ok count)
    (body : t.isContainer = true → ElementsFrom mem (value + need) (wrap32 (value + 4)))
    (rest : Remaining mem depth layers docEnd (value + count)) :
    Remaining mem depth layers docEnd start := by
  match depth, layers with
  | 0, _ => exact ElementsFrom.element h hcount body rest
  | _ + 1, [] => exact rest
  | _ + 1, d :: layers => exact ⟨ElementsFrom.element h hcount body rest.1, rest.2⟩

/-- **A validation that succeeds has read chains of elements** wherever it was. -/
theorem remaining_of_validateLoop {mem : List UInt8} {n depth : ℕ} {r r' : BsonReader} {start : ℤ}
    (hr : Before mem r start) (h : validateLoop mem n depth r = .ok (true, r')) :
    Remaining mem depth r.docLayers r.curDocEnd start := by
  induction n generalizing depth r start with
  | zero => exact absurd h (by simp [validateLoop])
  | succ n ih =>
      obtain ⟨⟨turn, r₂⟩, hturn, hrun⟩ := bind_eq_ok.mp h
      have hcase := validateTurn_cases hturn
      clear h hturn
      cases hcase with
      | formatError hn => exact absurd hrun (by simp)
      | docEnd hdepth hn =>
          subst hdepth
          obtain ⟨start', hs, hread⟩ := hr.inside.next_start hr.running hn
          obtain rfl := Except.ok.inj (hr.skip.symm.trans hs)
          cases hread with
          | docEnd hbyte => exact ElementsFrom.docEnd hbyte
          | element helem => exact absurd helem.pos (by decide)
      | @endSub r₁ d hdepth hn =>
          subst hdepth
          obtain ⟨start', hs, hread⟩ := hr.inside.next_start hr.running hn
          obtain rfl := Except.ok.inj (hr.skip.symm.trans hs)
          have hr₁ := hr.inside.next hn
          obtain ⟨-, hdoc, hdl, -⟩ := hread.frame
          have hbyte : byteAt mem start = .ok 0 := by
            cases hread with
            | docEnd hbyte => exact hbyte
            | element helem => exact absurd helem.pos (by decide)
          cases hl : r.docLayers with
          | nil =>
              have hfalse : r₁.endSub.1 = false := by rw [BsonReader.endSub, hdl, hl]
              rw [hfalse] at hrun
              exact absurd hrun (by simp)
          | cons l layers =>
              rw [hl] at hdl
              obtain ⟨htrue, hlayers, hend, hbefore⟩ := Before.endSub hr₁ hdl
              rw [if_pos htrue] at hrun
              have hrest := ih hbefore hrun
              rw [hlayers, hend, hdoc] at hrest
              exact ⟨ElementsFrom.docEnd hbyte, hrest⟩
      | @beginSub t r₁ _ b hc hn hb =>
          obtain ⟨start', hs, hread⟩ := hr.inside.next_start hr.running hn
          obtain rfl := Except.ok.inj (hr.skip.symm.trans hs)
          cases b with
          | false => exact absurd hrun (by simp)
          | true =>
              cases hread with
              | docEnd hbyte => exact absurd hc (by decide)
              | formatError => exact absurd hc (by decide)
              | @element _ key value need helem =>
                  have hr₁ := hr.inside.next hn
                  obtain ⟨need', -, hsize, -, -, rfl, hskip⟩ := hr₁.beginSub_start hb
                  obtain rfl : need = need' :=
                    Except.ok.inj ((helem.i32At_of_container hc).symm.trans hsize)
                  obtain ⟨hbody, hrest⟩ := ih ⟨hr₁.beginSub hb, rfl, hskip⟩ hrun
                  exact Remaining.element helem (helem.storedSize_of_container hc)
                    (fun _ => hbody) hrest
      | @value t r₁ hc hf hne hn =>
          obtain ⟨start', hs, hread⟩ := hr.inside.next_start hr.running hn
          obtain rfl := Except.ok.inj (hr.skip.symm.trans hs)
          cases hread with
          | docEnd hbyte => exact absurd rfl hne
          | formatError => exact absurd rfl hf
          | @element _ key value need helem =>
              obtain ⟨count, hcount, -, -⟩ := helem.exists_storedSize
              have hrest := ih (hr.atElement helem hcount) hrun
              exact Remaining.element helem hcount (fun hc' => by simp [hc] at hc') hrest

/-- **A buffer that `validate` accepts is a chain of elements.** -/
theorem elementsFrom_of_validate {mem : List UInt8} {s : ℕ} (hs : s ≤ mem.length)
    (h : validate mem s = .ok true) :
    ∃ docSize, getTotalDocumentSize mem = .ok docSize ∧ 0 ≤ docSize ∧ docSize ≤ s ∧
      ElementsFrom mem docSize 4 := by
  rw [validate] at h
  by_cases hlen : s < 5
  · rw [if_pos hlen] at h
    exact absurd h (by simp)
  rw [if_neg hlen] at h
  obtain ⟨docSize, hsize, h⟩ := bind_eq_ok.mp h
  by_cases hbig : s < toSizeT docSize
  · rw [if_pos hbig] at h
    exact absurd h (by simp)
  rw [if_neg hbig] at h
  obtain ⟨r, hctor, h⟩ := bind_eq_ok.mp h
  obtain ⟨⟨valid, r'⟩, hvalid, h⟩ := bind_eq_ok.mp h
  obtain rfl : valid = true := Except.ok.inj h
  rcases ofBufferSize_cases hctor with rfl | ⟨docSize', hsize', h0, hle, -, rfl⟩
  · -- a reader that was rejected reports the error at once
    exact absurd hvalid (by simp [validateHere, validateLoop, validateTurn, BsonReader.next,
      rejected, fresh, ended])
  · obtain rfl : docSize = docSize' := Except.ok.inj (hsize.symm.trans hsize')
    have hin : Inside mem (accepted s docSize) :=
      inside_accepted h0 (i32At_range hsize).2 (by omega)
    exact ⟨docSize, hsize, h0, hle, remaining_of_validateLoop (hin.before rfl) hvalid⟩

end BsonReader

end ScApi
