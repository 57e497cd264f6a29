import ScApi.BsonReader

/-!
# What one call of `next` does

`ElementAt` says what a complete element is: a type byte, a NUL-terminated key and a value
that fit into the document. It names only the bytes, the end of the document and the offset
the element starts at, so two readers at the same offset of the same document read the same
element, whatever else their states hold.

## Main results

* `readElement_cases`: a call of `next` ends the document, reports a format error, or moves to
  a complete element.
* `readElement_of_elementAt` / `readElement_of_end`: it does so when these are in place.
* `storedSize_of_valueSize` / `skipValue_eq`: the first switch of `next` moves to the end of the
  current value, which lies inside the document.
* `readElement_ne_outOfFuel`: the only way in which it stops is a read out of bounds.
-/

open Bytes BoundedRead

namespace ScApi

open ElementType

/-! ### Type bytes -/

theorem ElementType.ofByte_eq_end {b : UInt8} : ofByte b = elementEnd ↔ b = 0 := by
  constructor
  · intro h
    unfold ofByte at h
    split at h <;> first
      | (rename_i hb; exact UInt8.toNat_inj.mp hb)
      | exact absurd h (by decide)
  · rintro rfl
    rfl

theorem ElementType.ended_of_pos {t : ElementType} (h : 0 < t.value) : t.ended = false := by
  cases t <;> simp_all [value, ended]

theorem ElementType.pos_of_container {t : ElementType} (h : t.isContainer = true) :
    0 < t.value := by
  cases t <;> simp_all [value, isContainer]

namespace BsonReader

/-! ### Values -/

theorem valueSize_ne_outOfFuel (mem : List UInt8) (o : ℤ) (t : ElementType) :
    valueSize mem o t ≠ .error .outOfFuel := by
  cases t with
  | elementStr | elementBinary =>
      intro h
      rcases bind_eq_error.mp h with h | ⟨n, -, h⟩
      · exact i32At_ne_outOfFuel _ _ h
      · simp at h
  | elementDoc | elementArray => exact i32At_ne_outOfFuel _ _
  | _ => simp [valueSize]

/-- Only the nine supported types have a value size that is not negative. -/
theorem pos_of_valueSize {mem : List UInt8} {o n : ℤ} {t : ElementType}
    (h : valueSize mem o t = .ok n) (hn : 0 ≤ n) : 0 < t.value := by
  cases t with
  | elementEnd | elementUnsupported | elementFormatError | elementInternalDocBegin =>
      simp only [valueSize, pure_eq_ok, Except.ok.injEq] at h
      omega
  | _ => simp [value]

theorem storedSize_ne_outOfFuel (mem : List UInt8) (o : ℤ) (t : ElementType) :
    storedSize mem o t ≠ .error .outOfFuel := by
  cases t with
  | elementStr | elementBinary =>
      intro h
      rcases bind_eq_error.mp h with h | ⟨n, -, h⟩
      · exact i32At_ne_outOfFuel _ _ h
      · simp at h
  | elementDoc | elementArray => exact i32At_ne_outOfFuel _ _
  | _ => simp [storedSize]

/-- A value takes at most the bytes that `next` asked for: it asked for one more than a double
or a 64-bit integer has. -/
theorem storedSize_of_valueSize {mem : List UInt8} {o n : ℤ} {t : ElementType}
    (h : valueSize mem o t = .ok n) (hn : 0 ≤ n) :
    ∃ a, storedSize mem o t = .ok a ∧ 0 ≤ a ∧ a ≤ n := by
  cases t with
  | elementEnd | elementUnsupported | elementFormatError | elementInternalDocBegin =>
      simp only [valueSize, pure_eq_ok, Except.ok.injEq] at h
      omega
  | elementStr | elementBinary | elementDoc | elementArray => exact ⟨n, h, hn, le_rfl⟩
  | elementDouble | elementI64 | elementI32 | elementBool | elementNull =>
      simp only [valueSize, pure_eq_ok, Except.ok.injEq] at h
      exact ⟨_, rfl, by omega, by omega⟩

/-- **The first switch of `next` moves to the end of the current value.** -/
theorem skipValue_eq {mem : List UInt8} {r : BsonReader} {a : ℤ}
    (h : storedSize mem r.bufOffset r.curType = .ok a) (ha : 0 ≤ a) (h0 : 0 ≤ r.bufOffset)
    (hfit : r.bufOffset + a < 2147483648) : r.skipValue mem = .ok (r.bufOffset + a) := by
  rw [skipValue, h, ok_bind, wrap32_of_range (by omega) hfit, pure_eq_ok]

theorem skipValue_ne_outOfFuel (mem : List UInt8) (r : BsonReader) :
    r.skipValue mem ≠ .error .outOfFuel := by
  intro h
  rcases bind_eq_error.mp h with h | ⟨n, -, h⟩
  · exact storedSize_ne_outOfFuel _ _ _ h
  · simp at h

/-! ### Elements -/

/-- **A complete element** of type `t` that starts at `start` in a document that ends at
`docEnd`: its key ends with the NUL byte before `value`, where its value begins, and the `need`
bytes of the value fit into the document. -/
structure ElementAt (mem : List UInt8) (docEnd start : ℤ) (t : ElementType)
    (key : List UInt8) (value need : ℤ) : Prop where
  typeByte : ∃ b, byteAt mem start = .ok b ∧ ofByte b = t
  nul : findNul mem (docEnd - (start + 1)).toNat (start + 1) = .ok (some (value - 1))
  key_eq : key = slice mem (start + 1) (value - 1)
  need_eq : valueSize mem value t = .ok need
  need_nonneg : 0 ≤ need
  fits : value + need ≤ docEnd

/-- The reader at an element. -/
def atElement (r : BsonReader) (start : ℤ) (t : ElementType) (key : List UInt8) (value : ℤ) :
    BsonReader :=
  { r with
    elementStartOffset := start
    bufOffset := value
    curType := t
    key
    arrIndex := nextArrIndex r.arrIndex }

/-- The reader behind the byte that ends a document. -/
def atDocEnd (r : BsonReader) (start : ℤ) : BsonReader :=
  { r with
    elementStartOffset := start
    bufOffset := wrap32 (start + 1)
    curType := elementEnd }

section ElementAt

variable {mem : List UInt8} {docEnd start : ℤ} {t : ElementType} {key : List UInt8}
  {value need : ℤ}

theorem ElementAt.start_nonneg (h : ElementAt mem docEnd start t key value need) :
    0 ≤ start := by
  obtain ⟨b, hb, -⟩ := h.typeByte
  exact (range_of_byteAt hb).1

theorem ElementAt.start_lt_value (h : ElementAt mem docEnd start t key value need) :
    start + 1 < value := by
  have hnul := (findNul_eq_some_iff.mp h.nul).lower
  omega

theorem ElementAt.value_le_docEnd (h : ElementAt mem docEnd start t key value need) :
    value ≤ docEnd := by
  have := h.fits
  have := h.need_nonneg
  omega

theorem ElementAt.pos (h : ElementAt mem docEnd start t key value need) : 0 < t.value :=
  pos_of_valueSize h.need_eq h.need_nonneg

/-- The element at an offset of a document is unique. -/
theorem ElementAt.unique {t' : ElementType} {key' : List UInt8} {value' need' : ℤ}
    (h : ElementAt mem docEnd start t key value need)
    (h' : ElementAt mem docEnd start t' key' value' need') :
    t = t' ∧ key = key' ∧ value = value' ∧ need = need' := by
  obtain ⟨b, hb, rfl⟩ := h.typeByte
  obtain ⟨b', hb', rfl⟩ := h'.typeByte
  rw [hb] at hb'
  obtain rfl := Except.ok.inj hb'
  have hnul := h.nul.symm.trans h'.nul
  obtain rfl : value = value' := by
    have := Option.some.inj (Except.ok.inj hnul)
    omega
  have hneed := h.need_eq.symm.trans h'.need_eq
  exact ⟨rfl, h.key_eq.trans h'.key_eq.symm, rfl, Except.ok.inj hneed⟩

end ElementAt

/-! ### One call of `next` -/

/-- What `next` reports, and the state it leaves, when it finds the end of the document, an
error, or an element at `start`. -/
inductive ReadAt (mem : List UInt8) (start : ℤ) (r : BsonReader) :
    ElementType → BsonReader → Prop
  | docEnd (hbyte : byteAt mem start = .ok 0) : ReadAt mem start r elementEnd (r.atDocEnd start)
  | formatError {r' : BsonReader} (htype : r'.curType = elementFormatError)
      (hstart : r'.elementStartOffset = start) (hlo : -2147483648 ≤ r'.bufOffset)
      (hhi : r'.bufOffset ≤ r.curDocEnd ∨ r'.bufOffset < 2147483648)
      (hlayers : r'.docLayers = r.docLayers) (hbegin : r'.curDocBegin = r.curDocBegin)
      (hend : r'.curDocEnd = r.curDocEnd) (hindex : r'.arrIndex = r.arrIndex) :
      ReadAt mem start r elementFormatError r'
  | element {t : ElementType} {key : List UInt8} {value need : ℤ}
      (h : ElementAt mem r.curDocEnd start t key value need) :
      ReadAt mem start r t (r.atElement start t key value)

theorem readElement_of_end {mem : List UInt8} {start : ℤ} (r : BsonReader)
    (hbyte : byteAt mem start = .ok 0) :
    r.readElement mem start = .ok (elementEnd, r.atDocEnd start) := by
  have htype : ofByte 0 = elementEnd := rfl
  simp [readElement, hbyte, htype, atDocEnd]

theorem readElement_of_elementAt {mem : List UInt8} {start : ℤ} {r : BsonReader}
    {t : ElementType} {key : List UInt8} {value need : ℤ}
    (hend : r.curDocEnd < 2147483648)
    (h : ElementAt mem r.curDocEnd start t key value need) :
    r.readElement mem start = .ok (t, r.atElement start t key value) := by
  obtain ⟨b, hb, rfl⟩ := h.typeByte
  have hpos := h.pos
  have hne : ofByte b ≠ elementEnd := by
    intro he
    rw [he] at hpos
    exact absurd hpos (by decide)
  have hs := h.start_nonneg
  have hv := h.start_lt_value
  have hv' := h.value_le_docEnd
  have hwrap : wrap32 (start + 1) = start + 1 := wrap32_of_range (by omega) (by omega)
  have hfits : ¬ (need < 0 ∨ r.curDocEnd < value + need) := by
    have := h.need_nonneg
    have := h.fits
    omega
  have hvalue : value - 1 + 1 = value := by omega
  simp only [readElement, hb, ok_bind, if_neg hne, readKey, hwrap, h.nul, pure_eq_ok, hvalue,
    h.need_eq, if_neg hfits, atElement, h.key_eq]

/-- **One call of `next`**, behind its first switch: it ends the document, reports a format
error, or moves to a complete element. -/
theorem readElement_cases {mem : List UInt8} {start : ℤ} {r r' : BsonReader} {t : ElementType}
    (hstart : start < 2147483648) (h : r.readElement mem start = .ok (t, r')) : ReadAt mem start r t r' := by
  obtain ⟨b, hb, h⟩ := bind_eq_ok.mp h
  have hs := (range_of_byteAt hb).1
  by_cases hz : b = 0
  · subst hz
    have hread := readElement_of_end r hb
    simp only [readElement, hb, ok_bind] at hread
    rw [hread] at h
    obtain ⟨rfl, rfl⟩ := Prod.mk.inj (Except.ok.inj h)
    exact ReadAt.docEnd hb
  have hne : ofByte b ≠ elementEnd := fun he => hz (ofByte_eq_end.mp he)
  dsimp only at h
  rw [if_neg hne] at h
  obtain ⟨⟨found, r₁⟩, hkey, h⟩ := bind_eq_ok.mp h
  obtain ⟨o, ho, hkey⟩ := bind_eq_ok.mp hkey
  dsimp only at ho
  have hwrap := wrap32_range (start + 1)
  cases o with
  | none =>
      obtain ⟨rfl, rfl⟩ := Prod.mk.inj (Except.ok.inj hkey)
      obtain ⟨rfl, rfl⟩ := Prod.mk.inj (Except.ok.inj h)
      exact ReadAt.formatError rfl rfl (by dsimp only; omega) (by dsimp only; omega)
        rfl rfl rfl rfl
  | some nul =>
      obtain ⟨rfl, rfl⟩ := Prod.mk.inj (Except.ok.inj hkey)
      obtain ⟨hn1, hn2, hn3, hn4⟩ := findNul_eq_some_iff.mp ho
      -- the increment cannot have wrapped: the search would have read a negative index
      have hnowrap : wrap32 (start + 1) = start + 1 := by
        by_contra hcon
        have hneg : wrap32 (start + 1) < 0 := by
          unfold wrap32 at hcon ⊢
          omega
        rcases eq_or_lt_of_le hn1 with heq | hlt
        · have := (range_of_byteAt hn3).1
          omega
        · obtain ⟨b', hb', -⟩ := hn4 _ le_rfl hlt
          have := (range_of_byteAt hb').1
          omega
      rw [hnowrap] at ho hn1 hn2
      obtain ⟨need, hneed, h⟩ := bind_eq_ok.mp h
      dsimp only at hneed h
      by_cases hbad : need < 0 ∨ r.curDocEnd < nul + 1 + need
      · rw [if_pos hbad] at h
        obtain ⟨rfl, rfl⟩ := Prod.mk.inj (Except.ok.inj h)
        exact ReadAt.formatError rfl rfl (by dsimp only; omega) (by dsimp only; omega)
          rfl rfl rfl rfl
      · rw [if_neg hbad] at h
        obtain ⟨rfl, rfl⟩ := Prod.mk.inj (Except.ok.inj h)
        rw [hnowrap]
        have hvalue : nul + 1 - 1 = nul := by omega
        have helem : ElementAt mem r.curDocEnd start (ofByte b) (slice mem (start + 1) nul)
            (nul + 1) need :=
          { typeByte := ⟨b, hb, rfl⟩
            nul := by rw [hvalue]; exact ho
            key_eq := by rw [hvalue]
            need_eq := hneed
            need_nonneg := by omega
            fits := by omega }
        exact ReadAt.element helem

/-- Reading an element never runs out of fuel: it stops only at a read out of bounds. -/
theorem readElement_ne_outOfFuel (mem : List UInt8) (start : ℤ) (r : BsonReader) :
    r.readElement mem start ≠ .error .outOfFuel := by
  intro h
  rcases bind_eq_error.mp h with h | ⟨b, -, h⟩
  · exact byteAt_ne_outOfFuel _ _ h
  dsimp only at h
  split at h
  · simp at h
  rcases bind_eq_error.mp h with h | ⟨⟨found, r₁⟩, -, h⟩
  · rcases bind_eq_error.mp h with h | ⟨o, -, h⟩
    · exact findNul_ne_outOfFuel _ _ _ h
    · cases o <;> simp at h
  · cases found with
    | false => simp at h
    | true =>
        rcases bind_eq_error.mp h with h | ⟨need, -, h⟩
        · exact valueSize_ne_outOfFuel _ _ _ h
        · split at h <;> simp at h

theorem next_ne_outOfFuel (mem : List UInt8) (r : BsonReader) :
    r.next mem ≠ .error .outOfFuel := by
  unfold next
  split
  · simp
  · intro h
    rcases bind_eq_error.mp h with h | ⟨start, -, h⟩
    · exact skipValue_ne_outOfFuel _ _ h
    · exact readElement_ne_outOfFuel _ _ _ h

end BsonReader

end ScApi
