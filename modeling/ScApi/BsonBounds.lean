import ScApi.BsonNext

/-!
# Bounds that every reader keeps

`Inside` is the invariant of a reader over a memory: the document it is in, and every document
around it, lies in memory, and the value of the current element fits into the document. The
member functions keep it, whatever the bytes are, and it bounds the loops: every element starts
behind the one before.

## Main results

* `inside_ofBufferSize`: the two-argument constructor establishes the invariant.
* `Inside.next`, `Inside.beginSub`, `Inside.endSub`, `Inside.seekBegin`: every move keeps it.
* `scan_closed`, `validateLoop_closed`: what the moves keep, the loops keep.
* `scan_error`, `validateLoop_error`: a loop stops only where a move stops.
* `scan_ne_outOfFuel`, `validateHere_ne_outOfFuel`: the loops end on every memory.
-/

open Bytes BoundedRead

namespace ScApi

open ElementType

namespace BsonReader

/-- **The invariant of a reader.** -/
structure Inside (mem : List UInt8) (r : BsonReader) : Prop where
  docEnd_nonneg : 0 ≤ r.curDocEnd
  docEnd_lt : r.curDocEnd < 2147483648
  docEnd_le : r.curDocEnd ≤ mem.length
  begin_range : -2147483648 ≤ r.curDocBegin ∧ r.curDocBegin < 2147483648
  bufOffset_range : -2147483648 ≤ r.bufOffset ∧ r.bufOffset < 2147483648
  supported : r.curType ≠ elementUnsupported
  layers : ∀ d ∈ r.docLayers,
    r.curDocEnd ≤ d.endOffset ∧ d.endOffset < 2147483648 ∧ d.endOffset ≤ mem.length
  nested : r.docLayers.Pairwise fun d d' => d.endOffset ≤ d'.endOffset
  current : 0 < r.curType.value →
    0 ≤ r.elementStartOffset ∧ r.elementStartOffset + 1 < r.bufOffset ∧
      ∃ need, valueSize mem r.bufOffset r.curType = .ok need ∧ 0 ≤ need ∧
        r.bufOffset + need ≤ r.curDocEnd

/-- The reader before the first element of the document of `docSize` bytes that is its current
element. -/
def inSub (r : BsonReader) (docSize : ℤ) : BsonReader :=
  { r with
    docLayers := ⟨r.curDocBegin, r.curDocEnd, r.arrIndex⟩ :: r.docLayers
    curDocEnd := r.bufOffset + docSize
    bufOffset := wrap32 (r.bufOffset + 4)
    curDocBegin := wrap32 (r.bufOffset + 4)
    arrIndex := if r.curType = elementArray then -1 else -2
    curType := elementInternalDocBegin }

variable {mem : List UInt8}

/-! ### Establishing the invariant -/

theorem inside_rejected (size : ℕ) : Inside mem (rejected size) where
  docEnd_nonneg := le_rfl
  docEnd_lt := by simp [rejected, fresh]
  docEnd_le := Int.natCast_nonneg _
  begin_range := by simp [rejected, fresh]
  bufOffset_range := by simp [rejected, fresh]
  supported := by simp [rejected, fresh]
  layers := by simp [rejected, fresh]
  nested := List.Pairwise.nil
  current := fun h => absurd h (by simp [rejected, fresh, value])

theorem inside_accepted {size : ℕ} {docSize : ℤ} (h0 : 0 ≤ docSize) (h1 : docSize < 2147483648)
    (h2 : docSize ≤ mem.length) : Inside mem (accepted size docSize) where
  docEnd_nonneg := h0
  docEnd_lt := h1
  docEnd_le := h2
  begin_range := by simp [accepted, fresh]
  bufOffset_range := by simp [accepted, fresh]
  supported := by simp [accepted, fresh]
  layers := by simp [accepted, fresh]
  nested := List.Pairwise.nil
  current := fun h => absurd h (by simp [accepted, fresh, value])

theorem toSizeT_of_nonneg {n : ℤ} (h0 : 0 ≤ n) (h1 : n < 2147483648) :
    (toSizeT n : ℤ) = n := by
  unfold toSizeT
  omega

/-- What the two-argument constructor makes of a buffer. -/
theorem ofBufferSize_cases {size : ℕ} {r : BsonReader}
    (h : ofBufferSize (some mem) size = .ok r) :
    r = rejected size ∨
      ∃ docSize, i32At mem 0 = .ok docSize ∧ 0 ≤ docSize ∧ docSize ≤ size ∧ 5 ≤ size ∧
        r = accepted size docSize := by
  rw [ofBufferSize] at h
  by_cases hlen : size < 5
  · rw [if_pos hlen] at h
    exact Or.inl (Except.ok.inj h).symm
  rw [if_neg hlen] at h
  obtain ⟨docSize, hsize, h⟩ := bind_eq_ok.mp h
  by_cases hbad : docSize < 0 ∨ size < toSizeT docSize
  · rw [if_pos hbad] at h
    exact Or.inl (Except.ok.inj h).symm
  · rw [if_neg hbad] at h
    have h0 : 0 ≤ docSize := by omega
    have hcast := toSizeT_of_nonneg h0 (i32At_range hsize).2
    exact Or.inr ⟨docSize, hsize, h0, by omega, by omega, (Except.ok.inj h).symm⟩

theorem ofBufferSize_ne_outOfFuel (buffer : Option (List UInt8)) (size : ℕ) :
    ofBufferSize buffer size ≠ .error .outOfFuel := by
  intro h
  cases buffer with
  | none => simp [ofBufferSize] at h
  | some mem =>
    rw [ofBufferSize] at h
    split at h
    · simp at h
    rcases bind_eq_error.mp h with h | ⟨docSize, -, h⟩
    · exact i32At_ne_outOfFuel _ _ h
    · split at h <;> simp at h

theorem inside_ofBufferSize {size : ℕ} (hsize : size ≤ mem.length) {r : BsonReader}
    (h : ofBufferSize (some mem) size = .ok r) : Inside mem r := by
  rcases ofBufferSize_cases h with rfl | ⟨docSize, hdoc, h0, hle, -, rfl⟩
  · exact inside_rejected size
  · exact inside_accepted h0 (i32At_range hdoc).2 (by omega)

/-! ### Single moves -/

namespace Inside

variable {r r' : BsonReader} {t : ElementType}

/-- The value of the current element can be skipped, and ends inside the document. -/
theorem skipValue_current (hr : Inside mem r) (ht : 0 < r.curType.value) :
    ∃ start, r.skipValue mem = .ok start ∧ r.bufOffset ≤ start ∧ start ≤ r.curDocEnd := by
  obtain ⟨h0, h1, need, hneed, hn, hfit⟩ := hr.current ht
  obtain ⟨a, ha, ha0, han⟩ := storedSize_of_valueSize hneed hn
  have hend := hr.docEnd_lt
  exact ⟨_, skipValue_eq ha ha0 (by omega) (by omega), by omega, by omega⟩

/-- The span of the whole element ends where its value ends. -/
theorem rawElement_current (hr : Inside mem r) (hpos : 0 < r.curType.value) :
    ∃ a need, r.rawElement mem
        = .ok (some ⟨r.elementStartOffset, toSizeT (r.bufOffset + a - r.elementStartOffset)⟩) ∧
      storedSize mem r.bufOffset r.curType = .ok a ∧ 0 ≤ a ∧ a ≤ need ∧
      valueSize mem r.bufOffset r.curType = .ok need ∧ r.bufOffset + need ≤ r.curDocEnd := by
  obtain ⟨hs0, hs1, need, hneed, hn, hfit⟩ := hr.current hpos
  obtain ⟨a, ha, ha0, han⟩ := storedSize_of_valueSize hneed hn
  have hend := hr.docEnd_lt
  have hdiff : wrap32 (r.bufOffset - r.elementStartOffset)
      = r.bufOffset - r.elementStartOffset := wrap32_of_range (by omega) (by omega)
  have hlen : wrap32 (r.bufOffset - r.elementStartOffset + a)
      = r.bufOffset + a - r.elementStartOffset := by
    rw [wrap32_of_range (by omega) (by omega)]
    omega
  refine ⟨a, need, ?_, ha, ha0, han, hneed, hfit⟩
  unfold rawElement
  cases hct : r.curType <;> rw [hct] at hpos ha <;> first
    | exact absurd hpos (by decide)
    | simp only [ha, ok_bind, pure_eq_ok, hdiff, hlen]

theorem skipValue_begin (hr : Inside mem r) (ht : r.curType = elementInternalDocBegin) :
    r.skipValue mem = .ok r.bufOffset := by
  have hrange := hr.bufOffset_range
  have hwrap : wrap32 (r.bufOffset + 0) = r.bufOffset := by
    rw [add_zero]
    exact wrap32_of_range hrange.1 hrange.2
  rw [skipValue, ht, storedSize, pure_eq_ok, ok_bind, hwrap, pure_eq_ok]

/-- A reader that has not ended is at an element or before the first one. -/
theorem pos_or_begin (hr : Inside mem r) (ht : r.curType.ended = false) :
    0 < r.curType.value ∨ r.curType = elementInternalDocBegin := by
  have := hr.supported
  cases h : r.curType <;> simp_all [value, ended]

theorem exists_skipValue (hr : Inside mem r) (ht : r.curType.ended = false) :
    ∃ start, r.skipValue mem = .ok start ∧ start < 2147483648 := by
  have hend := hr.docEnd_lt
  rcases hr.pos_or_begin ht with hpos | hbegin
  · obtain ⟨start, hs, -, hle⟩ := hr.skipValue_current hpos
    exact ⟨start, hs, by omega⟩
  · exact ⟨_, hr.skipValue_begin hbegin, hr.bufOffset_range.2⟩

/-- **One call of `next`**: it repeats the end of an ended iteration, or reads what starts
behind the current value. -/
theorem next_cases (hr : Inside mem r) (h : r.next mem = .ok (t, r')) :
    (r.curType.ended = true ∧ t = r.curType ∧ r' = r) ∨
      ∃ start, r.curType.ended = false ∧ r.skipValue mem = .ok start ∧ start < 2147483648 ∧
        ReadAt mem start r t r' := by
  unfold next at h
  by_cases ht : r.curType.ended = true
  · rw [if_pos ht] at h
    obtain ⟨rfl, rfl⟩ := Prod.mk.inj (Except.ok.inj h)
    exact Or.inl ⟨ht, rfl, rfl⟩
  · rw [if_neg ht] at h
    obtain ⟨start, hs, h⟩ := bind_eq_ok.mp h
    have hf : r.curType.ended = false := by simpa using ht
    obtain ⟨start', hs', hlt⟩ := hr.exists_skipValue hf
    rw [hs] at hs'
    obtain rfl := Except.ok.inj hs'
    exact Or.inr ⟨start, hf, hs, hlt, readElement_cases hlt h⟩

theorem next_of_skipValue {start : ℤ} (ht : r.curType.ended = false)
    (hs : r.skipValue mem = .ok start) : r.next mem = r.readElement mem start := by
  rw [next, ht, if_neg (by simp), hs, ok_bind]

/-- The reader that `readElement` leaves is inside the memory again. -/
theorem readAt {start : ℤ} (hr : Inside mem r) (h : ReadAt mem start r t r') :
    Inside mem r' := by
  have hend := hr.docEnd_lt
  cases h with
  | docEnd hbyte =>
      exact { hr with
        bufOffset_range := wrap32_range _
        supported := by simp [atDocEnd]
        current := fun hpos => absurd hpos (by simp [atDocEnd, value]) }
  | formatError htype hstart hlo hhi hlayers hbegin hdoc hindex =>
      exact {
        docEnd_nonneg := by rw [hdoc]; exact hr.docEnd_nonneg
        docEnd_lt := by rw [hdoc]; exact hr.docEnd_lt
        docEnd_le := by rw [hdoc]; exact hr.docEnd_le
        begin_range := by rw [hbegin]; exact hr.begin_range
        bufOffset_range := by omega
        supported := by simp [htype]
        layers := by rw [hdoc, hlayers]; exact hr.layers
        nested := by rw [hlayers]; exact hr.nested
        current := fun hpos => absurd hpos (by simp [htype, value]) }
  | element h =>
      have h0 := h.start_nonneg
      have h1 := h.start_lt_value
      have h2 := h.value_le_docEnd
      exact { hr with
        bufOffset_range := by dsimp only [atElement]; omega
        supported := by
          intro ht
          have hpos := h.pos
          rw [show t = elementUnsupported from ht] at hpos
          exact absurd hpos (by decide)
        current := fun _ => ⟨h0, h1, _, h.need_eq, h.need_nonneg, h.fits⟩ }

/-- `next` keeps the invariant. -/
theorem next (hr : Inside mem r) (h : r.next mem = .ok (t, r')) : Inside mem r' := by
  rcases hr.next_cases h with ⟨-, -, rfl⟩ | ⟨start, -, -, -, hread⟩
  · exact hr
  · exact hr.readAt hread

/-- `seekBegin` keeps the invariant. -/
theorem seekBegin (hr : Inside mem r) : Inside mem r.seekBegin :=
  { hr with
    bufOffset_range := hr.begin_range
    supported := by simp [BsonReader.seekBegin]
    current := fun hpos => absurd hpos (by simp [BsonReader.seekBegin, value]) }

/-- Setting the offset for a `seek` keeps the invariant. -/
theorem jump {o : ElementOffset} (hr : Inside mem r) (h0 : r.curDocBegin ≤ o.offset)
    (h1 : o.offset < r.curDocEnd) :
    Inside mem { r with
      curType := elementInternalDocBegin, bufOffset := o.offset, arrIndex := o.arrIndex } := by
  have hend := hr.docEnd_lt
  have hbegin := hr.begin_range.1
  exact { hr with
    bufOffset_range := by dsimp only; omega
    supported := by simp
    current := fun hpos => absurd hpos (by simp [value]) }

/-- The two outcomes of `beginSub`. -/
theorem beginSub_cases (hr : Inside mem r) {b : Bool} (h : r.beginSub mem = .ok (b, r')) :
    (b = false ∧ r' = r) ∨
      ∃ docSize, r.curType.isContainer = true ∧ i32At mem r.bufOffset = .ok docSize ∧
        0 ≤ docSize ∧ r.bufOffset + docSize ≤ r.curDocEnd ∧
        r.docLayers.length ≠ kMaxSubdocs ∧ b = true ∧ r' = r.inSub docSize := by
  rw [beginSub] at h
  by_cases hc : r.curType.isContainer = true
  · rw [if_neg (by simp [hc])] at h
    by_cases hl : r.docLayers.length = kMaxSubdocs
    · rw [if_pos hl] at h
      obtain ⟨rfl, rfl⟩ := Prod.mk.inj (Except.ok.inj h)
      exact Or.inl ⟨rfl, rfl⟩
    rw [if_neg hl] at h
    obtain ⟨docSize, hsize, h⟩ := bind_eq_ok.mp h
    obtain ⟨rfl, rfl⟩ := Prod.mk.inj (Except.ok.inj h)
    obtain ⟨h0, h1, need, hneed, hn, hfit⟩ := hr.current (pos_of_container hc)
    have hneed' : need = docSize := by
      cases ht : r.curType <;> rw [ht] at hc hneed <;> first
        | exact absurd hc (by decide)
        | (rw [valueSize, hsize] at hneed; exact (Except.ok.inj hneed).symm)
    subst hneed'
    have hend := hr.docEnd_lt
    have hwrap : wrap32 (r.bufOffset + need) = r.bufOffset + need :=
      wrap32_of_range (by omega) (by omega)
    exact Or.inr ⟨need, hc, hsize, hn, hfit, hl, rfl, by rw [hwrap, inSub]⟩
  · rw [if_pos (by simp [hc])] at h
    obtain ⟨rfl, rfl⟩ := Prod.mk.inj (Except.ok.inj h)
    exact Or.inl ⟨rfl, rfl⟩

/-- `beginSub` keeps the invariant: the sub document ends inside the document around it. -/
theorem beginSub (hr : Inside mem r) {b : Bool} (h : r.beginSub mem = .ok (b, r')) :
    Inside mem r' := by
  rcases hr.beginSub_cases h with ⟨-, rfl⟩ | ⟨docSize, hc, -, h0, hfit, -, -, rfl⟩
  · exact hr
  obtain ⟨hs0, hs1, -⟩ := hr.current (pos_of_container hc)
  have hend := hr.docEnd_lt
  have hmem := hr.docEnd_le
  exact {
    docEnd_nonneg := by dsimp only [inSub]; omega
    docEnd_lt := by dsimp only [inSub]; omega
    docEnd_le := by dsimp only [inSub]; omega
    begin_range := wrap32_range _
    bufOffset_range := wrap32_range _
    supported := by simp [inSub]
    layers := by
      intro d hd
      rcases List.mem_cons.mp hd with rfl | hd
      · exact ⟨hfit, hend, hmem⟩
      · obtain ⟨h1, h2⟩ := hr.layers d hd
        exact ⟨by dsimp only [inSub]; omega, h2⟩
    nested := List.pairwise_cons.mpr ⟨fun d hd => (hr.layers d hd).1, hr.nested⟩
    current := fun hpos => absurd hpos (by simp [inSub, value]) }

/-- `endSub` keeps the invariant. -/
theorem endSub (hr : Inside mem r) : Inside mem r.endSub.2 := by
  unfold BsonReader.endSub
  cases hl : r.docLayers with
  | nil => exact hr
  | cons d layers =>
      have hlayers := hr.layers
      have hnested := hr.nested
      rw [hl] at hlayers hnested
      obtain ⟨hd1, hd2, hd3⟩ := hlayers d List.mem_cons_self
      have h0 := hr.docEnd_nonneg
      have h1 := hr.docEnd_lt
      exact {
        docEnd_nonneg := by dsimp only; omega
        docEnd_lt := hd2
        docEnd_le := hd3
        begin_range := hr.begin_range
        bufOffset_range := by dsimp only; omega
        supported := by simp
        layers := by
          intro d' hd'
          obtain ⟨-, h2⟩ := hlayers d' (List.mem_cons_of_mem _ hd')
          exact ⟨(List.pairwise_cons.mp hnested).1 d' hd', h2⟩
        nested := (List.pairwise_cons.mp hnested).2
        current := fun hpos => absurd hpos (by simp [value]) }

end Inside

/-! ### Loops

A loop is a sequence of moves, so a property that the moves keep is kept by the loop, and a loop
that stops has stopped in a move.
-/

theorem ReadAt.frame {r r' : BsonReader} {start : ℤ} {t : ElementType}
    (h : ReadAt mem start r t r') :
    r'.curType = t ∧ r'.curDocEnd = r.curDocEnd ∧ r'.docLayers = r.docLayers ∧
      r'.elementStartOffset = start := by
  cases h with
  | docEnd hbyte => exact ⟨rfl, rfl, rfl, rfl⟩
  | formatError htype hstart hlo hhi hlayers hbegin hdoc hindex =>
      exact ⟨htype, hdoc, hlayers, hstart⟩
  | element h => exact ⟨rfl, rfl, rfl, rfl⟩

section Loops

variable {P : BsonReader → Prop} {found : BsonReader → Bool}

theorem scan_closed (hP : ∀ {r t r'}, P r → r.next mem = .ok (t, r') → P r') {n : ℕ}
    {t t' : ElementType} {r r' : BsonReader} (hr : P r)
    (h : scan mem found n t r = .ok (t', r')) : P r' := by
  induction n generalizing t r with
  | zero => simp [scan] at h
  | succ n ih =>
      rw [scan] at h
      by_cases ht : 0 < t.value
      · rw [if_pos ht] at h
        by_cases hf : found r = true
        · rw [if_pos hf] at h
          obtain ⟨-, rfl⟩ := Prod.mk.inj (Except.ok.inj h)
          exact hr
        · rw [if_neg hf] at h
          obtain ⟨⟨t₁, r₁⟩, hnext, h⟩ := bind_eq_ok.mp h
          exact ih (hP hr hnext) h
      · rw [if_neg ht] at h
        obtain ⟨-, rfl⟩ := Prod.mk.inj (Except.ok.inj h)
        exact hr

/-- A search that stops has stopped in a call of `next`. -/
theorem scan_error (hP : ∀ {r t r'}, P r → r.next mem = .ok (t, r') → P r') {n : ℕ}
    {t : ElementType} {r : BsonReader} {e : Stop} (hr : P r) (he : e ≠ .outOfFuel)
    (h : scan mem found n t r = .error e) : ∃ r₁, P r₁ ∧ r₁.next mem = .error e := by
  induction n generalizing t r with
  | zero => exact absurd (Except.error.inj h).symm he
  | succ n ih =>
      rw [scan] at h
      split at h
      · split at h
        · simp at h
        · rcases bind_eq_error.mp h with h | ⟨⟨t₁, r₁⟩, hnext, h⟩
          · exact ⟨r, hr, h⟩
          · exact ih (hP hr hnext) h
      · simp at h

/-- **One turn of the validation**: a call of `next`, and on its result the end of the loop, the
end of a sub document, the begin of one, or the next element. -/
inductive TurnCase (mem : List UInt8) (depth : ℕ) (r : BsonReader) : Turn → BsonReader → Prop
  | formatError {r₁ : BsonReader} (h : r.next mem = .ok (elementFormatError, r₁)) :
      TurnCase mem depth r (.leave false) r₁
  | docEnd {r₁ : BsonReader} (hdepth : depth = 0) (h : r.next mem = .ok (elementEnd, r₁)) :
      TurnCase mem depth r (.leave true) r₁
  | endSub {r₁ : BsonReader} {d : ℕ} (hdepth : depth = d + 1)
      (h : r.next mem = .ok (elementEnd, r₁)) :
      TurnCase mem depth r (if r₁.endSub.1 then .again d else .leave false) r₁.endSub.2
  | beginSub {t : ElementType} {r₁ r₂ : BsonReader} {b : Bool} (ht : t.isContainer = true)
      (h : r.next mem = .ok (t, r₁)) (hb : r₁.beginSub mem = .ok (b, r₂)) :
      TurnCase mem depth r (if b then .again (depth + 1) else .leave false) r₂
  | value {t : ElementType} {r₁ : BsonReader} (ht : t.isContainer = false)
      (hf : t ≠ elementFormatError) (hne : t ≠ elementEnd) (h : r.next mem = .ok (t, r₁)) :
      TurnCase mem depth r (.again depth) r₁

theorem validateTurn_cases {depth : ℕ} {turn : Turn} {r r' : BsonReader}
    (h : validateTurn mem depth r = .ok (turn, r')) : TurnCase mem depth r turn r' := by
  obtain ⟨⟨t, r₁⟩, hn, h⟩ := bind_eq_ok.mp h
  dsimp only at h
  by_cases hf : t = elementFormatError
  · subst hf
    obtain ⟨rfl, rfl⟩ := Prod.mk.inj (Except.ok.inj h)
    exact TurnCase.formatError hn
  rw [if_neg hf] at h
  by_cases hend : t = elementEnd
  · subst hend
    cases depth with
    | zero =>
        obtain ⟨rfl, rfl⟩ := Prod.mk.inj (Except.ok.inj h)
        exact TurnCase.docEnd rfl hn
    | succ d =>
        obtain ⟨rfl, rfl⟩ := Prod.mk.inj (Except.ok.inj h)
        exact TurnCase.endSub rfl hn
  rw [if_neg hend] at h
  by_cases hc : t.isContainer = true
  · rw [if_pos hc] at h
    obtain ⟨⟨b, r₂⟩, hb, h⟩ := bind_eq_ok.mp h
    obtain ⟨rfl, rfl⟩ := Prod.mk.inj (Except.ok.inj h)
    exact TurnCase.beginSub hc hn hb
  · rw [if_neg hc] at h
    obtain ⟨rfl, rfl⟩ := Prod.mk.inj (Except.ok.inj h)
    exact TurnCase.value (by simpa using hc) hf hend hn

theorem validateTurn_error {depth : ℕ} {r : BsonReader} {e : Stop}
    (h : validateTurn mem depth r = .error e) :
    r.next mem = .error e ∨
      ∃ t r₁, r.next mem = .ok (t, r₁) ∧ r₁.beginSub mem = .error e := by
  rcases bind_eq_error.mp h with h | ⟨⟨t, r₁⟩, hn, h⟩
  · exact Or.inl h
  dsimp only at h
  split at h
  · simp at h
  split at h
  · cases depth <;> simp at h
  split at h
  · rcases bind_eq_error.mp h with h | ⟨p, -, h⟩
    · exact Or.inr ⟨t, r₁, hn, h⟩
    · simp at h
  · simp at h

/-- What the moves keep, a turn keeps. -/
theorem TurnCase.closed (hnext : ∀ {r t r'}, P r → r.next mem = .ok (t, r') → P r')
    (hbegin : ∀ {r b r'}, P r → r.beginSub mem = .ok (b, r') → P r')
    (hend : ∀ {r}, P r → P r.endSub.2) {depth : ℕ} {turn : Turn} {r r' : BsonReader} (hr : P r)
    (h : TurnCase mem depth r turn r') : P r' := by
  cases h with
  | formatError h => exact hnext hr h
  | docEnd hdepth h => exact hnext hr h
  | endSub hdepth h => exact hend (hnext hr h)
  | beginSub ht h hb => exact hbegin (hnext hr h) hb
  | value ht hf hne h => exact hnext hr h

theorem validateLoop_closed (hnext : ∀ {r t r'}, P r → r.next mem = .ok (t, r') → P r')
    (hbegin : ∀ {r b r'}, P r → r.beginSub mem = .ok (b, r') → P r')
    (hend : ∀ {r}, P r → P r.endSub.2) {n depth : ℕ} {r r' : BsonReader} {b : Bool} (hr : P r)
    (h : validateLoop mem n depth r = .ok (b, r')) : P r' := by
  induction n generalizing depth r with
  | zero => simp [validateLoop] at h
  | succ n ih =>
      obtain ⟨⟨turn, r₁⟩, hturn, h⟩ := bind_eq_ok.mp h
      have hr₁ := (validateTurn_cases hturn).closed hnext hbegin hend hr
      cases turn with
      | leave valid =>
          obtain ⟨-, rfl⟩ := Prod.mk.inj (Except.ok.inj h)
          exact hr₁
      | again depth => exact ih hr₁ h

/-- A validation that stops has stopped in a call of `next` or `beginSub`. -/
theorem validateLoop_error (hnext : ∀ {r t r'}, P r → r.next mem = .ok (t, r') → P r')
    (hbegin : ∀ {r b r'}, P r → r.beginSub mem = .ok (b, r') → P r')
    (hend : ∀ {r}, P r → P r.endSub.2) {n depth : ℕ} {r : BsonReader} {e : Stop} (hr : P r)
    (he : e ≠ .outOfFuel) (h : validateLoop mem n depth r = .error e) :
    ∃ r₁, P r₁ ∧ (r₁.next mem = .error e ∨ r₁.beginSub mem = .error e) := by
  induction n generalizing depth r with
  | zero => exact absurd (Except.error.inj h).symm he
  | succ n ih =>
      rcases bind_eq_error.mp h with h | ⟨⟨turn, r₁⟩, hturn, h⟩
      · rcases validateTurn_error h with h | ⟨t, r₁, hn, h⟩
        · exact ⟨r, hr, Or.inl h⟩
        · exact ⟨r₁, hnext hr hn, Or.inr h⟩
      have hr₁ := (validateTurn_cases hturn).closed hnext hbegin hend hr
      cases turn with
      | leave valid => simp at h
      | again depth => exact ih hr₁ h

end Loops

/-! ### The loops end -/

/-- Elements start ever later in the document, which bounds the search. -/
theorem scan_ne_outOfFuel {found : BsonReader → Bool} {n : ℕ} {r : BsonReader}
    (hr : Inside mem r) (hn : 1 ≤ n)
    (hfuel : 0 < r.curType.value → r.curDocEnd - r.elementStartOffset < n) :
    scan mem found n r.curType r ≠ .error .outOfFuel := by
  induction n generalizing r with
  | zero => omega
  | succ n ih =>
      rw [scan]
      by_cases ht : 0 < r.curType.value
      · rw [if_pos ht]
        split
        · simp
        intro h
        rcases bind_eq_error.mp h with h | ⟨⟨t₁, r₁⟩, hnext, h⟩
        · exact next_ne_outOfFuel _ _ h
        obtain ⟨hs0, hs1, need, -, hn0, hfit⟩ := hr.current ht
        have hfuel' := hfuel ht
        push_cast at hfuel'
        rcases hr.next_cases hnext with ⟨hended, -, -⟩ | ⟨start, -, hs, -, hread⟩
        · rw [ended_of_pos ht] at hended
          exact absurd hended (by simp)
        obtain ⟨htype, hdoc, -, hstart⟩ := hread.frame
        obtain ⟨start', hs', hle, -⟩ := hr.skipValue_current ht
        rw [hs] at hs'
        obtain rfl := Except.ok.inj hs'
        subst htype
        exact ih (hr.next hnext) (by omega) (fun _ => by rw [hdoc, hstart]; omega) h
      · rw [if_neg ht]
        simp

/-- The search behind a call of `next` has fuel enough. -/
theorem searchFrom_ne_outOfFuel {found : BsonReader → Bool} {o : ElementOffset} {r : BsonReader}
    (hr : Inside mem r) : searchFrom mem found o r ≠ .error .outOfFuel := by
  intro h
  rcases bind_eq_error.mp h with h | ⟨⟨t₁, r₁⟩, hnext, h⟩
  · exact next_ne_outOfFuel _ _ h
  have hr₁ := hr.next hnext
  obtain rfl : r₁.curType = t₁ := by
    rcases hr.next_cases hnext with ⟨-, rfl, rfl⟩ | ⟨start, -, -, -, hread⟩
    · rfl
    · exact hread.frame.1
  rcases bind_eq_error.mp h with h | ⟨⟨t₂, r₂⟩, -, h⟩
  · refine scan_ne_outOfFuel hr₁ (by omega) (fun hpos => ?_) h
    obtain ⟨hs0, -, -⟩ := hr₁.current hpos
    push_cast
    omega
  · dsimp only at h
    split at h
    · rcases bind_eq_error.mp h with h | ⟨p, -, h⟩
      · unfold seek at h
        split at h
        · exact next_ne_outOfFuel _ _ h
        · simp at h
      · simp at h
    · simp at h

theorem beginSub_ne_outOfFuel (mem : List UInt8) (r : BsonReader) :
    r.beginSub mem ≠ .error .outOfFuel := by
  unfold BsonReader.beginSub
  split
  · simp
  split
  · simp
  · intro h
    rcases bind_eq_error.mp h with h | ⟨n, -, h⟩
    · exact i32At_ne_outOfFuel _ _ h
    · simp at h

namespace Inside

variable {r r₁ r₂ : BsonReader} {start : ℤ}

/-- A call of `next` on a reader that has not ended starts behind the current value. -/
theorem next_start {t : ElementType} (hr : Inside mem r) (ht : r.curType.ended = false)
    (h : r.next mem = .ok (t, r₁)) :
    ∃ start, r.skipValue mem = .ok start ∧ ReadAt mem start r t r₁ := by
  rcases hr.next_cases h with ⟨hended, -, -⟩ | ⟨start, -, hs, -, hread⟩
  · rw [ht] at hended
    exact absurd hended (by simp)
  · exact ⟨start, hs, hread⟩

/-- After `endSub`, reading goes on at the end of the sub document. -/
theorem endSub_start (hr : Inside mem r) (h : r.endSub.1 = true) :
    ∃ d layers, r.docLayers = d :: layers ∧ r.curDocEnd ≤ d.endOffset ∧
      r.endSub.2.docLayers = layers ∧ r.endSub.2.curDocEnd = d.endOffset ∧
      r.endSub.2.curType = elementInternalDocBegin ∧
      r.endSub.2.skipValue mem = .ok r.curDocEnd := by
  have hsub := hr.endSub
  cases hl : r.docLayers with
  | nil => simp [BsonReader.endSub, hl] at h
  | cons d layers =>
      have hd := (hr.layers d (by rw [hl]; exact List.mem_cons_self)).1
      have htype : r.endSub.2.curType = elementInternalDocBegin := by
        simp [BsonReader.endSub, hl]
      have hskip := hsub.skipValue_begin htype
      have hoff : r.endSub.2.bufOffset = r.curDocEnd := by simp [BsonReader.endSub, hl]
      rw [hoff] at hskip
      exact ⟨d, layers, rfl, hd, by simp [BsonReader.endSub, hl], by simp [BsonReader.endSub, hl],
        htype, hskip⟩

/-- After `beginSub`, reading goes on behind the size of the sub document. -/
theorem beginSub_start (hr : Inside mem r) (h : r.beginSub mem = .ok (true, r₁)) :
    ∃ docSize, r.curType.isContainer = true ∧ i32At mem r.bufOffset = .ok docSize ∧
      0 ≤ docSize ∧ r.bufOffset + docSize ≤ r.curDocEnd ∧ r₁ = r.inSub docSize ∧
      r₁.skipValue mem = .ok (wrap32 (r.bufOffset + 4)) := by
  rcases hr.beginSub_cases h with ⟨hb, -⟩ | ⟨docSize, hc, hsize, h0, hfit, -, -, rfl⟩
  · exact absurd hb (by simp)
  · exact ⟨docSize, hc, hsize, h0, hfit, rfl, (hr.beginSub h).skipValue_begin rfl⟩

end Inside

/-- **The fuel a validation needs.** The measure is twice the number of bytes, up to the end `E` of
the outermost document, that have not been passed for good, plus the nesting depth: an element
passes at least its type byte, and the end of a sub document passes nothing but leaves a
level. A sub document of fewer than four bytes lets the reader go back a few bytes, but only
to the end of that sub document, which `min` accounts for. -/
structure Budget (mem : List UInt8) (E : ℤ) (depth n : ℕ) (r : BsonReader) : Prop where
  inside : Inside mem r
  docEnd_le : r.curDocEnd ≤ E
  layers : ∀ d ∈ r.docLayers.take depth, d.endOffset ≤ E
  running : depth = 0 ∨ r.curType.ended = false
  pos : 1 ≤ n
  fuel : ∀ start, r.skipValue mem = .ok start → 0 ≤ start →
    2 * (E - min start r.curDocEnd) + depth < n

/-- An element that the validation meets: it has used up two bytes of the budget. -/
theorem Budget.element {E : ℤ} {depth n : ℕ} {r r₁ : BsonReader} {t : ElementType}
    (hr : Budget mem E depth (n + 1) r) (h : r.next mem = .ok (t, r₁)) (hf : t ≠ elementFormatError)
    (hne : t ≠ elementEnd) :
    ∃ start, 0 < t.value ∧ r₁.curType = t ∧ r₁.curDocEnd = r.curDocEnd ∧
      r₁.docLayers = r.docLayers ∧ start + 2 ≤ r₁.bufOffset ∧ r₁.bufOffset ≤ r.curDocEnd ∧
      2 * (E - start) + depth < n + 1 := by
  rcases hr.inside.next_cases h with ⟨hended, rfl, -⟩ | ⟨start, -, hs, -, hread⟩
  · have := hr.inside.supported
    cases ht : r.curType <;> simp_all [ended]
  · cases hread with
    | docEnd hbyte => exact absurd rfl hne
    | formatError => exact absurd rfl hf
    | element helem =>
        have h0 := helem.start_nonneg
        have h1 := helem.start_lt_value
        have h2 := helem.value_le_docEnd
        have hfuel := hr.fuel start hs h0
        push_cast at hfuel
        refine ⟨start, helem.pos, rfl, rfl, rfl, ?_, ?_, by omega⟩ <;>
          dsimp only [atElement] <;> omega

/-- Every turn that goes on pays for itself. -/
theorem Budget.again {E : ℤ} {depth d n : ℕ} {r r' : BsonReader}
    (hr : Budget mem E depth (n + 1) r) (h : TurnCase mem depth r (.again d) r') :
    Budget mem E d n r' := by
  have hE := hr.docEnd_le
  have hinside := (h.closed (fun hP hn => Inside.next hP hn)
    (fun hP hb => Inside.beginSub hP hb) (fun hP => Inside.endSub hP) hr.inside)
  generalize hturn : Turn.again d = turn at h
  cases h with
  | formatError h => simp at hturn
  | docEnd hdepth h => simp at hturn
  | @endSub r₁ d' hdepth h =>
      have hr₁ := hr.inside.next h
      by_cases hsub : r₁.endSub.1 = true
      · rw [if_pos hsub] at hturn
        obtain rfl := Turn.again.inj hturn
        have hrun : r.curType.ended = false := hr.running.resolve_left (by omega)
        obtain ⟨start, hs, hread⟩ := hr.inside.next_start hrun h
        obtain ⟨-, hdoc, hdl, -⟩ := hread.frame
        obtain ⟨l, layers, hcons, hle, hl, hend, htype, hskip⟩ := hr₁.endSub_start hsub
        rw [hdoc] at hle hskip
        rw [hdl] at hcons
        have hlayers := hr.layers
        rw [hcons, hdepth, List.take_succ_cons] at hlayers
        have h0 : 0 ≤ start := by
          cases hread with
          | docEnd hbyte => exact (range_of_byteAt hbyte).1
          | element helem => exact helem.start_nonneg
        have hfuel := hr.fuel start hs h0
        exact {
          inside := hinside
          docEnd_le := by rw [hend]; exact hlayers l List.mem_cons_self
          layers := by rw [hl]; exact fun m hm => hlayers m (List.mem_cons_of_mem _ hm)
          running := Or.inr (by rw [htype]; rfl)
          pos := by omega
          fuel := by
            intro s hs' _
            rw [hskip] at hs'
            obtain rfl := Except.ok.inj hs'
            rw [hend]
            omega }
      · rw [if_neg hsub] at hturn
        simp at hturn
  | @beginSub t r₁ _ b ht h hb =>
      cases b with
      | false => simp at hturn
      | true =>
          obtain rfl := Turn.again.inj hturn
          have hf : t ≠ elementFormatError := by
            rintro rfl
            exact absurd ht (by decide)
          have hne : t ≠ elementEnd := by
            rintro rfl
            exact absurd ht (by decide)
          obtain ⟨start, -, -, hdoc, hdl, hoff, hle, hfuel⟩ := hr.element h hf hne
          have hr₁ := hr.inside.next h
          obtain ⟨docSize, -, -, h0, hfit, rfl, hskip⟩ := hr₁.beginSub_start hb
          have hrange := hr₁.bufOffset_range
          exact {
            inside := hinside
            docEnd_le := by dsimp only [inSub]; omega
            layers := by
              dsimp only [inSub]
              rw [List.take_succ_cons, hdl]
              intro l hl
              rcases List.mem_cons.mp hl with rfl | hl
              · dsimp only; omega
              · exact hr.layers l hl
            running := Or.inr rfl
            pos := by omega
            fuel := by
              intro s hs hs0
              rw [hskip] at hs
              obtain rfl := Except.ok.inj hs
              dsimp only [inSub]
              unfold wrap32 at hs0 ⊢
              push_cast
              omega }
  | @value t r₁ ht hf hne h =>
      obtain rfl := Turn.again.inj hturn
      obtain ⟨start, hpos, htype, hdoc, hdl, hoff, hle, hfuel⟩ := hr.element h hf hne
      obtain ⟨start', hs', hlo, hhi⟩ := hinside.skipValue_current (htype ▸ hpos)
      exact {
        inside := hinside
        docEnd_le := hdoc ▸ hE
        layers := by rw [hdl]; exact hr.layers
        running := Or.inr (htype ▸ ended_of_pos hpos)
        pos := by omega
        fuel := by
          intro s hs _
          rw [hs'] at hs
          obtain rfl := Except.ok.inj hs
          omega }

/-- A validation with a budget does not run out of fuel. -/
theorem Budget.ne_outOfFuel {E : ℤ} {n depth : ℕ} {r : BsonReader}
    (hr : Budget mem E depth n r) : validateLoop mem n depth r ≠ .error .outOfFuel := by
  induction n generalizing depth r with
  | zero => exact absurd hr.pos (by omega)
  | succ n ih =>
      intro h
      rcases bind_eq_error.mp h with h | ⟨⟨turn, r'⟩, hturn, h⟩
      · rcases validateTurn_error h with h | ⟨t, r₁, -, h⟩
        · exact next_ne_outOfFuel _ _ h
        · exact beginSub_ne_outOfFuel _ _ h
      cases turn with
      | leave valid => simp at h
      | again d => exact ih (hr.again (validateTurn_cases hturn)) h

/-- **The validation ends**, whatever the bytes are and whatever the reader did before. -/
theorem validateHere_ne_outOfFuel {r : BsonReader} (hr : Inside mem r) :
    r.validateHere mem ≠ .error .outOfFuel := by
  have h0 := hr.docEnd_nonneg
  have hbudget : Budget mem r.curDocEnd 0 (2 * r.curDocEnd.toNat + 2) r :=
    { inside := hr
      docEnd_le := le_rfl
      layers := by simp
      running := Or.inl rfl
      pos := by omega
      fuel := by
        intro start _ hstart
        push_cast
        omega }
  exact hbudget.ne_outOfFuel

end BsonReader

end ScApi
