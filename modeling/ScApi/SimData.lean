import ScApi.BsonElements

/-!
# Parsing sim data

`parseFromRaw` makes a `SimData` of a published buffer. It is given the buffer without its size
and takes the size from the buffer itself, and its loop leaves only at the end of the document:
`next` repeats an error for ever.

The buffer has passed `validate` before, so every element is complete. But `validate` does not
refuse a document that declares less than the five bytes of an empty one when the byte behind its
size is zero, and the constructor that `parseFromRaw` uses does.

## Main results

* `parseLoop_ok`: the loop ends on every chain of elements.
* `parseLoop_stuck`: it does not end on a reader that was rejected.
* `parseFromRaw_terminates_iff`: on a validated buffer, the parsing ends exactly when the document
  declares at least five bytes.
-/

open Bytes BoundedRead

namespace ScApi

open ElementType BsonReader

/-! ### The parsed data -/

/-- A `SimDataSubSection` with its id; `bsonPtr` is the offset of its document in the buffer. -/
structure SubSection (ι : Type) where
  id : ι
  bsonPtr : ℤ
  deriving DecidableEq, Repr

/-- `SimData::RawData`. Ids that are string views are kept as the bytes they view, but for that of
`sim`, which is viewed only when it is used; pointers into the buffer are offsets. -/
structure RawData where
  rawBson : List UInt8
  revision : ℕ := 0
  activeSessionIdx : ℤ := -1
  sim : Option (SubSection Span) := none
  vehicles : List (SubSection (List UInt8)) := []
  sessions : List (SubSection (List UInt8)) := []
  tracks : List (SubSection (List UInt8)) := []
  participants : List (SubSection ℤ) := []
  tires : List (SubSection ℤ) := []
  participantRawBson : Option ℤ := none
  vehiclesRawBson : Option ℤ := none
  tiresRawBson : Option ℤ := none
  deriving DecidableEq, Repr

/-- The value of a hexadecimal digit. -/
def hexDigit (c : UInt8) : Option ℤ :=
  if 48 ≤ c.toNat ∧ c.toNat ≤ 57 then some (c.toNat - 48)
  else if 65 ≤ c.toNat ∧ c.toNat ≤ 70 then some (c.toNat - 65 + 10)
  else if 97 ≤ c.toNat ∧ c.toNat ≤ 102 then some (c.toNat - 97 + 10)
  else none

/-- `convertStringNumericKey`: the number of a key of four hexadecimal digits, else -1. -/
def convertStringNumericKey (s : List UInt8) : ℤ :=
  if s.length ≠ 4 then -1
  else (s.foldlM (fun num c => (hexDigit c).map fun digit => num * 16 + digit) 0).getD (-1)

/-! ### The loops -/

/-- The id of a vehicle, session or track: its key. -/
def keyId (r : BsonReader) : Option (List UInt8) :=
  some r.key

/-- The id of a participant or a tire: the number that is its key. -/
def numericId (r : BsonReader) : Option ℤ :=
  if convertStringNumericKey r.key = -1 then none else some (convertStringNumericKey r.key)

variable {ι : Type}

/-- What one turn of an inner loop of `parseFromRaw` adds. -/
def newSection (idOf : BsonReader → Option ι) (t : ElementType) (r : BsonReader) :
    List (SubSection ι) :=
  match idOf r with
  | none => []
  | some id => if t = elementDoc then [⟨id, r.bufOffset⟩] else []

/-- An inner loop of `parseFromRaw`: the documents among the elements up to the end of the sub
document. Errors end it too, so it takes as many turns as `scan`. -/
def collect (mem : List UInt8) (idOf : BsonReader → Option ι) :
    ℕ → List (SubSection ι) → BsonReader → Read (List (SubSection ι) × BsonReader)
  | 0, _, _ => throw .outOfFuel
  | n + 1, found, r =>
      if r.atEnd then
        pure (found, r)
      else do
        let (t, r) ← r.next mem
        collect mem idOf n (found ++ newSection idOf t r) r

/-- An inner loop with the `beginSub` and the `endSub` around it. -/
def sections (mem : List UInt8) (idOf : BsonReader → Option ι) (found : List (SubSection ι))
    (r : BsonReader) : Read (List (SubSection ι) × BsonReader) := do
  let (_, r) ← r.beginSub mem
  let (found, r) ← collect mem idOf (r.curDocEnd.toNat + 2) found r
  pure (found, r.endSub.2)

/-- The variables of `parseFromRaw`; an empty string view has length zero. -/
structure ParseState where
  raw : RawData
  simDataPtr : Option ℤ := none
  activeSession : Span := ⟨0, 0⟩
  activeSim : Span := ⟨0, 0⟩
  deriving DecidableEq, Repr

/-- What the loop of `parseFromRaw` does with an element. -/
def parseElement (mem : List UInt8) (t : ElementType) (p : ParseState) (r : BsonReader) :
    Read (ParseState × BsonReader) :=
  if t = elementDoc then
    if r.key = ascii "vehicles" then do
      let doc ← r.subdocument mem
      let (vehicles, r) ← sections mem keyId p.raw.vehicles r
      let raw := { p.raw with vehicles, vehiclesRawBson := doc.map Span.offset }
      pure ({ p with raw }, r)
    else if r.key = ascii "participants" then do
      let doc ← r.subdocument mem
      let (participants, r) ← sections mem numericId p.raw.participants r
      let raw := { p.raw with participants, participantRawBson := doc.map Span.offset }
      pure ({ p with raw }, r)
    else if r.key = ascii "sessions" then do
      let (sessions, r) ← sections mem keyId p.raw.sessions r
      pure ({ p with raw := { p.raw with sessions } }, r)
    else if r.key = ascii "tracks" then do
      let (tracks, r) ← sections mem keyId p.raw.tracks r
      pure ({ p with raw := { p.raw with tracks } }, r)
    else if r.key = ascii "tires" then do
      let doc ← r.subdocument mem
      let (tires, r) ← sections mem numericId p.raw.tires r
      let raw := { p.raw with tires, tiresRawBson := doc.map Span.offset }
      pure ({ p with raw }, r)
    else if r.key = ascii "sim" then do
      let doc ← r.subdocument mem
      pure ({ p with simDataPtr := doc.map Span.offset }, r)
    else
      pure (p, r)
  else if t = elementStr then
    if r.key = ascii "active_session" then do
      let activeSession ← r.stringValue mem
      pure ({ p with activeSession }, r)
    else if r.key = ascii "active_sim" then do
      let activeSim ← r.stringValue mem
      pure ({ p with activeSim }, r)
    else
      pure (p, r)
  else
    pure (p, r)

/-- The loop of `parseFromRaw`. Only the end of the document ends it, so the number of its turns
is given from outside. -/
def parseLoop (mem : List UInt8) : ℕ → ParseState → BsonReader → Read ParseState
  | 0, _, _ => throw .outOfFuel
  | n + 1, p, r => do
      let (t, r) ← r.next mem
      if t = elementEnd then
        pure p
      else do
        let (p, r) ← parseElement mem t p r
        parseLoop mem n p r

/-- Equality of an id and a string view: the bytes are compared when the lengths are equal. -/
def viewEq (mem : List UInt8) (id : List UInt8) (view : Span) : Read Bool :=
  if id.length = view.length then do
    let bytes ← bytesAt mem view.offset view.length
    pure (id = bytes)
  else
    pure false

/-- The index of the first session whose id is the active one, from `idx` on. -/
def findActive (mem : List UInt8) (view : Span) : ℤ → List (SubSection (List UInt8)) → Read ℤ
  | _, [] => pure (-1)
  | idx, s :: rest => do
      if ← viewEq mem s.id view then
        pure idx
      else
        findActive mem view (idx + 1) rest

/-- The part of `parseFromRaw` behind its loop. -/
def finishParse (mem : List UInt8) (p : ParseState) : Read RawData := do
  let activeSessionIdx ← findActive mem p.activeSession 0 p.raw.sessions
  let sim := match p.simDataPtr with
    | some ptr => if p.activeSim.length = 0 then none else some ⟨p.activeSim, ptr⟩
    | none => none
  pure { p.raw with activeSessionIdx, sim }

/-- `SimData::parseFromRaw`; the null pointer is `none`. The revision is not stored. -/
def parseFromRaw (rawBson : Option (List UInt8)) (_revision : ℕ) (fuel : ℕ) :
    Read (Option RawData) :=
  match rawBson with
  | none => pure none
  | some mem => do
      let r ← ofBuffer (some mem)
      let p ← parseLoop mem fuel { raw := { rawBson := mem } } r
      let raw ← finishParse mem p
      pure (some raw)

/-! ### The loops on complete elements -/

/-- A string view that can be compared with an id: it lies in memory, or it is longer than any
key. -/
def Comparable (mem : List UInt8) (view : Span) : Prop :=
  (0 ≤ view.offset ∧ view.offset + view.length ≤ mem.length) ∨ 2147483648 ≤ view.length

/-- What the loop of `parseFromRaw` keeps: the ids of the sessions and the active session can be
compared. -/
structure ParseState.Ok (mem : List UInt8) (p : ParseState) : Prop where
  comparable : Comparable mem p.activeSession
  short : ∀ s ∈ p.raw.sessions, s.id.length < 2147483648

section

variable {mem : List UInt8} {r : BsonReader} {docEnd start value need count : ℤ}
  {t : ElementType} {key : List UInt8} {idOf : BsonReader → Option ι} {P : SubSection ι → Prop}

theorem forall_newSection (hP : ∀ r : BsonReader, r.key.length < 2147483648 → ∀ id,
    idOf r = some id → P ⟨id, r.bufOffset⟩) (hkey : t = elementDoc → r.key.length < 2147483648) :
    ∀ s ∈ newSection idOf t r, P s := by
  intro s hs
  rw [newSection] at hs
  cases hid : idOf r with
  | none => simp [hid] at hs
  | some id =>
      by_cases ht : t = elementDoc
      · obtain rfl : s = ⟨id, r.bufOffset⟩ := by simpa [hid, ht] using hs
        exact hP r (hkey ht) id hid
      · simp [hid, ht] at hs

/-- **An inner loop ends** on a chain of elements, at the end of the sub document. -/
theorem collect_ok (hP : ∀ r : BsonReader, r.key.length < 2147483648 → ∀ id,
      idOf r = some id → P ⟨id, r.bufOffset⟩)
    (hchain : ElementsFrom mem docEnd start) (hr : Before mem r start) (hend : r.curDocEnd = docEnd)
    {n : ℕ} (hn : 2 ≤ n) (hfuel : docEnd - start + 2 ≤ n) {found : List (SubSection ι)}
    (hfound : ∀ s ∈ found, P s) :
    ∃ found' r', collect mem idOf n found r = .ok (found', r') ∧ Inside mem r' ∧
      r'.curDocEnd = docEnd ∧ r'.docLayers = r.docLayers ∧ ∀ s ∈ found', P s := by
  induction hchain generalizing r n found with
  | @docEnd docEnd start hbyte =>
      obtain ⟨n, rfl⟩ : ∃ m, n = m + 2 := ⟨n - 2, by omega⟩
      have hstop : (r.atDocEnd start).atEnd = true := rfl
      refine ⟨found ++ newSection idOf elementEnd (r.atDocEnd start), _, ?_,
        hr.inside.next (hr.next_end hbyte), hend, rfl, ?_⟩
      · rw [collect, hr.not_atEnd, if_neg (by simp), hr.next_end hbyte, ok_bind]
        dsimp only
        rw [collect, hstop, if_pos rfl, pure_eq_ok]
      · intro s hs
        rcases List.mem_append.mp hs with hs | hs
        · exact hfound s hs
        · exact forall_newSection hP (fun h => absurd h (by decide)) s hs
  | @element docEnd start value need count t key h hcount body rest _ ih =>
      subst hend
      have hs := h.start_nonneg
      have hv := h.start_lt_value
      have hv' := h.value_le_docEnd
      have hlt := hr.inside.docEnd_lt
      have hkey := h.key_lt
      obtain ⟨h0, -⟩ := h.storedSize_range hcount
      obtain ⟨n, rfl⟩ : ∃ m, n = m + 1 := ⟨n - 1, by omega⟩
      have hnew : ∀ s ∈ found ++ newSection idOf t (r.atElement start t key value), P s := by
        intro s hs
        rcases List.mem_append.mp hs with hs | hs
        · exact hfound s hs
        · exact forall_newSection hP (fun _ => by dsimp only [atElement]; omega) s hs
      obtain ⟨found', r', hrun, hrest⟩ :=
        ih (n := n) (hr.atElement h hcount) rfl (by omega) (by push_cast at hfuel; omega) hnew
      refine ⟨found', r', ?_, hrest⟩
      rw [collect, hr.not_atEnd, if_neg (by simp), hr.next_element h, ok_bind]
      exact hrun

/-- The inner loop of a sub document with its `beginSub` and `endSub`: the reader is behind the
sub document. -/
theorem sections_ok (hP : ∀ r : BsonReader, r.key.length < 2147483648 → ∀ id,
      idOf r = some id → P ⟨id, r.bufOffset⟩)
    (hr : Before mem r start) (hl : r.docLayers = [])
    (h : ElementAt mem r.curDocEnd start t key value need) (hc : t.isContainer = true)
    (hbody : ElementsFrom mem (value + need) (wrap32 (value + 4)))
    {found : List (SubSection ι)} (hfound : ∀ s ∈ found, P s) :
    ∃ found' r', sections mem idOf found (r.atElement start t key value) = .ok (found', r') ∧
      Before mem r' (value + need) ∧ r'.curDocEnd = r.curDocEnd ∧ r'.docLayers = [] ∧
      ∀ s ∈ found', P s := by
  obtain ⟨hbegin, hsub⟩ := hr.beginSub h hc (by rw [hl]; decide)
  have hs := h.start_nonneg
  have hv := h.start_lt_value
  have hneed := h.need_nonneg
  have hfuel : value + need - wrap32 (value + 4) + 2 ≤ ((value + need).toNat + 2 : ℕ) := by
    have hlo : 0 ≤ wrap32 (value + 4) := by
      cases hbody with
      | docEnd hbyte => exact (range_of_byteAt hbyte).1
      | element helem => exact helem.start_nonneg
    omega
  obtain ⟨found', r', hrun, hin, hend, hlayers, hfound'⟩ :=
    collect_ok hP hbody hsub rfl (by omega) hfuel hfound
  obtain ⟨-, hlayers', hend', hbefore⟩ := Before.endSub hin (hlayers.trans rfl)
  rw [hend] at hbefore
  refine ⟨found', r'.endSub.2, ?_, hbefore, hend', hlayers'.trans hl, hfound'⟩
  rw [sections, hbegin, ok_bind]
  dsimp only
  rw [show ((r.atElement start t key value).inSub need).curDocEnd = value + need from rfl, hrun]
  rfl

/-- The string view of a string element can be compared. -/
theorem comparable_stringValue (hr : Before mem r start)
    (h : ElementAt mem r.curDocEnd start elementStr key value need) :
    ∃ view, (r.atElement start elementStr key value).stringValue mem = .ok view ∧
      Comparable mem view := by
  obtain ⟨n, hsize, hneed⟩ := bind_eq_ok.mp h.need_eq
  obtain rfl : wrap32 (n + 4) = need := Except.ok.inj hneed
  have hrange := i32At_range hsize
  have hs := h.start_nonneg
  have hv := h.start_lt_value
  have hneed0 := h.need_nonneg
  have hfits := h.fits
  have hmem := hr.inside.docEnd_le
  have hlt := hr.inside.docEnd_lt
  refine ⟨⟨value + 4, toSizeT (wrap32 (n - 1))⟩, ?_, ?_⟩
  · rw [stringValue, show (r.atElement start elementStr key value).bufOffset = value from rfl,
      hsize, ok_bind, pure_eq_ok]
  · by_cases hn : 1 ≤ n
    · left
      have hlen : (toSizeT (wrap32 (n - 1)) : ℤ) = n - 1 := by
        rw [wrap32_of_range (by omega) (by omega), toSizeT_of_nonneg (by omega) (by omega)]
      dsimp only
      rw [hlen]
      unfold wrap32 at hneed0 hfits
      omega
    · -- the size counts no terminator: the length has wrapped around
      right
      unfold wrap32 at hneed0
      dsimp only
      unfold toSizeT wrap32
      omega

/-- What the loop does with a complete element leaves the reader behind the element. -/
theorem parseElement_ok {p : ParseState} (hp : p.Ok mem) (hr : Before mem r start)
    (hl : r.docLayers = []) (h : ElementAt mem r.curDocEnd start t key value need)
    (hcount : storedSize mem value t = .ok count)
    (hbody : t.isContainer = true → ElementsFrom mem (value + need) (wrap32 (value + 4))) :
    ∃ p' r', parseElement mem t p (r.atElement start t key value) = .ok (p', r') ∧
      Before mem r' (value + count) ∧ r'.curDocEnd = r.curDocEnd ∧ r'.docLayers = [] ∧
      p'.Ok mem := by
  have hstay : ∀ p' : ParseState, p'.Ok mem → ∃ p'' r',
      (.ok (p', r.atElement start t key value) : Read (ParseState × BsonReader)) = .ok (p'', r') ∧
        Before mem r' (value + count) ∧ r'.curDocEnd = r.curDocEnd ∧ r'.docLayers = [] ∧
        p''.Ok mem :=
    fun p' hp' => ⟨p', _, rfl, hr.atElement h hcount, rfl, hl, hp'⟩
  have hkey : (r.atElement start t key value).key = key := rfl
  rw [parseElement, hkey]
  by_cases hdoc : t = elementDoc
  · subst hdoc
    have hbody := hbody rfl
    obtain rfl : need = count :=
      Except.ok.inj ((h.storedSize_of_container rfl).symm.trans hcount)
    have hspan : (r.atElement start elementDoc key value).subdocument mem
        = .ok (some ⟨value, toSizeT need⟩) := by
      have hcont : (r.atElement start elementDoc key value).curType.isContainer = true := rfl
      have hoff : (r.atElement start elementDoc key value).bufOffset = value := rfl
      rw [subdocument, if_pos hcont, hoff, h.i32At_of_container rfl, ok_bind, pure_eq_ok]
    have hkeyed : ∀ found : List (SubSection (List UInt8)),
        (∀ s ∈ found, s.id.length < 2147483648) → ∃ found' r',
          sections mem keyId found (r.atElement start elementDoc key value) = .ok (found', r') ∧
          Before mem r' (value + need) ∧ r'.curDocEnd = r.curDocEnd ∧ r'.docLayers = [] ∧
          ∀ s ∈ found', s.id.length < 2147483648 := fun found hfound =>
      sections_ok (fun r hr id hid => by rw [← Option.some.inj hid]; exact hr) hr hl h rfl hbody
        hfound
    have hany : ∀ {ι : Type} (idOf : BsonReader → Option ι) (found : List (SubSection ι)),
        ∃ found' r',
          sections mem idOf found (r.atElement start elementDoc key value) = .ok (found', r') ∧
          Before mem r' (value + need) ∧ r'.curDocEnd = r.curDocEnd ∧ r'.docLayers = [] ∧
          ∀ s ∈ found', True := fun idOf found =>
      sections_ok (fun _ _ _ _ => trivial) hr hl h rfl hbody fun _ _ => trivial
    rw [if_pos rfl]
    split
    · obtain ⟨vehicles, r', hrun, hr', hend', hl', -⟩ := hany keyId p.raw.vehicles
      rw [hspan, ok_bind, hrun]
      exact ⟨_, r', rfl, hr', hend', hl', hp.comparable, hp.short⟩
    split
    · obtain ⟨participants, r', hrun, hr', hend', hl', -⟩ := hany numericId p.raw.participants
      rw [hspan, ok_bind, hrun]
      exact ⟨_, r', rfl, hr', hend', hl', hp.comparable, hp.short⟩
    split
    · obtain ⟨sessions, r', hrun, hr', hend', hl', hshort⟩ := hkeyed p.raw.sessions hp.short
      rw [hrun]
      exact ⟨_, r', rfl, hr', hend', hl', hp.comparable, hshort⟩
    split
    · obtain ⟨tracks, r', hrun, hr', hend', hl', -⟩ := hany keyId p.raw.tracks
      rw [hrun]
      exact ⟨_, r', rfl, hr', hend', hl', hp.comparable, hp.short⟩
    split
    · obtain ⟨tires, r', hrun, hr', hend', hl', -⟩ := hany numericId p.raw.tires
      rw [hspan, ok_bind, hrun]
      exact ⟨_, r', rfl, hr', hend', hl', hp.comparable, hp.short⟩
    split
    · rw [hspan]
      exact hstay _ ⟨hp.comparable, hp.short⟩
    · exact hstay p hp
  rw [if_neg hdoc]
  by_cases hstr : t = elementStr
  · subst hstr
    obtain ⟨view, hview, hcomparable⟩ := comparable_stringValue hr h
    rw [if_pos rfl]
    split
    · rw [hview]
      exact hstay _ ⟨hcomparable, hp.short⟩
    split
    · rw [hview]
      exact hstay _ ⟨hp.comparable, hp.short⟩
    · exact hstay p hp
  · rw [if_neg hstr]
    exact hstay p hp

/-- **The loop ends** on a chain of elements. -/
theorem parseLoop_ok (hchain : ElementsFrom mem docEnd start) (hr : Before mem r start)
    (hend : r.curDocEnd = docEnd) (hl : r.docLayers = []) {p : ParseState} (hp : p.Ok mem) :
    ∃ n p', parseLoop mem n p r = .ok p' ∧ p'.Ok mem := by
  induction hchain generalizing r p with
  | @docEnd docEnd start hbyte =>
      refine ⟨1, p, ?_, hp⟩
      rw [parseLoop, hr.next_end hbyte]
      rfl
  | @element docEnd start value need count t key h hcount body _ _ ih =>
      subst hend
      obtain ⟨p₁, r₁, hrun, hr₁, hend₁, hl₁, hp₁⟩ := parseElement_ok hp hr hl h hcount body
      obtain ⟨n, p', hloop, hp'⟩ := ih hr₁ hend₁ hl₁ hp₁
      have hne : t ≠ elementEnd := by
        rintro rfl
        exact absurd h.pos (by decide)
      refine ⟨n + 1, p', ?_, hp'⟩
      rw [parseLoop, hr.next_element h, ok_bind]
      dsimp only
      rw [if_neg hne, hrun]
      exact hloop

/-- **The loop does not end** on a reader that was rejected: `next` repeats the error. -/
theorem parseLoop_stuck (hr : r.curType = elementFormatError) (n : ℕ) (p : ParseState) :
    parseLoop mem n p r = .error .outOfFuel := by
  have hnext : r.next mem = .ok (elementFormatError, r) := by
    have hended : elementFormatError.ended = true := rfl
    rw [BsonReader.next, hr, if_pos hended, pure_eq_ok]
  induction n with
  | zero => rfl
  | succ n ih =>
      rw [parseLoop, hnext]
      exact ih

theorem findActive_ok {view : Span} (hview : Comparable mem view)
    {l : List (SubSection (List UInt8))} (hshort : ∀ s ∈ l, s.id.length < 2147483648) (idx : ℤ) :
    ∃ i, findActive mem view idx l = .ok i := by
  induction l generalizing idx with
  | nil => exact ⟨-1, rfl⟩
  | cons s rest ih =>
      obtain ⟨b, hb⟩ : ∃ b, viewEq mem s.id view = .ok b := by
        rw [viewEq]
        by_cases hlen : s.id.length = view.length
        · have hs := hshort s List.mem_cons_self
          rcases hview with ⟨h0, h1⟩ | hlong
          · have hbytes := bytesAt_eq_ok_iff.mpr ⟨h0, h1, rfl⟩
            exact ⟨_, by rw [if_pos hlen, hbytes]; rfl⟩
          · omega
        · exact ⟨false, if_neg hlen⟩
      rw [findActive, hb, ok_bind]
      cases b with
      | true => exact ⟨idx, rfl⟩
      | false => exact ih (fun s hs => hshort s (List.mem_cons_of_mem _ hs)) (idx + 1)

theorem finishParse_ok {p : ParseState} (hp : p.Ok mem) : ∃ raw, finishParse mem p = .ok raw := by
  obtain ⟨i, hi⟩ := findActive_ok hp.comparable hp.short 0
  exact ⟨_, by rw [finishParse, hi]; rfl⟩

end

/-! ### Termination -/

/-- **The parsing of a validated buffer ends exactly when the document declares at least the five
bytes of an empty document.** The fuel bounds the turns of the loop. -/
theorem parseFromRaw_terminates_iff {mem : List UInt8} {s : ℕ} (hs : s ≤ mem.length)
    (hvalid : validate mem s = .ok true) (revision : ℕ) :
    (∃ fuel data, parseFromRaw (some mem) revision fuel = .ok data) ↔
      ∃ docSize, getTotalDocumentSize mem = .ok docSize ∧ 5 ≤ docSize := by
  obtain ⟨docSize, hsize, h0, hle, hchain⟩ := elementsFrom_of_validate hs hvalid
  have hrange := i32At_range hsize
  have hcast := toSizeT_of_nonneg h0 hrange.2
  constructor
  · rintro ⟨fuel, data, hrun⟩
    refine ⟨docSize, hsize, ?_⟩
    by_contra hsmall
    have hctor : ofBuffer (some mem) = .ok (rejected (toSizeT docSize)) := by
      rw [ofBuffer, hsize, ok_bind, if_pos (by omega), pure_eq_ok]
    rw [parseFromRaw, hctor, ok_bind, parseLoop_stuck rfl] at hrun
    exact absurd hrun (by simp)
  · rintro ⟨docSize', hsize', h5⟩
    obtain rfl : docSize = docSize' := Except.ok.inj (hsize.symm.trans hsize')
    have hctor : ofBuffer (some mem) = .ok (accepted (toSizeT docSize) docSize) := by
      rw [ofBuffer, hsize, ok_bind, if_neg (by omega), pure_eq_ok]
    have hin : Inside mem (accepted (toSizeT docSize) docSize) :=
      inside_accepted h0 hrange.2 (by omega)
    have hp : ParseState.Ok mem { raw := { rawBson := mem } } :=
      { comparable := Or.inl ⟨le_rfl, by simp⟩
        short := by simp }
    obtain ⟨n, p', hloop, hp'⟩ := parseLoop_ok hchain (hin.before rfl) rfl rfl hp
    obtain ⟨raw, hraw⟩ := finishParse_ok hp'
    exact ⟨n, some raw, by rw [parseFromRaw, hctor, ok_bind, hloop, ok_bind, hraw]; rfl⟩

/-- A document with a section of two tracks, the first one with a number in it, and a number behind it. -/
def trackDocument : List UInt8 :=
  [48, 0, 0, 0, 0x03] ++ ascii "tracks" ++ [0, 28, 0, 0, 0,
    0x03, 97, 0, 12, 0, 0, 0, 0x10, 98, 0, 7, 0, 0, 0, 0,
    0x03, 99, 0, 5, 0, 0, 0, 0, 0,
    0x10, 100, 0, 8, 0, 0, 0, 0]

theorem parseFromRaw_tracks :
    ∃ fuel data, parseFromRaw (some trackDocument) 0 fuel = .ok data := by
  have hlen : 48 ≤ trackDocument.length := by decide
  exact (parseFromRaw_terminates_iff hlen (by decide +kernel) 0).mpr ⟨48, by decide, by decide⟩

/-- Five zero bytes are valid, and are parsed for ever. -/
theorem not_terminates_of_validate :
    ¬ ∀ mem : List UInt8, validate mem mem.length = .ok true →
      ∃ fuel data, parseFromRaw (some mem) 0 fuel = .ok data := by
  intro h
  obtain ⟨fuel, data, hrun⟩ := h [0, 0, 0, 0, 0] (by decide)
  have hctor : ofBuffer (some [0, 0, 0, 0, 0]) = .ok (rejected 0) := by decide +kernel
  rw [parseFromRaw, hctor, ok_bind, parseLoop_stuck rfl] at hrun
  exact absurd hrun (by simp)

end ScApi
