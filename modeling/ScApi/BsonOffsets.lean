import ScApi.BsonVisits

/-!
# Going back to an offset

A client that is on an element takes `elementOffset`, goes on in the same document, and comes back with
`seek`. The offset holds the index of the element, and `seek` restores it before it calls `next`, which
counts the element again: in an array the index is one too high. Positions in front of the begin of the
document are refused, and the begin stays that of the last sub document that was left.

## Main results

* `next_placed`: the begin of the document and the size of the buffer play no part in `next`.
* `seek_offset`: what `seek` does from a later position.
* `seek_back_iff`: when it comes back to the element.
-/

open Bytes BoundedRead Bson

namespace ScApi

open ElementType

namespace BsonReader

/-- The reader with another begin of the document, and another size of the buffer. -/
def placed (r : BsonReader) (size : ℕ) (docBegin : ℤ) : BsonReader :=
  { r with size, curDocBegin := docBegin }

/-- **The reader is back on an element**: an accessor, an offset or a further `next` does not tell it
from the reader that was there. -/
structure BackOn (mem : List UInt8) (r r' : BsonReader) : Prop where
  type : r'.curType = r.curType
  key : r'.key = r.key
  value : r'.leafValue mem = r.leafValue mem ∧ r'.subdocument mem = r.subdocument mem ∧
    r'.rawElement mem = r.rawElement mem
  index : r'.arrIndex = r.arrIndex
  offset : r'.elementOffset = r.elementOffset
  following : ∀ n, following mem n r' = following mem n r

/-- From `q`, `seek` to the offset of the element that `r` is on returns to it. -/
def SeeksBack (mem : List UInt8) (r q : BsonReader) : Prop :=
  ∃ r', q.seek mem r.elementOffset = .ok (r.curType, r') ∧ BackOn mem r r'

section Offsets

variable {mem : List UInt8} {r r' q : BsonReader} {t : ElementType}

/-- **The begin of the document and the size of the buffer play no part in `next`.** -/
theorem next_placed (mem : List UInt8) (r : BsonReader) (size : ℕ) (docBegin : ℤ) :
    (r.placed size docBegin).next mem
      = (r.next mem).map fun p => (p.1, p.2.placed size docBegin) := by
  have hread : ∀ start, (r.placed size docBegin).readElement mem start
      = (r.readElement mem start).map fun p => (p.1, p.2.placed size docBegin) := by
    intro start
    rw [readElement, readElement]
    cases byteAt mem start with
    | error e => rfl
    | ok b =>
        rw [ok_bind, ok_bind]
        dsimp only
        split_ifs with hend
        · rfl
        · rw [readKey, readKey]
          dsimp only [placed]
          cases findNul mem (r.curDocEnd - wrap32 (start + 1)).toNat (wrap32 (start + 1)) with
          | error e => rfl
          | ok found =>
              cases found with
              | none => rfl
              | some nul =>
                  rw [ok_bind, ok_bind]
                  simp only [pure_eq_ok, ok_bind]
                  cases valueSize mem (nul + 1) (ofByte b) with
                  | error e => rfl
                  | ok need =>
                      rw [ok_bind, ok_bind]
                      split_ifs <;> rfl
  rw [BsonReader.next, BsonReader.next]
  have htype : (r.placed size docBegin).curType = r.curType := rfl
  have hskip : (r.placed size docBegin).skipValue mem = r.skipValue mem := rfl
  rw [htype, hskip]
  split_ifs
  · rfl
  · cases r.skipValue mem with
    | error e => rfl
    | ok start => exact hread start

/-- What `next` is going to report does not depend on them. -/
theorem following_placed (mem : List UInt8) (size : ℕ) (docBegin : ℤ) (n : ℕ) (r : BsonReader) :
    following mem n (r.placed size docBegin) = following mem n r := by
  induction n generalizing r with
  | zero => rfl
  | succ n ih =>
      rw [following, following, next_placed]
      cases r.next mem with
      | error e => rfl
      | ok p =>
          rw [Except.map, ok_bind, ok_bind]
          dsimp only
          rw [ih p.2]
          rfl

theorem backOn_placed (mem : List UInt8) (r : BsonReader) (size : ℕ) (docBegin : ℤ) :
    BackOn mem r (r.placed size docBegin) :=
  ⟨rfl, rfl, ⟨rfl, rfl, rfl⟩, rfl, rfl, fun n => following_placed mem size docBegin n r⟩

/-- **What `seek` does from a later position**: it reads the element again and counts it again, unless
the document begins behind it. -/
theorem seek_offset {r₀ : BsonReader} (h₀ : Inside mem r₀) (hnext : r₀.next mem = .ok (t, r))
    (hpos : 0 < t.value) (hq : Inside mem q) (hend : q.curDocEnd = r.curDocEnd)
    (hlayers : q.docLayers = r.docLayers) :
    q.seek mem r.elementOffset =
      if q.curDocBegin ≤ r.elementStartOffset then
        .ok (r.curType, { r.placed q.size q.curDocBegin with arrIndex := nextArrIndex r.arrIndex })
      else .ok (elementUnsupported, q) := by
  rcases h₀.next_cases hnext with ⟨hended, rfl, -⟩ | ⟨start, -, -, -, hread⟩
  · rw [ended_of_pos hpos] at hended
    cases hended
  cases hread with
  | docEnd => exact absurd hpos (by decide)
  | formatError => exact absurd hpos (by decide)
  | @element t key value need helem =>
      have hlt : start < q.curDocEnd := by
        have hvalue := helem.value_le_docEnd
        have hstart := helem.start_lt_value
        have hdocEnd : q.curDocEnd = r₀.curDocEnd := hend
        omega
      rw [BsonReader.seek]
      have hoffset : (r₀.atElement start t key value).elementOffset
          = ⟨start, nextArrIndex r₀.arrIndex⟩ := rfl
      have hstart : (r₀.atElement start t key value).elementStartOffset = start := rfl
      rw [hoffset, hstart]
      by_cases hin : q.curDocBegin ≤ start
      · have hjump := (hq.jump (o := ⟨start, nextArrIndex r₀.arrIndex⟩) hin hlt).before rfl
        have helem' : ElementAt mem q.curDocEnd start t key value need := hend ▸ helem
        rw [if_pos ⟨hin, hlt⟩, if_pos hin, hjump.next_element helem', atElement, placed, atElement]
        dsimp only
        rw [hend, hlayers]
        rfl
      · rw [if_neg fun h => hin h.1, if_neg hin, pure_eq_ok]

/-- The calls that do not leave the document keep its end and its layers. -/
theorem same_document {offsets : List ElementOffset} {c : Client} (h : Inside mem r)
    (hlater : Visits mem r.docLayers.length ⟨r, offsets⟩ c)
    (hlevel : c.reader.docLayers.length = r.docLayers.length) :
    Inside mem c.reader ∧ c.reader.curDocEnd = r.curDocEnd ∧ c.reader.docLayers = r.docLayers := by
  have hkept : Kept mem r c.reader := Kept.visits (Kept.refl h) rfl hlater
  have hends := hkept.ends.eq_of_length (by
    rw [BsonReader.ends, BsonReader.ends, List.length_cons, List.length_cons, List.length_map,
      List.length_map, hlevel])
  exact ⟨hkept.inside, (List.cons.inj hends).1.symm, (hkept.layers.eq_of_length hlevel.symm).symm⟩

/-- **When `seek` returns to an element** that `next` visited, from a later position in the same
document: when its index is not counted, and the document does not begin behind it. -/
theorem seek_back_iff {calls : List Call} {c₁ c₂ : Client} {offsets : List ElementOffset}
    (hrun : Client.run mem calls = .ok c₁) (hnext : c₁.reader.next mem = .ok (t, r))
    (hpos : 0 < t.value) (hlater : Visits mem r.docLayers.length ⟨r, offsets⟩ c₂)
    (hlevel : c₂.reader.docLayers.length = r.docLayers.length) :
    SeeksBack mem r c₂.reader ↔
      ¬ -1 ≤ r.arrIndex ∧ c₂.reader.curDocBegin ≤ r.elementStartOffset := by
  have h₁ := Client.run_inside hrun
  have htype := next_type h₁ hnext
  obtain ⟨hq, hend, hlayers⟩ := same_document (h₁.next hnext) hlater hlevel
  rw [SeeksBack, seek_offset h₁ hnext hpos hq hend hlayers, ← nextArrIndex_eq_iff]
  split_ifs with hin
  · rw [and_iff_left hin]
    constructor
    · rintro ⟨r', heq, hback⟩
      obtain ⟨-, rfl⟩ := Prod.mk.inj (Except.ok.inj heq)
      exact hback.index
    · intro hindex
      rw [hindex]
      exact ⟨_, rfl, backOn_placed mem r _ _⟩
  · refine iff_of_false ?_ fun h => hin h.2
    rintro ⟨r', heq, -⟩
    obtain ⟨hunsupported, -⟩ := Prod.mk.inj (Except.ok.inj heq)
    rw [htype] at hunsupported
    rw [← hunsupported] at hpos
    exact absurd hpos (by decide)

end Offsets

/-- The number in front of the document is found again from the end. -/
theorem seek_back_nested :
    SeeksBack nestedDocument ((accepted 27 27).atElement 4 elementI32 [97] 7)
      (nestedClient.reader.atDocEnd 26) := by
  have hrun : Client.run nestedDocument [] = .ok ⟨accepted 27 27, []⟩ := by decide +kernel
  have hnext : (accepted 27 27).next nestedDocument
      = .ok (elementI32, (accepted 27 27).atElement 4 elementI32 [97] 7) := by decide +kernel
  have hlater : Visits nestedDocument 0 ⟨(accepted 27 27).atElement 4 elementI32 [97] 7, []⟩
      ⟨nestedClient.reader.atDocEnd 26, []⟩ :=
    .call (k := .next) (.call (k := .next) .refl
      (show _ = Except.ok nestedClient by decide +kernel) (by decide)) (by decide +kernel) (by decide)
  exact (seek_back_iff hrun hnext (by decide) hlater rfl).mpr ⟨by decide, by decide⟩

/-- In an array the index is one too high, and an element in front of a sub document that was left is
refused. -/
theorem not_seeks_back :
    (∃ c₁ t r, Client.run arrayDocument [.next, .beginSub] = .ok c₁ ∧
      c₁.reader.next arrayDocument = .ok (t, r) ∧ t = elementI32 ∧ r.arrIndex = 0 ∧
      ((r.seek arrayDocument r.elementOffset).map fun p => (p.1, p.2.key, p.2.arrIndex))
        = .ok (elementI32, r.key, 1) ∧
      ¬ SeeksBack arrayDocument r r) ∧
    (∃ c₁ t r c₂, Client.run nestedDocument [.next] = .ok c₁ ∧
      c₁.reader.next nestedDocument = .ok (t, r) ∧ t = elementDoc ∧
      Visits nestedDocument 0 ⟨r, []⟩ c₂ ∧ c₂.reader.docLayers.length = 0 ∧
      (c₂.reader.seek nestedDocument r.elementOffset).map Prod.fst = .ok elementUnsupported ∧
      ¬ SeeksBack nestedDocument r c₂.reader) := by
  constructor
  · have hseek : (((arrayReader.atElement 11 elementI32 [48] 14).seek arrayDocument
        ⟨11, 0⟩).map fun p => (p.1, p.2.key, p.2.arrIndex)) = .ok (elementI32, [48], 1) := by
      decide +kernel
    refine ⟨⟨arrayReader, []⟩, elementI32, arrayReader.atElement 11 elementI32 [48] 14,
      by decide +kernel, by decide +kernel, rfl, rfl, hseek, ?_⟩
    rintro ⟨r', heq, hback⟩
    have hindex : r'.arrIndex = 0 := hback.index
    have hagain := congrArg (Except.map fun p => (p.1, p.2.key, p.2.arrIndex)) heq
    rw [show (arrayReader.atElement 11 elementI32 [48] 14).elementOffset = ⟨11, 0⟩ from rfl,
      hseek] at hagain
    simp only [Except.map, Except.ok.injEq, Prod.mk.injEq] at hagain
    omega
  · have hseek : (nestedBack.seek nestedDocument nestedClient.reader.elementOffset).map Prod.fst
        = .ok elementUnsupported := by decide +kernel
    have hbegin : Visits nestedDocument 0 nestedClient ⟨nestedClient.reader.inSub 12, []⟩ :=
      .call (k := .beginSub) .refl (by decide +kernel) (by decide)
    refine ⟨⟨(accepted 27 27).atElement 4 elementI32 [97] 7, []⟩, elementDoc, nestedClient.reader,
      ⟨nestedBack, []⟩, by decide +kernel, by decide +kernel, rfl,
      .call (k := .endSub) hbegin (by decide +kernel) (by decide), rfl, hseek, ?_⟩
    rintro ⟨r', heq, -⟩
    rw [heq] at hseek
    cases hseek

end BsonReader

end ScApi
