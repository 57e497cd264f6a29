import ScApi.Lib.FuelLoop
import ScApi.BsonVisits
import ScApi.RegisterGrant

/-!
# The validation of a document ends

The loop of `validate` goes back in the buffer: the end of a sub document is where its size says, and a
size below four lies in front of the bytes that were read. It ends anyway. The elements of a document
start ever later, and the bytes that are read again are the ends of documents, of which there is one for
each that was entered. The bytes in the buffer and its size do not matter, and neither does what the
reader was used for before.

A size may be larger than the buffer: then a turn may fail that reads behind it, and every other turn is
one on a longer buffer. A constructor without a size takes a negative one for the end of the document:
there are no elements in front of it, so that the first turn is the last.

## Main results

* `Used.fit`: what is known of every reader.
* `turns_lt`: how many turns the loop makes at most.
* `extends_validate`: the bytes behind the buffer do not matter if they are not read.
* `validate_ends`: the loop ends.
-/

open Bytes BoundedRead FuelLoop

namespace ScApi

open ElementType BsonReader

/-! ### Readers in use -/

/-- **A client of a reader**, which a constructor has made for the bytes with any size or with none, and
on which any calls have been made. -/
inductive Used (mem : List UInt8) : Client → Prop
  | sized {size : ℕ} {r : BsonReader} (h : ofBufferSize (some mem) size = .ok r) : Used mem ⟨r, []⟩
  | unsized {r : BsonReader} (h : ofBuffer (some mem) = .ok r) : Used mem ⟨r, []⟩
  | call {c c' : Client} {k : Call} (h : Used mem c) (hcall : c.call mem k = .ok c') : Used mem c'

namespace BsonReader

/-- The document of the reader has a negative size, and no element of it is read. -/
structure Negative (r : BsonReader) : Prop where
  docEnd : r.curDocEnd < 0
  docBegin : 0 ≤ r.curDocBegin
  layers : r.docLayers = []
  notOn : ¬ 0 < r.curType.value
  supported : r.curType ≠ elementUnsupported

section Negative

variable {mem : List UInt8} {r r' : BsonReader} {t : ElementType} {b : Bool}

/-- **There is nothing to read in front of a negative end.** -/
theorem Negative.next (h : Negative r) (hnext : r.next mem = .ok (t, r')) :
    Negative r' ∧ (t = elementEnd ∨ t = elementFormatError) := by
  obtain ⟨hend, hbegin, hlayers, hoff, hsupported⟩ := h
  rw [BsonReader.next] at hnext
  by_cases hended : r.curType.ended = true
  · rw [if_pos hended] at hnext
    obtain ⟨rfl, rfl⟩ := Prod.mk.inj (Except.ok.inj hnext)
    refine ⟨⟨hend, hbegin, hlayers, hoff, hsupported⟩, ?_⟩
    cases htype : r.curType <;> simp_all [ended]
  · rw [if_neg hended] at hnext
    obtain ⟨start, hskip, hread⟩ := bind_eq_ok.mp hnext
    have hstart : start < 2147483648 := by
      obtain ⟨count, -, hstart⟩ := bind_eq_ok.mp hskip
      rw [← Except.ok.inj hstart]
      exact (wrap32_range _).2
    cases readElement_cases hstart hread with
    | docEnd => exact ⟨⟨hend, hbegin, hlayers, by simp [atDocEnd, value], by simp [atDocEnd]⟩, .inl rfl⟩
    | formatError htype _ _ _ hlayers' hbegin' hend' =>
        exact ⟨⟨hend' ▸ hend, hbegin' ▸ hbegin, hlayers' ▸ hlayers, by simp [htype, value],
          by simp [htype]⟩, .inr rfl⟩
    | element h =>
        have := h.value_le_docEnd
        have := h.start_nonneg
        have := h.start_lt_value
        omega

theorem Negative.beginSub (h : Negative r) (hbegin : r.beginSub mem = .ok (b, r')) : Negative r' := by
  have hnot : r.curType.isContainer = false := by
    by_contra hc
    exact h.notOn (pos_of_container (by simpa using hc))
  rw [BsonReader.beginSub, hnot, if_pos (by simp)] at hbegin
  obtain ⟨-, rfl⟩ := Prod.mk.inj (Except.ok.inj hbegin)
  exact h

theorem Negative.endSub (h : Negative r) : Negative r.endSub.2 := by
  rw [BsonReader.endSub, h.layers]
  exact h

theorem Negative.seekBegin (h : Negative r) : Negative r.seekBegin :=
  ⟨h.docEnd, h.docBegin, h.layers, by simp [BsonReader.seekBegin, value],
    by simp [BsonReader.seekBegin]⟩

end Negative

/-! ### What is known of every reader -/

/-- **The invariant of a reader in use**: it is inside of a longer buffer, or its size is negative. -/
def Fit (mem : List UInt8) (r : BsonReader) : Prop :=
  Inside mem r ∨ Negative r

section Fit

variable {mem rest : List UInt8} {r r' : BsonReader} {t : ElementType} {b : Bool}

theorem Fit.next (h : Fit (mem ++ rest) r) (hnext : r.next mem = .ok (t, r')) :
    Fit (mem ++ rest) r' :=
  h.imp (fun hin => hin.next (extends_next mem rest r _ hnext)) fun hneg => (hneg.next hnext).1

theorem Fit.beginSub (h : Fit (mem ++ rest) r) (hbegin : r.beginSub mem = .ok (b, r')) :
    Fit (mem ++ rest) r' :=
  h.imp (fun hin => hin.beginSub (extends_beginSub mem rest r _ hbegin)) fun hneg =>
    hneg.beginSub hbegin

theorem Fit.endSub (h : Fit mem r) : Fit mem r.endSub.2 :=
  h.imp Inside.endSub Negative.endSub

theorem Fit.seekBegin (h : Fit mem r) : Fit mem r.seekBegin :=
  h.imp Inside.seekBegin Negative.seekBegin

/-- A seek goes to an offset in front of the end, and there is none in front of a negative one. -/
theorem Fit.jump {o : ElementOffset} (h : Fit mem r) (h0 : r.curDocBegin ≤ o.offset)
    (h1 : o.offset < r.curDocEnd) : Fit mem { r with
      curType := elementInternalDocBegin, bufOffset := o.offset, arrIndex := o.arrIndex } := by
  rcases h with hin | hneg
  · exact .inl (hin.jump h0 h1)
  · have := hneg.docEnd
    have := hneg.docBegin
    omega

theorem Fit.call {c c' : Client} {k : Call} (h : Fit (mem ++ rest) c.reader)
    (hcall : c.call mem k = .ok c') : Fit (mem ++ rest) c'.reader := by
  refine call_closed (P := Fit (mem ++ rest)) Fit.next Fit.beginSub Fit.jump Fit.seekBegin h ?_ ?_ hcall
  · rintro rfl
    obtain rfl := Except.ok.inj hcall
    exact h.endSub
  · exact fun b r' hloop => validateLoop_closed Fit.next Fit.beginSub Fit.endSub h hloop

end Fit

end BsonReader

/-- **Every reader in use** is inside of the buffer with more bytes behind it. -/
theorem Used.fit {mem rest : List UInt8} (hrest : 2147483648 ≤ rest.length) {c : Client}
    (h : Used mem c) : Fit (mem ++ rest) c.reader := by
  have hlength : 2147483648 ≤ (mem ++ rest).length := by
    rw [List.length_append]
    omega
  induction h with
  | @sized size r h =>
      rcases ofBufferSize_cases h with rfl | ⟨docSize, hsize, h0, -, -, rfl⟩
      · exact .inl (inside_rejected size)
      · have hlt := (i32At_range hsize).2
        exact .inl (inside_accepted h0 hlt (by omega))
  | @unsized r h =>
      obtain ⟨docSize, hsize, h⟩ := bind_eq_ok.mp h
      have hrange := i32At_range hsize
      split_ifs at h with hsmall
      · obtain rfl := Except.ok.inj h
        exact .inl (inside_rejected _)
      · obtain rfl := Except.ok.inj h
        by_cases h0 : 0 ≤ docSize
        · exact .inl (inside_accepted h0 hrange.2 (by omega))
        · exact .inr ⟨by simpa [accepted] using h0, by simp [accepted], rfl, by simp [accepted, value],
            by simp [accepted]⟩
  | call _ hcall ih => exact ih.call hcall

/-! ### The turns of the loop -/

namespace BsonReader

/-- What a turn decides, for a loop with a depth and a reader as its state. -/
def Turn.next (r : BsonReader) : Turn → (Bool × BsonReader) ⊕ (ℕ × BsonReader)
  | .leave valid => .inl (valid, r)
  | .again depth => .inr (depth, r)

/-- A turn of the loop of `validate`. -/
def validateStep (mem : List UInt8) (s : ℕ × BsonReader) :
    Read ((Bool × BsonReader) ⊕ (ℕ × BsonReader)) := do
  let (turn, r) ← validateTurn mem s.1 s.2
  pure (Turn.next r turn)

section Turns

variable {mem rest : List UInt8} {r : BsonReader} {n depth : ℕ}

theorem goesOn_iff {s s' : ℕ × BsonReader} :
    GoesOn (validateStep mem) s s' ↔ validateTurn mem s.1 s.2 = .ok (.again s'.1, s'.2) := by
  rw [GoesOn, validateStep]
  constructor
  · intro h
    obtain ⟨⟨turn, r'⟩, hturn, h⟩ := bind_eq_ok.mp h
    have hnext := Except.ok.inj h
    cases turn with
    | leave valid => cases hnext
    | again d =>
        obtain rfl := Sum.inr.inj hnext
        exact hturn
  · intro h
    rw [h]
    rfl

theorem validateStep_ne_outOfFuel (s : ℕ × BsonReader) :
    validateStep mem s ≠ .error .outOfFuel := by
  intro h
  rcases bind_eq_error.mp h with h | ⟨_, -, h⟩
  · rcases validateTurn_error h with h | ⟨t, r₁, -, h⟩
    · exact next_ne_outOfFuel _ _ h
    · exact beginSub_ne_outOfFuel _ _ h
  · cases h

/-- The loop of `validate` is the loop of its turns. -/
theorem validateLoop_eq (mem : List UInt8) (n depth : ℕ) (r : BsonReader) :
    validateLoop mem n depth r = FuelLoop.run (validateStep mem) .outOfFuel n (depth, r) := by
  induction n generalizing depth r with
  | zero => rfl
  | succ n ih =>
      rw [validateLoop, FuelLoop.run, validateStep]
      cases hturn : validateTurn mem depth r with
      | error e => rfl
      | ok p =>
          obtain ⟨turn, r'⟩ := p
          cases turn with
          | leave valid => rfl
          | again d => exact ih d r'

/-- A turn that goes on reads nothing behind the buffer. -/
theorem extends_validateTurn :
    Extends (validateTurn mem depth r) (validateTurn (mem ++ rest) depth r) := by
  refine (extends_next mem rest r).bind ?_
  rintro ⟨t, r₁⟩ -
  refine (Extends.refl _).ite ((Extends.refl _).ite (Extends.ite ?_ (Extends.refl _)))
  exact (extends_beginSub mem rest r₁).bind fun _ _ => Extends.refl _

theorem extends_validateLoop (n : ℕ) :
    Extends (validateLoop mem n depth r) (validateLoop (mem ++ rest) n depth r) := by
  induction n generalizing depth r with
  | zero => exact Extends.refl _
  | succ n ih =>
      refine extends_validateTurn.bind ?_
      rintro ⟨turn, r'⟩ -
      cases turn with
      | leave valid => exact Extends.refl _
      | again depth => exact ih

/-- In front of a negative end, the first turn is the last. -/
theorem Negative.not_goesOn (h : Negative r) (s : ℕ × BsonReader) :
    ¬ GoesOn (validateStep mem) (0, r) s := by
  obtain ⟨d, r'⟩ := s
  intro hgo
  obtain ⟨turn, hagain⟩ : ∃ turn, turn = Turn.again d := ⟨_, rfl⟩
  have hturn := goesOn_iff.mp hgo
  dsimp only at hturn
  rw [← hagain] at hturn
  cases validateTurn_cases hturn with
  | formatError => cases hagain
  | docEnd => cases hagain
  | endSub hdepth => cases hdepth
  | beginSub ht hnext =>
      rcases (h.next hnext).2 with rfl | rfl <;> exact absurd ht (by decide)
  | value _ hf hne hnext =>
      rcases (h.next hnext).2 with rfl | rfl
      · exact hne rfl
      · exact hf rfl

/-- **The loop makes fewer turns** than it has fuel. -/
theorem turns_lt {s : ℕ × BsonReader} (h : Fit (mem ++ rest) r)
    (hturns : Turns (validateStep mem) n (0, r) s) : n < 2 * r.curDocEnd.toNat + 2 := by
  by_contra hle
  rcases h with hin | hneg
  · have hlonger : Turns (validateStep (mem ++ rest)) n (0, r) s :=
      hturns.mono fun s s' hgo =>
        goesOn_iff.mpr (extends_validateTurn _ (goesOn_iff.mp hgo))
    have hspent := (run_eq_spent_iff validateStep_ne_outOfFuel).mpr ⟨s, hlonger⟩
    have hends := validateHere_ne_outOfFuel hin
    rw [validateHere, validateLoop_eq] at hends
    exact hends ((run_stable hends (by omega)).symm.trans hspent)
  · obtain ⟨n, rfl⟩ := Nat.exists_eq_succ_of_ne_zero (by omega : n ≠ 0)
    obtain ⟨s', hgo, -⟩ := turns_succ_iff.mp hturns
    exact hneg.not_goesOn s' hgo

end Turns

end BsonReader

/-- **A validation that reads nothing behind the buffer** has the same result with any bytes there. -/
theorem extends_validate (mem rest : List UInt8) (size : ℕ) :
    Extends (validate mem size) (validate (mem ++ rest) size) := by
  refine (Extends.refl _).ite ((extends_i32At mem rest 0).bind fun docSize _ => ?_)
  refine (Extends.refl _).ite (Extends.bind ?_ fun r _ => ?_)
  · exact (Extends.refl _).ite ((extends_i32At mem rest 0).bind fun _ _ => Extends.refl _)
  · exact (extends_validateLoop _).bind fun _ _ => Extends.refl _

/-- **The validation ends**, for all bytes and all sizes, and whatever the reader was used for before:
there is no endless sequence of turns, and the loop has a result or reads outside of the buffer. -/
theorem validate_ends (mem : List UInt8) :
    (∀ c, Used mem c →
      (¬ ∃ s : ℕ → ℕ × BsonReader, s 0 = (0, c.reader) ∧
        ∀ i, validateTurn mem (s i).1 (s i).2 = .ok (.again (s (i + 1)).1, (s (i + 1)).2)) ∧
      c.reader.validateHere mem ≠ .error .outOfFuel ∧
      ∀ n, 2 * c.reader.curDocEnd.toNat + 2 ≤ n →
        validateLoop mem n 0 c.reader = c.reader.validateHere mem) ∧
    ∀ size, validate mem size ≠ .error .outOfFuel := by
  have hends : ∀ c, Used mem c → c.reader.validateHere mem ≠ .error .outOfFuel := by
    intro c h hspent
    rw [validateHere, validateLoop_eq] at hspent
    obtain ⟨s, hturns⟩ := (run_eq_spent_iff validateStep_ne_outOfFuel).mp hspent
    have hzeros : 2147483648 ≤ (List.replicate 2147483648 (0 : UInt8)).length :=
      List.length_replicate.ge
    exact lt_irrefl _ (turns_lt (h.fit hzeros) hturns)
  refine ⟨fun c h => ⟨?_, hends c h, fun n hn => ?_⟩, fun size hspent => ?_⟩
  · have hrun := hends c h
    rw [validateHere, validateLoop_eq] at hrun
    simpa only [goesOn_iff] using not_endless validateStep_ne_outOfFuel hrun
  · have hrun := hends c h
    rw [validateHere, validateLoop_eq] at hrun ⊢
    rw [validateLoop_eq]
    exact run_stable hrun hn
  · rw [validate] at hspent
    split_ifs at hspent
    · cases hspent
    rcases bind_eq_error.mp hspent with hspent | ⟨docSize, -, hspent⟩
    · exact i32At_ne_outOfFuel _ _ hspent
    split_ifs at hspent
    · cases hspent
    rcases bind_eq_error.mp hspent with hspent | ⟨r, hr, hspent⟩
    · exact ofBufferSize_ne_outOfFuel _ _ hspent
    rcases bind_eq_error.mp hspent with hspent | ⟨_, -, hspent⟩
    · exact hends ⟨r, []⟩ (.sized hr) hspent
    · cases hspent

/-- A document in a document, with the size zero. -/
def zeroSized : List UInt8 :=
  [12, 0, 0, 0, 3, 97, 0, 0, 0, 0, 0, 0]

theorem validate_ends_zeroSized :
    (accepted 100 12).validateHere zeroSized ≠ .error .outOfFuel ∧
      validate zeroSized 100 = .ok true := by
  have hctor : ofBufferSize (some zeroSized) 100 = .ok (accepted 100 12) := by decide
  exact ⟨((validate_ends zeroSized).1 _ (.sized hctor)).2.1, by decide +kernel⟩

end ScApi
