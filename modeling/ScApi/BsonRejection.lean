import ScApi.BsonReader

/-!
# A reader whose buffer was rejected

A constructor that rejects its buffer records this in the type of the current element. Most calls look
at the type first, and leave the reader alone. `seekBegin` overwrites the type: afterwards the reader
is not in error, and the next call reads the buffer, which may be a null pointer.

## Main results

* `rejected_of_error`: the reader that the constructors leave.
* `perform_rejected`: what a call on it does.
* `staysRejected_iff`: the calls that leave it rejected.
-/

open Bytes BoundedRead

namespace ScApi

open ElementType

/-- A call on a reader. `tryFindAndGet` is given the overload of `tryGetValue` for its value. -/
inductive Attempt where
  | next
  | seekKey (key : List UInt8)
  | seekNextKey (key : List UInt8)
  | seekIndex (index : ℤ)
  | seekBegin
  | endSub
  | tryFindAndGet (key : List UInt8) (tryGetValue : List UInt8 → BsonReader → Read Bool)
  | validate

namespace BsonReader

/-- `BsonReader::tryFindAndGet`; whether the value was found. -/
def tryFindAndGet (mem : List UInt8) (key : List UInt8) (tryGetValue : BsonReader → Read Bool)
    (r : BsonReader) : Read (Bool × BsonReader) := do
  let (t, r) ← r.seekKey mem key
  if t.isEndOrError then
    pure (false, r)
  else do
    let found ← tryGetValue r
    pure (found, r)

end BsonReader

namespace Attempt

/-- A call, and whether it yields an element, a value or a valid document. -/
def perform (mem : List UInt8) (r : BsonReader) : Attempt → Read (Bool × BsonReader)
  | .next => do
      let (t, r) ← r.next mem
      pure (0 < t.value, r)
  | .seekKey key => do
      let (t, r) ← r.seekKey mem key
      pure (0 < t.value, r)
  | .seekNextKey key => do
      let (t, r) ← r.seekNextKey mem key
      pure (0 < t.value, r)
  | .seekIndex index => do
      let (t, r) ← r.seekIndex mem index
      pure (0 < t.value, r)
  | .seekBegin => pure (false, r.seekBegin)
  | .endSub => pure r.endSub
  | .tryFindAndGet key tryGetValue => r.tryFindAndGet mem key (tryGetValue mem)
  | .validate => r.validateHere mem

/-- The calls that go to the begin of the document. -/
def goesToBegin : Attempt → Bool
  | .seekBegin | .seekKey _ | .tryFindAndGet _ _ => true
  | _ => false

end Attempt

namespace BsonReader

/-- **The calls leave the reader rejected**: it is in error, and each call yields nothing, whatever the
bytes of the buffer are and also when there is none that could be read. -/
def StaysRejected : List Attempt → BsonReader → Prop
  | [], r => r.error = true
  | k :: calls, r => r.error = true ∧
      ∃ r', (∀ mem, k.perform mem r = .ok (false, r')) ∧ StaysRejected calls r'

/-- A constructor leaves the reader. -/
inductive Constructed : BsonReader → Prop
  | ofBuffer {buffer : Option (List UInt8)} {r : BsonReader} (h : ofBuffer buffer = .ok r) :
      Constructed r
  | ofBufferSize {buffer : Option (List UInt8)} {size : ℕ} {r : BsonReader}
      (h : ofBufferSize buffer size = .ok r) : Constructed r

section Rejected

variable {r : BsonReader}

theorem error_accepted (size : ℕ) (docSize : ℤ) : (accepted size docSize).error = false :=
  rfl

/-- **The reader that the constructors leave** when they reject the buffer. -/
theorem rejected_of_error (h : Constructed r) (herror : r.error = true) :
    ∃ size, r = rejected size := by
  cases h with
  | @ofBuffer buffer _ h =>
      cases buffer with
      | none => exact ⟨0, (Except.ok.inj h).symm⟩
      | some mem =>
          obtain ⟨docSize, -, h⟩ := bind_eq_ok.mp h
          split_ifs at h
          · exact ⟨_, (Except.ok.inj h).symm⟩
          · obtain rfl := Except.ok.inj h
            exact absurd herror (by rw [error_accepted]; decide)
  | @ofBufferSize buffer size _ h =>
      cases buffer with
      | none => exact ⟨size, (Except.ok.inj h).symm⟩
      | some mem =>
          rw [BsonReader.ofBufferSize] at h
          split_ifs at h
          · exact ⟨size, (Except.ok.inj h).symm⟩
          · obtain ⟨docSize, -, h⟩ := bind_eq_ok.mp h
            split_ifs at h
            · exact ⟨size, (Except.ok.inj h).symm⟩
            · obtain rfl := Except.ok.inj h
              exact absurd herror (by rw [error_accepted]; decide)

/-- **What a call on a rejected reader does**, unless it goes to the begin of the document. -/
theorem perform_rejected (size : ℕ) {k : Attempt} (hk : k.goesToBegin = false) (mem : List UInt8) :
    k.perform mem (rejected size) = .ok (false, rejected size) := by
  have hnext : (rejected size).next mem = .ok (elementFormatError, rejected size) := rfl
  cases k with
  | next => rfl
  | seekKey => cases hk
  | seekNextKey key =>
      rw [Attempt.perform, seekNextKey, searchFrom, hnext]
      rfl
  | seekIndex index =>
      have hend : (rejected size).seekIndex mem index = .ok (elementEnd, rejected size) :=
        if_pos (.inr rfl)
      rw [Attempt.perform, hend]
      rfl
  | seekBegin => cases hk
  | endSub => rfl
  | tryFindAndGet => cases hk
  | validate => rfl

theorem error_seekBegin (r : BsonReader) : r.seekBegin.error = false :=
  rfl

/-- A search from the begin reads the buffer. -/
theorem seekKey_rejected (size : ℕ) (key : List UInt8) :
    (rejected size).seekKey [] key = .error (.outOfBounds 0) := by
  rfl

/-- **A call that goes to the begin of the document** does not leave the reader rejected. -/
theorem not_staysRejected_of_goesToBegin (size : ℕ) {k : Attempt} (hk : k.goesToBegin = true)
    (calls : List Attempt) : ¬ StaysRejected (k :: calls) (rejected size) := by
  rintro ⟨-, r', hperform, hrest⟩
  have hempty := hperform []
  cases k with
  | seekBegin =>
      obtain ⟨-, rfl⟩ := Prod.mk.inj (Except.ok.inj hempty)
      have herror : (rejected size).seekBegin.error = true := by
        cases calls with
        | nil => exact hrest
        | cons _ _ => exact hrest.1
      rw [error_seekBegin] at herror
      cases herror
  | seekKey key =>
      rw [Attempt.perform, seekKey_rejected] at hempty
      cases hempty
  | tryFindAndGet key tryGetValue =>
      rw [Attempt.perform, tryFindAndGet, seekKey_rejected] at hempty
      cases hempty
  | next | seekNextKey | seekIndex | endSub | validate => cases hk

/-- **The calls that leave a rejected reader rejected** are those that do not go to the begin of the
document. -/
theorem staysRejected_iff (hr : Constructed r) (herror : r.error = true) (calls : List Attempt) :
    StaysRejected calls r ↔ ∀ k ∈ calls, k.goesToBegin = false := by
  obtain ⟨size, rfl⟩ := rejected_of_error hr herror
  induction calls with
  | nil => exact iff_of_true herror (by simp)
  | cons k calls ih =>
      rw [List.forall_mem_cons]
      cases hk : k.goesToBegin with
      | true =>
          exact iff_of_false (not_staysRejected_of_goesToBegin size hk calls)
            fun h => Bool.noConfusion h.1
      | false =>
          rw [and_iff_right rfl, ← ih]
          constructor
          · rintro ⟨-, r', hperform, hrest⟩
            have heq := (hperform []).symm.trans (perform_rejected size hk [])
            obtain ⟨-, rfl⟩ := Prod.mk.inj (Except.ok.inj heq)
            exact hrest
          · exact fun h => ⟨herror, _, perform_rejected size hk, h⟩

/-- A null pointer stays rejected, as long as it is only iterated and validated. -/
theorem staysRejected_null : StaysRejected [.next, .seekIndex 0, .validate] (rejected 0) :=
  (staysRejected_iff (@Constructed.ofBuffer none _ rfl) rfl _).mpr (by simp [Attempt.goesToBegin])

/-- A search for a key follows the null pointer, and a buffer of five bytes with a negative size is
read after `seekBegin`. -/
theorem not_staysRejected :
    ofBufferSize none 0 = .ok (rejected 0) ∧
      ¬ StaysRejected [.tryFindAndGet [105] fun mem r => (r.tryGetI32 mem).map Option.isSome]
        (rejected 0) ∧
    ofBufferSize (some [255, 255, 255, 255, 0]) 5 = .ok (rejected 5) ∧
      (rejected 5).seekBegin.error = false ∧
      ¬ StaysRejected [.seekBegin] (rejected 5) := by
  refine ⟨rfl, ?_, by decide +kernel, rfl, ?_⟩
  · rintro ⟨-, r', hperform, -⟩
    have hempty := hperform []
    rw [Attempt.perform, tryFindAndGet, seekKey_rejected] at hempty
    cases hempty
  · rintro ⟨-, r', hperform, herror⟩
    obtain ⟨-, rfl⟩ := Prod.mk.inj (Except.ok.inj (hperform []))
    exact absurd (show (rejected 5).seekBegin.error = true from herror) (by decide)

end Rejected

end BsonReader

end ScApi
