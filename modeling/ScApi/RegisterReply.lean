import ScApi.Receive

/-!
# Reading the reply of the registration

`registerToControl` reads its reply with blocking reads: first the five bytes of an empty
document, then as many as the size prefix declares. The number of bytes still wanted is an
unsigned difference, so it wraps around when the prefix declares less than the five bytes that
have been read, and no prefix is compared with the size of the receive buffer.

## Main results

* `replyLoop_body`: behind the first five bytes, the loop reads the rest of a document that fits.
* `replyLoop_small`, `replyLoop_large`: a document that is too small or too large for it is read
  outside the buffer.
* `reply_iff`: which replies are read inside the buffer, for every cut into reads.
-/

open Bytes

namespace ScApi

/-- How the reply loop of `registerToControl` ends: with the result code of a failed read or of a
size that is not positive, with the bytes of the reply, or with a read into a range that does
not lie in the receive buffer. -/
inductive ReplyEnd where
  | errorCannotConnect
  | errorProtocol
  | reply (document : List UInt8)
  | outOfRange (offset size : ℕ)
  | outOfFuel
  deriving DecidableEq, Repr

/-- The difference of two values of type `size_t`. -/
def sizeTSub (a b : ℕ) : ℕ :=
  (a + 18446744073709551616 - b) % 18446744073709551616

/-- The reply loop. `stream` is what the backend still sends, and a read behind its end fails;
`received` is the first `read_bytes` bytes of the receive buffer. The read number `turn` gets
`cut turn` bytes, but at least one and no more than asked for. -/
def replyLoop (cut : ℕ → ℕ) : ℕ → ℕ → List UInt8 → List UInt8 → ℕ → ReplyEnd
  | 0, _, _, _, _ => .outOfFuel
  | n + 1, turn, stream, received, neededBytes =>
      let size := sizeTSub neededBytes received.length
      if kRxBufferSize < received.length + size then
        .outOfRange received.length size
      else if stream = [] then
        .errorCannotConnect
      else
        let count := min size (max 1 (cut turn))
        let received := received ++ stream.take count
        let stream := stream.drop count
        if received.length = neededBytes then
          let totalDocumentSize := declaredSize received
          if totalDocumentSize ≤ 0 then
            .errorProtocol
          else if received.length = totalDocumentSize then
            .reply received
          else
            replyLoop cut n (turn + 1) stream received totalDocumentSize.toNat
        else
          replyLoop cut n (turn + 1) stream received neededBytes

/-- The reply loop from its start. Every read takes a byte from the stream. -/
def readReply (cut : ℕ → ℕ) (stream : List UInt8) : ReplyEnd :=
  replyLoop cut (stream.length + 1) 0 stream [] 5

/-- The loop has ended with an error, or with one complete document from the front of the stream
whose declared size is the number of bytes read. -/
def ReplyEnd.Proper (stream : List UInt8) : ReplyEnd → Prop
  | .errorCannotConnect | .errorProtocol => True
  | .reply document => declaredSize document = document.length ∧ document <+: stream
  | .outOfRange _ _ | .outOfFuel => False

section

variable {cut : ℕ → ℕ} {n turn : ℕ} {stream received : List UInt8} {neededBytes : ℕ}

theorem sizeTSub_of_le {a b : ℕ} (h : b ≤ a) (ha : a < 18446744073709551616) :
    sizeTSub a b = a - b := by
  rw [sizeTSub]
  omega

theorem sizeTSub_pos {a b : ℕ} (h : b ≠ a) (ha : a < 18446744073709551616)
    (hb : b < 18446744073709551616) : 0 < sizeTSub a b := by
  rw [sizeTSub]
  omega

theorem declaredSize_toNat_lt (l : List UInt8) :
    (declaredSize l).toNat < 18446744073709551616 := by
  have hrange := (toI32_range (l.take 4)).2
  rw [← declaredSize] at hrange
  generalize declaredSize l = size at hrange
  omega

theorem replyLoop_ended {size : ℕ} (hsize : sizeTSub neededBytes received.length = size)
    (hrange : received.length + size ≤ kRxBufferSize) :
    replyLoop cut (n + 1) turn [] received neededBytes = .errorCannotConnect := by
  simp only [replyLoop, hsize, if_neg (not_lt.mpr hrange), if_pos]

/-- A range that does not lie in the buffer. -/
theorem replyLoop_outside {size : ℕ} (hsize : sizeTSub neededBytes received.length = size)
    (hrange : kRxBufferSize < received.length + size) :
    replyLoop cut (n + 1) turn stream received neededBytes
      = .outOfRange received.length size := by
  simp only [replyLoop, hsize, if_pos hrange]

/-- One read: it gets some of the bytes that are missing. -/
theorem exists_count (cut : ℕ → ℕ) (turn : ℕ) (hstream : stream ≠ []) {size : ℕ} (hsize : 0 < size) :
    ∃ count, min size (max 1 (cut turn)) = count ∧ 0 < (stream.take count).length ∧
      (stream.take count).length ≤ size ∧ (stream.drop count).length < stream.length := by
  have hpos := List.length_pos_of_ne_nil hstream
  refine ⟨_, rfl, ?_, ?_, ?_⟩
  · rw [List.length_take]
    omega
  · rw [List.length_take]
    omega
  · rw [List.length_drop]
    omega

/-- **The loop ends**: every read takes a byte from the stream. -/
theorem replyLoop_ne_outOfFuel (hn : stream.length < n) (hmissing : received.length ≠ neededBytes)
    (hlt : neededBytes < 18446744073709551616) :
    replyLoop cut n turn stream received neededBytes ≠ .outOfFuel := by
  induction n generalizing turn stream received neededBytes with
  | zero => omega
  | succ n ih =>
      rw [replyLoop]
      dsimp only
      split
      · simp
      rename_i hrange
      split
      · simp
      rename_i hstream
      have hsmall : received.length < 18446744073709551616 := by
        have hbuffer : kRxBufferSize < 18446744073709551616 := by decide
        omega
      have hpos := sizeTSub_pos hmissing hlt hsmall
      obtain ⟨count, hcount, -, -, hless⟩ := exists_count cut turn hstream hpos
      rw [hcount]
      split
      · split
        · simp
        split
        · simp
        rename_i hfull hneg hother
        refine ih (by omega) (fun hsame => hother ?_) (declaredSize_toNat_lt _)
        rw [hsame]
        exact Int.toNat_of_nonneg (le_of_lt (not_le.mp hneg))
      · rename_i hother
        exact ih (by omega) hother hlt

theorem readReply_ne_outOfFuel (cut : ℕ → ℕ) (stream : List UInt8) :
    readReply cut stream ≠ .outOfFuel := by
  rw [readReply]
  exact replyLoop_ne_outOfFuel (Nat.lt_succ_self _) (by decide) (by decide)

/-- **Behind the first five bytes**, the loop reads the rest of a document that fits into the
buffer. -/
theorem replyLoop_body (hn : stream.length < n) (hmin : kMinValidBsonSize ≤ received.length)
    (hmore : received.length < neededBytes) (hfits : neededBytes ≤ kRxBufferSize)
    (hsize : declaredSize received = neededBytes) :
    (replyLoop cut n turn stream received neededBytes).Proper (received ++ stream) := by
  induction n generalizing turn stream received with
  | zero => omega
  | succ n ih =>
      have hdiff : sizeTSub neededBytes received.length = neededBytes - received.length := by
        refine sizeTSub_of_le hmore.le (lt_of_le_of_lt hfits (by decide))
      have hrange : received.length + (neededBytes - received.length) ≤ kRxBufferSize := by omega
      by_cases hstream : stream = []
      · subst hstream
        rw [replyLoop_ended hdiff hrange]
        exact trivial
      obtain ⟨count, hcount, hpos, hle, hlt⟩ :=
        exists_count cut turn hstream (Nat.sub_pos_of_lt hmore)
      have hlen : (received ++ stream.take count).length
          = received.length + (stream.take count).length := List.length_append
      have hsize' : declaredSize (received ++ stream.take count) = neededBytes := by
        rw [declaredSize_append hmin, hsize]
      have hwhole : received ++ stream.take count ++ stream.drop count = received ++ stream := by
        rw [List.append_assoc, List.take_append_drop]
      simp only [replyLoop, hdiff, if_neg (not_lt.mpr hrange), if_neg hstream, hcount]
      by_cases hfull : (received ++ stream.take count).length = neededBytes
      · have hne : ¬ ((neededBytes : ℤ) ≤ 0) := by
          have h0 : 0 < neededBytes := Nat.zero_lt_of_lt hmore
          exact not_le.mpr (by exact_mod_cast h0)
        have heq : ((received ++ stream.take count).length : ℤ) = neededBytes := by rw [hfull]
        simp only [if_pos hfull, hsize', if_neg hne, if_pos heq]
        exact ⟨by rw [hsize', hfull], ⟨_, hwhole⟩⟩
      · simp only [if_neg hfull]
        rw [← hwhole]
        refine ih (by omega) (hmin.trans (by rw [hlen]; exact Nat.le_add_right _ _)) ?_ hsize'
        exact lt_of_le_of_ne (by rw [hlen]; exact Nat.add_le_of_le_sub' hmore.le hle) hfull

/-- A declared size below the number of bytes read: the number of missing bytes wraps around. -/
theorem replyLoop_small (hlen : received.length = 5) (h0 : 0 < neededBytes) (h5 : neededBytes < 5) :
    replyLoop cut (n + 1) turn stream received neededBytes
      = .outOfRange 5 (neededBytes + 18446744073709551611) := by
  have hsize : sizeTSub neededBytes received.length = neededBytes + 18446744073709551611 := by
    rw [sizeTSub, hlen]
    omega
  have hlarge : kRxBufferSize ≤ 18446744073709551611 := by decide
  rw [replyLoop_outside hsize (by omega), hlen]

/-- A declared size above that of the buffer: the missing bytes do not fit. -/
theorem replyLoop_large (hlen : received.length = 5) (hbig : kRxBufferSize < neededBytes)
    (hlt : neededBytes < 18446744073709551616) :
    replyLoop cut (n + 1) turn stream received neededBytes = .outOfRange 5 (neededBytes - 5) := by
  have hbuffer : 5 ≤ kRxBufferSize := by decide
  have hsize : sizeTSub neededBytes received.length = neededBytes - 5 := by
    rw [hlen]
    exact sizeTSub_of_le (by omega) hlt
  rw [replyLoop_outside hsize (by omega), hlen]

/-- The condition on a reply: it ends before its fifth byte, or declares a size that is refused or
one that fits. -/
def ReplyFits (stream : List UInt8) : Prop :=
  5 ≤ stream.length →
    declaredSize stream ≤ 0 ∨ 5 ≤ declaredSize stream ∧ declaredSize stream ≤ kRxBufferSize

/-- What the loop does when the first five bytes are complete. -/
theorem replyLoop_decide (hn : stream.length < n) (hlen : received.length = 5) :
    (if declaredSize received ≤ 0 then ReplyEnd.errorProtocol
      else if received.length = declaredSize received then .reply received
      else replyLoop cut n turn stream received (declaredSize received).toNat).Proper
        (received ++ stream) ↔ ReplyFits (received ++ stream) := by
  have hsame : declaredSize (received ++ stream) = declaredSize received :=
    declaredSize_append hlen.ge stream
  have hlong : 5 ≤ (received ++ stream).length := by
    rw [List.length_append]
    omega
  rw [ReplyFits, hsame, imp_iff_right hlong]
  obtain ⟨n, rfl⟩ : ∃ m, n = m + 1 := ⟨n - 1, by omega⟩
  by_cases hneg : declaredSize received ≤ 0
  · rw [if_pos hneg]
    exact iff_of_true trivial (Or.inl hneg)
  rw [if_neg hneg]
  by_cases hfive : (received.length : ℤ) = declaredSize received
  · rw [if_pos hfive]
    refine iff_of_true ⟨hfive.symm, List.prefix_append _ _⟩ (Or.inr ⟨?_, ?_⟩)
    · omega
    · rw [← hfive, hlen]
      decide
  rw [if_neg hfive]
  obtain ⟨needed, hneeded⟩ : ∃ needed : ℕ, declaredSize received = needed :=
    ⟨(declaredSize received).toNat, by omega⟩
  have hrange := (toI32_range (received.take 4)).2
  rw [← declaredSize] at hrange
  rw [hneeded] at hneg hfive hrange ⊢
  rw [Int.toNat_natCast]
  by_cases hsmall : needed < 5
  · rw [replyLoop_small hlen (by omega) hsmall]
    refine iff_of_false id ?_
    rintro (h | ⟨h, -⟩) <;> omega
  by_cases hbig : kRxBufferSize < needed
  · rw [replyLoop_large hlen hbig (by omega)]
    refine iff_of_false id ?_
    rintro (h | ⟨-, h⟩) <;> omega
  · refine iff_of_true ?_ (Or.inr ⟨by omega, by omega⟩)
    exact replyLoop_body hn hlen.ge (by omega) (by omega) hneeded

/-- The first five bytes of the reply. -/
theorem replyLoop_head (hn : stream.length < n) (hlen : received.length < 5) :
    (replyLoop cut n turn stream received 5).Proper (received ++ stream) ↔
      ReplyFits (received ++ stream) := by
  induction n generalizing turn stream received with
  | zero => omega
  | succ n ih =>
      have hbuffer : 5 ≤ kRxBufferSize := by decide
      have hdiff : sizeTSub 5 received.length = 5 - received.length :=
        sizeTSub_of_le hlen.le (by decide)
      have hrange : received.length + (5 - received.length) ≤ kRxBufferSize := by omega
      by_cases hstream : stream = []
      · subst hstream
        rw [replyLoop_ended hdiff hrange, List.append_nil]
        exact iff_of_true trivial fun h => by omega
      obtain ⟨count, hcount, hpos, hle, hlt⟩ :=
        exists_count cut turn hstream (Nat.sub_pos_of_lt hlen)
      have hnew : (received ++ stream.take count).length
          = received.length + (stream.take count).length := List.length_append
      have hwhole : received ++ stream.take count ++ stream.drop count = received ++ stream := by
        rw [List.append_assoc, List.take_append_drop]
      rw [← hwhole]
      simp only [replyLoop, hdiff, if_neg (not_lt.mpr hrange), if_neg hstream, hcount]
      by_cases hfull : (received ++ stream.take count).length = 5
      · rw [if_pos hfull]
        exact replyLoop_decide (by omega) hfull
      · rw [if_neg hfull]
        exact ih (by omega) (by omega)

/-- **The reply is read inside the receive buffer, up to the end of one complete document or an
error, exactly when** the backend sends fewer than five bytes, or declares a size that is not
positive, or one from five to the size of the buffer; whatever the cut into reads. -/
theorem reply_iff (cut : ℕ → ℕ) (stream : List UInt8) :
    (readReply cut stream).Proper stream ↔ ReplyFits stream := by
  have hempty : ([] : List UInt8).length < 5 := by decide
  exact replyLoop_head (Nat.lt_succ_self stream.length) hempty

/-- A reply that declares a size of one: the next read is asked for `2 ^ 64 - 4` bytes. -/
theorem reply_outside : ¬ ∀ (cut : ℕ → ℕ) (stream : List UInt8),
    (readReply cut stream).Proper stream := by
  intro h
  obtain ⟨stream, hstream⟩ : ∃ stream : List UInt8, stream = [1, 0, 0, 0, 0] := ⟨_, rfl⟩
  have hbad := h (fun _ => 5) stream
  have hempty : ([] : List UInt8).length < 5 := by decide
  have hfits : ReplyFits stream := (replyLoop_head (Nat.lt_succ_self stream.length) hempty).mp hbad
  have hone : declaredSize [1, 0, 0, 0, 0] = 1 := by decide
  rw [hstream, ReplyFits, hone] at hfits
  rcases hfits le_rfl with hle | ⟨hle, -⟩ <;> omega

end

end ScApi
