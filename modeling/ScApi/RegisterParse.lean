import ScApi.BsonReads
import ScApi.Receive

/-!
# Parsing the reply of the registration

The reply of a registration is a document with the result, and in `data` a document named after the
command that holds the controller id and the granted controls. `registerToControl` looks the fields
up by name, so their order does not matter, and reads them with the accessors of the reader.

## Main results

* `readControl_ne_outOfFuel`: the loop over the granted controls ends.
* `parseRegisterReply_ne_outOfFuel`: so does the parsing of every reply in the receive buffer.
-/

open Bytes BoundedRead

namespace ScApi

open ElementType BsonReader

/-- `k_control_flag_names`. -/
def kControlFlagNames : List (UInt32 × List UInt8) :=
  [(1, ascii "ffb"), (2, ascii "telemetry"), (4, ascii "sim_data")]

/-- `parseCommandResultHeader`: the return code and, when that is 0, the command name and a reader
inside the document of the command. The text of an error is read to be printed. -/
def parseCommandResultHeader (mem : List UInt8) (r : BsonReader) :
    Read (ℤ × List UInt8 × BsonReader) := do
  let (returnCode, r) ← r.tryFindAndGetI32 mem (ascii "result")
  match returnCode with
  | none => pure (-1, [], r)
  | some returnCode =>
      if returnCode ≠ 0 then do
        let (errorMsg, r) ← r.tryFindAndGetString mem (ascii "error_message")
        match errorMsg with
        | none => pure (returnCode, [], r)
        | some text => do
            let _ ← bytesAt mem text.offset text.length
            pure (returnCode, [], r)
      else do
        let (t, r) ← r.seekKey mem (ascii "data")
        if t.isEndOrError then
          pure (-1, [], r)
        else do
          let (begun, r) ← r.beginSub mem
          if ¬ begun then
            pure (-1, [], r)
          else do
            let (t, r) ← r.next mem
            if t ≠ elementDoc then
              pure (-1, [], r)
            else do
              let commandName := r.key
              let (begun, r) ← r.beginSub mem
              if ¬ begun then
                pure (-1, commandName, r)
              else
                pure (0, commandName, r)

/-- The flags that a string of the `control` array stands for, together with `flags`. The
characters are compared only with a name of the same length. -/
def addControlFlag (mem : List UInt8) (value : Span) (flags : UInt32) : Read UInt32 :=
  kControlFlagNames.foldlM
    (fun flags (flag, name) =>
      if value.length = name.length then do
        let bytes ← bytesAt mem value.offset value.length
        pure (if bytes = name then flags ||| flag else flags)
      else
        pure flags)
    flags

/-- The loop over the `control` array. -/
def readControl (mem : List UInt8) : ℕ → UInt32 → BsonReader → Read UInt32
  | 0, _, _ => throw .outOfFuel
  | n + 1, flags, r => do
      let (e, r) ← r.next mem
      if e.isEndOrError then
        pure flags
      else if e = elementStr then do
        let value ← r.stringValue mem
        let flags ← addControlFlag mem value flags
        readControl mem n flags r
      else
        readControl mem n flags r

/-- What `registerToControl` makes of the reply of `size` bytes at the front of the receive buffer:
the controller id and the granted flags, or `none` for `error_protocol`. Elements start ever later
in the array, which bounds the loop. -/
def parseRegisterReply (mem : List UInt8) (size : ℕ) : Read (Option (ℤ × UInt32)) := do
  let r ← ofBufferSize (some mem) size
  let (result, commandName, r) ← parseCommandResultHeader mem r
  if result ≠ 0 ∨ commandName ≠ ascii "register" then
    pure none
  else do
    let (ctrlId, r) ← r.tryFindAndGetI32 mem (ascii "controller_id")
    match ctrlId with
    | none => pure none
    | some ctrlId => do
        let (t, r) ← r.seekKey mem (ascii "control")
        if t ≠ elementArray then
          pure none
        else do
          let (begun, r) ← r.beginSub mem
          if ¬ begun then
            pure none
          else do
            let flags ← readControl mem (r.curDocEnd.toNat + 2) 0 r
            pure (some (ctrlId, flags))

section

variable {mem : List UInt8} {r r' : BsonReader}

theorem bytesAt_ne_outOfFuel (mem : List UInt8) (i : ℤ) (n : ℕ) :
    bytesAt mem i n ≠ .error .outOfFuel := by
  rw [bytesAt]
  split <;> simp

theorem isEndOrError_of_ended {t : ElementType} (h : t.ended = true) : t.isEndOrError = true := by
  cases t <;> first | rfl | simp [ended] at h

theorem searchFrom_of_tryFindAndGetI32 {key : List UInt8} {v : Option ℤ}
    (h : r.tryFindAndGetI32 mem key = .ok (v, r')) : ∃ t, r.seekKey mem key = .ok (t, r') := by
  obtain ⟨⟨t, r₁⟩, hseek, h⟩ := bind_eq_ok.mp h
  refine ⟨t, ?_⟩
  dsimp only at h
  split at h
  · obtain ⟨-, rfl⟩ := Prod.mk.inj (Except.ok.inj h)
    exact hseek
  · obtain ⟨v', -, h⟩ := bind_eq_ok.mp h
    obtain ⟨-, rfl⟩ := Prod.mk.inj (Except.ok.inj h)
    exact hseek

theorem searchFrom_of_tryFindAndGetString {key : List UInt8} {v : Option Span}
    (h : r.tryFindAndGetString mem key = .ok (v, r')) : ∃ t, r.seekKey mem key = .ok (t, r') := by
  obtain ⟨⟨t, r₁⟩, hseek, h⟩ := bind_eq_ok.mp h
  refine ⟨t, ?_⟩
  dsimp only at h
  split at h
  · obtain ⟨-, rfl⟩ := Prod.mk.inj (Except.ok.inj h)
    exact hseek
  · obtain ⟨v', -, h⟩ := bind_eq_ok.mp h
    obtain ⟨-, rfl⟩ := Prod.mk.inj (Except.ok.inj h)
    exact hseek

theorem int64Value_ne_outOfFuel : r.int64Value mem ≠ .error .outOfFuel := by
  intro h
  rcases bind_eq_error.mp h with h | ⟨bytes, -, h⟩
  · exact bytesAt_ne_outOfFuel _ _ _ h
  · simp at h

theorem doubleValue_ne_outOfFuel : r.doubleValue mem ≠ .error .outOfFuel := by
  intro h
  rcases bind_eq_error.mp h with h | ⟨bytes, -, h⟩
  · exact bytesAt_ne_outOfFuel _ _ _ h
  · simp at h

theorem tryGetI32_ne_outOfFuel : r.tryGetI32 mem ≠ .error .outOfFuel := by
  intro h
  rw [tryGetI32] at h
  split at h
  · rcases bind_eq_error.mp h with h | ⟨v, -, h⟩
    · exact i32At_ne_outOfFuel _ _ h
    · simp at h
  · rcases bind_eq_error.mp h with h | ⟨v, -, h⟩
    · exact int64Value_ne_outOfFuel h
    · simp at h
  · rcases bind_eq_error.mp h with h | ⟨v, -, h⟩
    · exact doubleValue_ne_outOfFuel h
    · simp at h
  · simp at h

theorem tryFindAndGetI32_ne_outOfFuel {key : List UInt8} (hr : Inside mem r) :
    r.tryFindAndGetI32 mem key ≠ .error .outOfFuel := by
  intro h
  rcases bind_eq_error.mp h with h | ⟨⟨t, r₁⟩, -, h⟩
  · exact searchFrom_ne_outOfFuel hr.seekBegin h
  dsimp only at h
  split at h
  · simp at h
  · rcases bind_eq_error.mp h with h | ⟨v, -, h⟩
    · exact tryGetI32_ne_outOfFuel h
    · simp at h

theorem tryFindAndGetString_ne_outOfFuel {key : List UInt8} (hr : Inside mem r) :
    r.tryFindAndGetString mem key ≠ .error .outOfFuel := by
  intro h
  rcases bind_eq_error.mp h with h | ⟨⟨t, r₁⟩, -, h⟩
  · exact searchFrom_ne_outOfFuel hr.seekBegin h
  dsimp only at h
  split at h
  · simp at h
  · rcases bind_eq_error.mp h with h | ⟨v, -, h⟩
    · rcases bind_eq_error.mp h with h | ⟨n, -, h⟩
      · exact i32At_ne_outOfFuel _ _ h
      · simp at h
    · simp at h

/-- An element that `next` has found starts behind the one before it. -/
theorem next_later {e : ElementType} (hr : Inside mem r) (h : r.next mem = .ok (e, r'))
    (he : ¬ e.isEndOrError = true) :
    r'.curType = e ∧ r'.curDocEnd = r.curDocEnd ∧ 0 < r'.curType.value ∧
      r.curDocEnd - r'.elementStartOffset <
        if 0 < r.curType.value then r.curDocEnd - r.elementStartOffset else r.curDocEnd + 1 := by
  rcases hr.next_cases h with ⟨hended, rfl, rfl⟩ | ⟨start, hrun, hskip, -, hread⟩
  · exact absurd (isEndOrError_of_ended hended) he
  obtain ⟨htype, hdoc, -, hstart⟩ := hread.frame
  cases hread with
  | docEnd hbyte => exact absurd (by decide) he
  | formatError => exact absurd (by decide) he
  | element hat =>
      refine ⟨htype, hdoc, by rw [htype]; exact hat.pos, ?_⟩
      rw [hstart]
      split
      · rename_i hpos
        obtain ⟨-, hbehind, -⟩ := hr.current hpos
        obtain ⟨start', hs', hle, -⟩ := hr.skipValue_current hpos
        rw [hskip] at hs'
        obtain rfl := Except.ok.inj hs'
        omega
      · have h0 := hat.start_nonneg
        omega

theorem addControlFlag_ne_outOfFuel (value : Span) (flags : UInt32) :
    addControlFlag mem value flags ≠ .error .outOfFuel := by
  rw [addControlFlag]
  generalize kControlFlagNames = names
  induction names generalizing flags with
  | nil => simp
  | cons entry names ih =>
      intro h
      rw [List.foldlM_cons] at h
      rcases bind_eq_error.mp h with h | ⟨flags', -, h⟩
      · dsimp only at h
        split at h
        · rcases bind_eq_error.mp h with h | ⟨bytes, -, h⟩
          · exact bytesAt_ne_outOfFuel _ _ _ h
          · simp at h
        · simp at h
      · exact ih flags' h

/-- **The loop over the granted controls ends**: elements start ever later in the array. -/
theorem readControl_ne_outOfFuel {n : ℕ} {flags : UInt32} (hr : Inside mem r)
    (hfuel : (if 0 < r.curType.value then r.curDocEnd - r.elementStartOffset
      else r.curDocEnd + 1) < n) :
    readControl mem n flags r ≠ .error .outOfFuel := by
  induction n generalizing r flags with
  | zero =>
      have hend := hr.docEnd_nonneg
      split at hfuel
      · rename_i hpos
        obtain ⟨-, hlt, need, -, hneed, hle⟩ := hr.current hpos
        omega
      · omega
  | succ n ih =>
      intro h
      rw [readControl] at h
      rcases bind_eq_error.mp h with h | ⟨⟨e, r₁⟩, hnext, h⟩
      · exact next_ne_outOfFuel _ _ h
      have hr₁ := hr.next hnext
      dsimp only at h
      by_cases hend : e.isEndOrError = true
      · rw [if_pos hend] at h
        simp at h
      rw [if_neg hend] at h
      have hsmall : (if 0 < r₁.curType.value then r₁.curDocEnd - r₁.elementStartOffset
          else r₁.curDocEnd + 1) < n := by
        obtain ⟨htype, hdoc, hpos, hlater⟩ := next_later hr hnext hend
        rw [if_pos hpos, hdoc]
        push_cast at hfuel
        omega
      by_cases hstr : e = elementStr
      · rw [if_pos hstr] at h
        rcases bind_eq_error.mp h with h | ⟨value, -, h⟩
        · rcases bind_eq_error.mp h with h | ⟨byteSize, -, h⟩
          · exact i32At_ne_outOfFuel _ _ h
          · simp at h
        rcases bind_eq_error.mp h with h | ⟨flags', -, h⟩
        · exact addControlFlag_ne_outOfFuel _ _ h
        · exact ih hr₁ hsmall h
      · rw [if_neg hstr] at h
        exact ih hr₁ hsmall h

/-- What the parsing of the reply goes through keeps the reader inside the memory. -/
theorem inside_of_tryFindAndGetI32 {key : List UInt8} {v : Option ℤ} (hr : Inside mem r)
    (h : r.tryFindAndGetI32 mem key = .ok (v, r')) : Inside mem r' := by
  obtain ⟨t, hseek⟩ := searchFrom_of_tryFindAndGetI32 h
  exact hr.seekBegin.searchFrom hseek

theorem parseCommandResultHeader_ne_outOfFuel (hr : Inside mem r) :
    parseCommandResultHeader mem r ≠ .error .outOfFuel := by
  intro h
  rcases bind_eq_error.mp h with h | ⟨⟨returnCode, r₁⟩, hget, h⟩
  · exact tryFindAndGetI32_ne_outOfFuel hr h
  have hr₁ := inside_of_tryFindAndGetI32 hr hget
  dsimp only at h
  cases returnCode with
  | none => simp at h
  | some returnCode =>
    dsimp only at h
    split at h
    · rcases bind_eq_error.mp h with h | ⟨⟨errorMsg, r₂⟩, -, h⟩
      · exact tryFindAndGetString_ne_outOfFuel hr₁ h
      cases errorMsg with
      | none => simp at h
      | some text =>
        rcases bind_eq_error.mp h with h | ⟨bytes, -, h⟩
        · exact bytesAt_ne_outOfFuel _ _ _ h
        · simp at h
    rcases bind_eq_error.mp h with h | ⟨⟨t, r₂⟩, hseek, h⟩
    · exact searchFrom_ne_outOfFuel hr₁.seekBegin h
    dsimp only at h
    split at h
    · simp at h
    rcases bind_eq_error.mp h with h | ⟨⟨begun, r₃⟩, -, h⟩
    · exact beginSub_ne_outOfFuel _ _ h
    dsimp only at h
    split at h
    · simp at h
    rcases bind_eq_error.mp h with h | ⟨⟨t, r₄⟩, -, h⟩
    · exact next_ne_outOfFuel _ _ h
    dsimp only at h
    split at h
    · simp at h
    rcases bind_eq_error.mp h with h | ⟨⟨begun, r₅⟩, -, h⟩
    · exact beginSub_ne_outOfFuel _ _ h
    dsimp only at h
    split at h <;> simp at h

theorem inside_of_parseCommandResultHeader {code : ℤ} {name : List UInt8} (hr : Inside mem r)
    (h : parseCommandResultHeader mem r = .ok (code, name, r')) : Inside mem r' := by
  obtain ⟨⟨returnCode, r₁⟩, hget, h⟩ := bind_eq_ok.mp h
  have hr₁ := inside_of_tryFindAndGetI32 hr hget
  cases returnCode with
  | none =>
    obtain ⟨-, -, rfl⟩ : _ ∧ _ ∧ r₁ = r' := by simpa using h
    exact hr₁
  | some returnCode =>
    dsimp only at h
    split at h
    · obtain ⟨⟨errorMsg, r₂⟩, herror, h⟩ := bind_eq_ok.mp h
      obtain ⟨t, hseek⟩ := searchFrom_of_tryFindAndGetString herror
      have hr₂ := hr₁.seekBegin.searchFrom hseek
      cases errorMsg with
      | none =>
        obtain ⟨-, -, rfl⟩ : _ ∧ _ ∧ r₂ = r' := by simpa using h
        exact hr₂
      | some text =>
        obtain ⟨bytes, -, h⟩ := bind_eq_ok.mp h
        obtain ⟨-, -, rfl⟩ : _ ∧ _ ∧ r₂ = r' := by simpa using h
        exact hr₂
    obtain ⟨⟨t, r₂⟩, hseek, h⟩ := bind_eq_ok.mp h
    have hr₂ := hr₁.seekBegin.searchFrom hseek
    dsimp only at h
    split at h
    · obtain ⟨-, -, rfl⟩ : _ ∧ _ ∧ r₂ = r' := by simpa using h
      exact hr₂
    obtain ⟨⟨begun, r₃⟩, hbegin, h⟩ := bind_eq_ok.mp h
    have hr₃ := hr₂.beginSub hbegin
    dsimp only at h
    split at h
    · obtain ⟨-, -, rfl⟩ : _ ∧ _ ∧ r₃ = r' := by simpa using h
      exact hr₃
    obtain ⟨⟨t, r₄⟩, hnext, h⟩ := bind_eq_ok.mp h
    have hr₄ := hr₃.next hnext
    dsimp only at h
    split at h
    · obtain ⟨-, -, rfl⟩ : _ ∧ _ ∧ r₄ = r' := by simpa using h
      exact hr₄
    obtain ⟨⟨begun, r₅⟩, hbegin, h⟩ := bind_eq_ok.mp h
    have hr₅ := hr₄.beginSub hbegin
    dsimp only at h
    split at h
    · obtain ⟨-, -, rfl⟩ : _ ∧ _ ∧ r₅ = r' := by simpa using h
      exact hr₅
    · obtain ⟨-, -, rfl⟩ : _ ∧ _ ∧ r₅ = r' := by simpa using h
      exact hr₅

/-- **The parsing of a reply in the receive buffer ends.** -/
theorem parseRegisterReply_ne_outOfFuel {size : ℕ} (hsize : size ≤ mem.length) :
    parseRegisterReply mem size ≠ .error .outOfFuel := by
  intro h
  rcases bind_eq_error.mp h with h | ⟨r₀, hmade, h⟩
  · exact ofBufferSize_ne_outOfFuel _ _ h
  have hr₀ := inside_ofBufferSize hsize hmade
  rcases bind_eq_error.mp h with h | ⟨⟨result, name, r₁⟩, hheader, h⟩
  · exact parseCommandResultHeader_ne_outOfFuel hr₀ h
  have hr₁ := inside_of_parseCommandResultHeader hr₀ hheader
  dsimp only at h
  split at h
  · simp at h
  rcases bind_eq_error.mp h with h | ⟨⟨ctrlId, r₂⟩, hget, h⟩
  · exact tryFindAndGetI32_ne_outOfFuel hr₁ h
  have hr₂ := inside_of_tryFindAndGetI32 hr₁ hget
  cases ctrlId with
  | none => simp at h
  | some ctrlId =>
    rcases bind_eq_error.mp h with h | ⟨⟨t, r₃⟩, hseek, h⟩
    · exact searchFrom_ne_outOfFuel hr₂.seekBegin h
    have hr₃ := hr₂.seekBegin.searchFrom hseek
    dsimp only at h
    split at h
    · simp at h
    rcases bind_eq_error.mp h with h | ⟨⟨begun, r₄⟩, hbegin, h⟩
    · exact beginSub_ne_outOfFuel _ _ h
    have hr₄ := hr₃.beginSub hbegin
    dsimp only at h
    split at h
    · simp at h
    rcases bind_eq_error.mp h with h | ⟨flags, -, h⟩
    · refine readControl_ne_outOfFuel hr₄ ?_ h
      have hend := hr₄.docEnd_nonneg
      split
      · rename_i hpos
        obtain ⟨hstart, -⟩ := hr₄.current hpos
        push_cast
        omega
      · push_cast
        omega
    · simp at h

end

end ScApi
