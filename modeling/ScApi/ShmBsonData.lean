import ScApi.ShmAccess
import ScApi.ValidateEnds

/-!
# BSON documents in shared memory

A `BsonShmDataProvider` keeps a copy of the document that the backend has published in a block of
shared memory. `update` reads the block in up to three attempts under a shared lock, validates what
it has read, and replaces the copy under an exclusive lock if no other thread has done so in between.
The attempts share their variables, so one that fails leaves something behind for the next.

However the block changes between two reads, the copy is a valid document. A validation may read behind
the buffer that was read; then its result depends on what stands there, and the copy need not be valid
later.

## Main results

* `all_updateLoop`: the size of what the attempts have read.
* `step_cases`: what a section of `update` does to the copy.
* `update_runs`: both for runs of any number of threads, as long as no validation reads behind its
  buffer.
-/

open Bytes BoundedRead

namespace ScApi

open Runs SharedBlock SharedBlock.Reader

/-! ### Reading the block -/

/-- What stands behind the header of an `SC_API_PROTOCOL_BsonDataShm_t`, its flags apart, and the
bytes of the block. -/
inductive BsonShmData where
  | dataOffset
  | dataSize
  | byte (i : ℕ)
  deriving DecidableEq, Repr

/-- The type of a field. -/
abbrev BsonShmData.Value : BsonShmData → Type
  | .byte _ => UInt8
  | .dataOffset | .dataSize => UInt32

/-- The fields of the whole block. -/
abbrev BsonShm : ShmField BsonShmData → Type :=
  ShmField.Value BsonShmData.Value

/-- The variables that the attempts of `update` share. The buffer is allocated with
`newBufferSize` bytes. -/
structure UpdateLocals where
  newRevision : UInt32 := 0
  newBufferSize : UInt32 := 0
  newBuffer : Option (List UInt8) := none
  validData : Bool := false
  deriving DecidableEq, Repr

/-- The copy of the data: a new buffer if the size has changed. There is no buffer to copy to as long
as no data has been seen. -/
def copyData (dataOffset dataSize : UInt32) (u : UpdateLocals) :
    Reader BsonShm (Option (List UInt8)) :=
  let buffer := if u.newBufferSize ≠ dataSize then
    some (List.replicate dataSize.toNat 0) else u.newBuffer
  match buffer with
  | none => pure none
  | some buffer => do
      let copied ← copyInto (fun i => readCell (V := BsonShm) (.data (.byte (dataOffset.toNat + i))))
        (List.range dataSize.toNat) buffer
      pure (some copied)

/-- The functor of `update`. -/
def readNewData (oldRevision : UInt32) (bufferChanged : Bool) (shmBufferSize : ℕ)
    (u : UpdateLocals) (hdrReportedSize : UInt32) : Reader BsonShm (Bool × UpdateLocals) := do
  let revision ← readCounter
  if revision = oldRevision ∧ ¬ bufferChanged then
    pure (true, u)
  else if hdrReportedSize.toNat > shmBufferSize then
    pure (false, { u with validData := false })
  else do
    let newRevision ← readCounter
    let u := { u with newRevision }
    let dataOffset ← readCell (V := BsonShm) (.data .dataOffset)
    let dataSize ← readCell (V := BsonShm) (.data .dataSize)
    let checkedOffset ← readCell (V := BsonShm) (.data .dataOffset)
    if dataSize.toNat + checkedOffset.toNat > hdrReportedSize.toNat then
      pure (false, { u with validData := false })
    else do
      let newBuffer ← copyData dataOffset dataSize u
      pure (true, { u with validData := true, newBufferSize := dataSize, newBuffer })

/-- The loop of `update` with the attempts that are left; `none` when the data has not changed. -/
def updateLoop (oldRevision : UInt32) (bufferChanged : Bool) (shmBufferSize : ℕ) :
    ℕ → Bool → UpdateLocals → Reader BsonShm (Option (Bool × UpdateLocals))
  | 0, accessSuccess, u => pure (some (accessSuccess, u))
  | n + 1, _, u => do
      let u := { u with validData := false }
      let (accessSuccess, result) ←
        shmTryAtomicDataAccess (readNewData oldRevision bufferChanged shmBufferSize u)
      let u := result.getD u
      if accessSuccess ∧ u.newRevision = 0 then
        pure none
      else if accessSuccess ∧ u.validData then
        pure (some (true, u))
      else
        updateLoop oldRevision bufferChanged shmBufferSize n accessSuccess u

/-! ### The provider -/

/-- The classes of providers, by their `parseAndValidateNewData`. -/
inductive ProviderClass where
  | bsonShmDataProvider
  | deviceInfoProvider
  deriving DecidableEq, Repr

/-- `parseAndValidateNewData`, with the bytes that can be read behind the data. -/
def ProviderClass.parseAndValidateNewData (newData : Option (List UInt8)) (behind : List UInt8)
    (size : ℕ) : ProviderClass → Read Bool
  | .bsonShmDataProvider => pure true
  | .deviceInfoProvider => do
      let reader ← BsonReader.ofBufferSize (newData.map (· ++ behind)) size
      let (valid, _) ← reader.validateHere (newData.getD [] ++ behind)
      pure valid

/-- `UpdateResult`. -/
inductive UpdateResult where
  | newData
  | noNewData
  | failed
  deriving DecidableEq, Repr

/-- A `BsonShmDataProvider`; of the block it knows the size that is mapped. -/
structure BsonShmDataProvider where
  shmBuffer : Option ℕ := none
  activeBuffer : Option (List UInt8) := none
  activeBufferSize : UInt32 := 0
  activeBufferRevision : UInt32 := 0
  bufferChanged : Bool := false
  deriving DecidableEq, Repr

/-- `BsonShmDataProvider::setShmBuffer`. -/
def BsonShmDataProvider.setShmBuffer (shmBuffer : Option ℕ) (_p : BsonShmDataProvider) :
    BsonShmDataProvider where
  shmBuffer
  bufferChanged := true

/-- A call of `update` between its two sections. -/
structure PendingUpdate where
  oldRevision : UInt32
  locals : UpdateLocals
  deriving DecidableEq, Repr

/-- A provider, the calls that are under way, and what the others have returned. -/
structure UpdateSystem where
  provider : BsonShmDataProvider
  pending : List PendingUpdate := []
  results : List UpdateResult := []
  deriving DecidableEq, Repr

/-- A section of a call of `update`: the attempts under the shared lock with the validation, given
what the block is at each read, or the end under the exclusive lock. Behind the buffer that is validated
stand any bytes. -/
inductive UpdateStep where
  | read (contents : ℕ → Block BsonShm) (behind : List UInt8)
  | replace (i : ℕ) (behind : List UInt8)

namespace UpdateSystem

/-- A call returns. -/
def returned (result : UpdateResult) (w : UpdateSystem) : UpdateSystem :=
  { w with results := w.results ++ [result] }

/-- The attempts to read a block of which some bytes are mapped. -/
def attempts (contents : ℕ → Block BsonShm) (shmBufferSize : ℕ) (p : BsonShmDataProvider) :
    Option (Bool × UpdateLocals) :=
  (updateLoop p.activeBufferRevision p.bufferChanged shmBufferSize 3 false {}).evalSeq contents

/-- The attempts and the validation. -/
def read (contents : ℕ → Block BsonShm) (behind : List UInt8) (w : UpdateSystem) :
    Option UpdateSystem :=
  match w.provider.shmBuffer with
  | none => some (w.returned .failed)
  | some shmBufferSize =>
      let oldRevision := w.provider.activeBufferRevision
      match attempts contents shmBufferSize w.provider with
      | none => some (w.returned .noNewData)
      | some (false, _) => some (w.returned .failed)
      | some (true, locals) =>
          match locals.newBuffer with
          | none => some { w with pending := w.pending ++ [⟨oldRevision, locals⟩] }
          | some bytes =>
              match BsonReader.validate (bytes ++ behind) locals.newBufferSize.toNat with
              | .error _ => none
              | .ok false => some (w.returned .failed)
              | .ok true => some { w with pending := w.pending ++ [⟨oldRevision, locals⟩] }

/-- The end of `update`, for a call that is no longer among the pending ones. -/
def replace (cls : ProviderClass) (u : PendingUpdate) (behind : List UInt8) (w : UpdateSystem) :
    Option UpdateSystem :=
  if u.oldRevision ≠ w.provider.activeBufferRevision then
    some (w.returned .newData)
  else
    match cls.parseAndValidateNewData u.locals.newBuffer behind u.locals.newBufferSize.toNat with
    | .error _ => none
    | .ok false => some (w.returned .failed)
    | .ok true => some (returned .newData { w with provider := { w.provider with
        activeBuffer := u.locals.newBuffer
        activeBufferSize := u.locals.newBufferSize
        activeBufferRevision := u.locals.newRevision
        bufferChanged := false } })

/-- One step. -/
def step (cls : ProviderClass) (w : UpdateSystem) : UpdateStep → Option UpdateSystem
  | .read contents behind => w.read contents behind
  | .replace i behind =>
      match w.pending[i]? with
      | some u => replace cls u behind { w with pending := w.pending.eraseIdx i }
      | none => none

/-- The condition on a step: the validation of what was read reads nothing behind the buffer. -/
def Guarded (w : UpdateSystem) : UpdateStep → Prop
  | .read contents _ => ∀ shmBufferSize ∈ w.provider.shmBuffer,
      ∀ result ∈ attempts contents shmBufferSize w.provider, ∀ bytes ∈ result.2.newBuffer,
        ∃ valid, BsonReader.validate bytes result.2.newBufferSize.toNat = .ok valid
  | .replace _ _ => True

instance (w : UpdateSystem) : ∀ l : UpdateStep, Decidable (w.Guarded l)
  | .read _ _ => inferInstanceAs (Decidable (∀ shmBufferSize ∈ _, ∀ result ∈ _, ∀ bytes ∈ _,
      ∃ _ : Bool, _ = _))
  | .replace _ _ => inferInstanceAs (Decidable True)

end UpdateSystem

/-- The buffer is missing, or it has `size` bytes and is a valid document, whatever stands behind it. -/
def HoldsValid (buffer : Option (List UInt8)) (size : UInt32) : Prop :=
  ∀ bytes ∈ buffer, bytes.length = size.toNat ∧ BsonReader.validate bytes size.toNat = .ok true

/-- What a step does to the copy: nothing, or a call returns `new_data` and the buffer, its size and
its revision all come from one read. -/
def UpdateSystem.CopyStep (w w' : UpdateSystem) : Prop :=
  w'.provider = w.provider ∨
    w'.results = w.results ++ [.newData] ∧ ∃ u ∈ w.pending, w'.provider = { w.provider with
      activeBuffer := u.locals.newBuffer
      activeBufferSize := u.locals.newBufferSize
      activeBufferRevision := u.locals.newRevision
      bufferChanged := false }

/-! ### What is read -/

/-- The buffer of the attempts has the size that goes with it. -/
def UpdateLocals.Sized (u : UpdateLocals) : Prop :=
  ∀ bytes ∈ u.newBuffer, bytes.length = u.newBufferSize.toNat

/-- What holds of all results of a functor holds of what an access leaves behind. -/
theorem all_shmTryAtomicDataAccess {ι β : Type} {V : ι → Type} {P : β → Prop}
    {f : UInt32 → Reader (ShmField.Value V) (Bool × β)}
    (h : ∀ size, (f size).All fun r => P r.2) :
    (shmTryAtomicDataAccess f).All fun r => ∀ x ∈ r.2, P x := by
  rw [shmTryAtomicDataAccess]
  refine all_bind (fun _ => all_bind (fun startRev => all_bind (fun size => ?_) _) _) _
  split
  · intro x hx
    simp at hx
  · refine (h size).bind fun r hr => ?_
    obtain ⟨accepted, x⟩ := r
    cases accepted with
    | false =>
        rintro y ⟨⟩
        exact hr
    | true =>
        rintro endRev y ⟨⟩
        exact hr

/-- The buffer has the size of the data, whether it is a new one or not. -/
theorem all_copyData {u : UpdateLocals} (hu : u.Sized) (dataOffset dataSize : UInt32) :
    (copyData dataOffset dataSize u).All fun buffer =>
      ∀ bytes ∈ buffer, bytes.length = dataSize.toNat := by
  have hsize : ∀ bytes ∈ (if u.newBufferSize ≠ dataSize then
      some (List.replicate dataSize.toNat 0) else u.newBuffer), bytes.length = dataSize.toNat := by
    intro bytes hbytes
    split at hbytes
    · rw [← Option.some.inj hbytes, List.length_replicate]
    · rename_i hsame
      rw [hu bytes hbytes, not_not.mp hsame]
  rw [copyData]
  split
  · intro bytes hbytes
    simp at hbytes
  · rename_i buffer hbuffer
    refine (all_copyInto _ (fun i hi => List.mem_range.mp hi) buffer).bind fun copied hcopied => ?_
    rintro bytes ⟨⟩
    rw [hcopied.1, hsize buffer hbuffer]

/-- **An attempt** leaves a buffer of its size behind, accepted or not. -/
theorem all_readNewData {u : UpdateLocals} (hu : u.Sized) (oldRevision : UInt32)
    (bufferChanged : Bool) (shmBufferSize : ℕ) (hdrReportedSize : UInt32) :
    (readNewData oldRevision bufferChanged shmBufferSize u hdrReportedSize).All fun r =>
      r.2.Sized := by
  rw [readNewData]
  refine all_bind (fun revision => ?_) _
  split
  · exact hu
  split
  · exact hu
  refine all_bind (fun newRevision => all_bind (fun dataOffset => all_bind (fun dataSize =>
    all_bind (fun checkedOffset => ?_) _) _) _) _
  split
  · exact hu
  · have hcopy := all_copyData (u := { u with newRevision }) hu dataOffset dataSize
    exact hcopy.bind fun newBuffer hbuffer => hbuffer

/-- **All attempts**: whatever the failed ones have left behind, the buffer at the end has its
size. -/
theorem all_updateLoop {u : UpdateLocals} (hu : u.Sized) (oldRevision : UInt32)
    (bufferChanged : Bool) (shmBufferSize n : ℕ) (accessSuccess : Bool) :
    (updateLoop oldRevision bufferChanged shmBufferSize n accessSuccess u).All fun r =>
      ∀ x ∈ r, x.2.Sized := by
  induction n generalizing accessSuccess u with
  | zero =>
      rintro x ⟨⟩
      exact hu
  | succ n ih =>
      rw [updateLoop]
      have haccess := all_shmTryAtomicDataAccess (P := UpdateLocals.Sized)
        (all_readNewData (u := { u with validData := false }) hu oldRevision bufferChanged
          shmBufferSize)
      refine haccess.bind fun r hr => ?_
      obtain ⟨success, result⟩ := r
      have hlocals : UpdateLocals.Sized (result.getD { u with validData := false }) := by
        cases result with
        | none => exact hu
        | some x => exact hr x rfl
      dsimp only
      split
      · intro x hx
        simp at hx
      split
      · rintro x ⟨⟩
        exact hlocals
      · exact ih hlocals success

/-! ### Runs -/

namespace UpdateSystem

variable {cls : ProviderClass} {w w' : UpdateSystem}

/-- **The first section**: the call returns without new data, or it goes on with a valid document, if
its validation reads nothing behind it. -/
theorem read_cases {contents : ℕ → Block BsonShm} {behind : List UInt8}
    (h : w.read contents behind = some w') :
    (∃ result, w' = w.returned result) ∨
      ∃ u, w' = { w with pending := w.pending ++ [u] } ∧
        (Guarded w (.read contents behind) →
          HoldsValid u.locals.newBuffer u.locals.newBufferSize) := by
  rw [read] at h
  split at h
  · exact Or.inl ⟨.failed, (Option.some.inj h).symm⟩
  rename_i shmBufferSize hmapped
  dsimp only at h
  have hall := (all_updateLoop (u := {}) (by simp [UpdateLocals.Sized])
    w.provider.activeBufferRevision w.provider.bufferChanged shmBufferSize 3 false).evalSeq contents
  split at h
  · exact Or.inl ⟨.noNewData, (Option.some.inj h).symm⟩
  · exact Or.inl ⟨.failed, (Option.some.inj h).symm⟩
  rename_i locals hattempts
  have hsized : locals.Sized := hall (true, locals) hattempts
  split at h
  · rename_i hnone
    refine Or.inr ⟨_, (Option.some.inj h).symm, fun _ bytes hbytes => ?_⟩
    rw [hnone] at hbytes
    simp at hbytes
  rename_i bytes hbytes
  split at h
  · simp at h
  · exact Or.inl ⟨.failed, (Option.some.inj h).symm⟩
  · rename_i hvalid
    refine Or.inr ⟨_, (Option.some.inj h).symm, fun hok bytes' hbytes' => ?_⟩
    obtain rfl : bytes = bytes' := Option.some.inj (hbytes.symm.trans hbytes')
    -- the bytes behind the buffer have not been read
    obtain ⟨valid, hinside⟩ := hok shmBufferSize hmapped _ hattempts bytes hbytes
    have hsame := extends_validate bytes behind _ valid hinside
    obtain rfl : valid = true := Except.ok.inj (hsame.symm.trans hvalid)
    exact ⟨hsized bytes hbytes, hinside⟩

/-- **The second section**: the copy stays as it is, or it is replaced. -/
theorem replace_cases {u : PendingUpdate} {behind : List UInt8}
    (h : w.replace cls u behind = some w') :
    (∃ result, w' = w.returned result) ∨ w' = returned .newData { w with provider := { w.provider with
      activeBuffer := u.locals.newBuffer
      activeBufferSize := u.locals.newBufferSize
      activeBufferRevision := u.locals.newRevision
      bufferChanged := false } } := by
  rw [replace] at h
  split at h
  · exact Or.inl ⟨.newData, (Option.some.inj h).symm⟩
  split at h
  · simp at h
  · exact Or.inl ⟨.failed, (Option.some.inj h).symm⟩
  · exact Or.inr (Option.some.inj h).symm

/-- **The invariant**: the copy is valid, and so is what may become the copy. -/
structure Invariant (w : UpdateSystem) : Prop where
  active : HoldsValid w.provider.activeBuffer w.provider.activeBufferSize
  pending : ∀ u ∈ w.pending, HoldsValid u.locals.newBuffer u.locals.newBufferSize

theorem Invariant.erase (hw : Invariant w) (i : ℕ) :
    Invariant { w with pending := w.pending.eraseIdx i } where
  active := hw.active
  pending := fun u hu => hw.pending u (List.mem_of_mem_eraseIdx hu)

/-- **What a section of `update` does to the copy.** -/
theorem copyStep_of_step {l : UpdateStep} (h : w.step cls l = some w') : w.CopyStep w' := by
  cases l with
  | read contents behind =>
      rw [step] at h
      rcases read_cases h with ⟨result, rfl⟩ | ⟨u, rfl, -⟩
      · exact Or.inl rfl
      · exact Or.inl rfl
  | replace i behind =>
      rw [step] at h
      split at h
      · rename_i u hu
        rcases replace_cases h with ⟨result, rfl⟩ | rfl
        · exact Or.inl rfl
        · exact Or.inr ⟨rfl, u, List.mem_of_getElem? hu, rfl⟩
      · simp at h

/-- **A section that meets the condition** keeps the copy valid. -/
theorem step_invariant {l : UpdateStep} (hw : Invariant w) (hok : w.Guarded l)
    (h : w.step cls l = some w') : Invariant w' := by
  cases l with
  | read contents behind =>
      rw [step] at h
      rcases read_cases h with ⟨result, rfl⟩ | ⟨u, rfl, hu⟩
      · exact ⟨hw.active, hw.pending⟩
      · refine ⟨hw.active, fun u' hu' => ?_⟩
        rcases List.mem_append.mp hu' with hold | hnew
        · exact hw.pending u' hold
        · rw [List.mem_singleton.mp hnew]
          exact hu hok
  | replace i behind =>
      rw [step] at h
      split at h
      · rename_i u hu
        rcases replace_cases h with ⟨result, rfl⟩ | rfl
        · exact ⟨hw.active, (hw.erase i).pending⟩
        · exact ⟨hw.pending u (List.mem_of_getElem? hu), (hw.erase i).pending⟩
      · simp at h

/-- **The copy in every run** of calls of `update` in which no validation reads behind its buffer,
whatever the block holds at each read: it is missing or a valid document, and its buffer, size and
revision change together, in a step that returns `new_data`. -/
theorem update_runs (p : BsonShmDataProvider) (shmBuffer : Option ℕ) {ls : List UpdateStep}
    (hok : Runs.Meets (step cls) Guarded ⟨p.setShmBuffer shmBuffer, [], []⟩ ls)
    (h : exec (step cls) ⟨p.setShmBuffer shmBuffer, [], []⟩ ls = some w) :
    HoldsValid w.provider.activeBuffer w.provider.activeBufferSize ∧
      ∀ l w', w.step cls l = some w' → w.CopyStep w' := by
  have hinitial : Invariant ⟨p.setShmBuffer shmBuffer, [], []⟩ :=
    ⟨by simp [HoldsValid, BsonShmDataProvider.setShmBuffer], by simp⟩
  exact ⟨(hok.invariant step_invariant hinitial h).active, fun l w' => copyStep_of_step⟩

/-- A block with a document behind its first 16 bytes. -/
def publishedDocument (bytes : List UInt8) : Block BsonShm where
  counter := 2
  cells
    | .version => 1
    | .shmSize => 64
    | .data .dataOffset => 16
    | .data .dataSize => UInt32.ofNat bytes.length
    | .data (.byte i) => bytes.getD (i - 16) 0
  versions := []

/-- The document `{"a": true}`. -/
def trueDocument : Block BsonShm :=
  publishedDocument [9, 0, 0, 0, 8, 97, 0, 1, 0]

/-- Two calls read the document, and one of them replaces the copy. -/
def twoCalls : List UpdateStep :=
  [.read (fun _ => trueDocument) [], .read (fun _ => trueDocument) [1], .replace 0 [], .replace 0 [1]]

theorem update_runs_document :
    ∃ w, exec (step .deviceInfoProvider) ⟨BsonShmDataProvider.setShmBuffer (some 64) {}, [], []⟩
        twoCalls = some w ∧
      HoldsValid w.provider.activeBuffer w.provider.activeBufferSize ∧
      ∀ l w', w.step .deviceInfoProvider l = some w' → w.CopyStep w' :=
  have hrun : exec (step .deviceInfoProvider)
      ⟨BsonShmDataProvider.setShmBuffer (some 64) {}, [], []⟩ twoCalls = some _ := rfl
  ⟨_, hrun, update_runs {} (some 64) (by decide +kernel) hrun⟩

/-- A boolean ends the buffer. The byte behind it is read for the type of a further element. -/
def openDocument : List UInt8 :=
  [7, 0, 0, 0, 8, 0, 1]

/-- **A document is accepted for the byte behind it**: the copy is no valid document. -/
theorem not_update_runs :
    ¬ ∀ (cls : ProviderClass) (p : BsonShmDataProvider) (shmBuffer : Option ℕ) (ls : List UpdateStep)
      (w : UpdateSystem), exec (step cls) ⟨p.setShmBuffer shmBuffer, [], []⟩ ls = some w →
      HoldsValid w.provider.activeBuffer w.provider.activeBufferSize := by
  intro h
  have hrun : exec (step .bsonShmDataProvider)
      ⟨BsonShmDataProvider.setShmBuffer (some 64) {}, [], []⟩
      [.read (fun _ => publishedDocument openDocument) [0], .replace 0 []] = some _ := rfl
  obtain ⟨-, hvalid⟩ := h _ _ _ _ _ hrun openDocument (by decide +kernel)
  exact absurd hvalid (by decide +kernel)

end UpdateSystem

end ScApi
