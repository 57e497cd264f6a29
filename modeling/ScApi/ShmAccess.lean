import ScApi.Lib.SharedBlock
import ScApi.Session

/-!
# Atomic reads of shared memory

The backend publishes the reference to its session, and the content of every other block, under a
revision counter. `tryCopySessionRef` copies the reference field by field, and
`shmTryAtomicDataAccess` runs a functor on a block; both read the counter before and after and give
up when it is odd or has changed.

## Main results

* `atomic_tryCopySessionRef`: the reference that `tryCopySessionRef` returns is never torn.
* `atomic_shmTryAtomicDataAccess`: nor is the data that a functor has read.
* `shmAccess_oneVersion`: both belong to one published version.
-/

namespace ScApi

open Runs SharedBlock SharedBlock.Reader SharedBlock.Reading

/-- A result of `p` that is good belongs to a version that was published, whatever the writer has
done before and does while `p` runs, as long as it publishes fewer than 2^31 versions meanwhile. -/
def ReadsOneVersion {ι α : Type} {V : ι → Type} [DecidableEq ι] (p : Reader V α)
    (Good : α → Prop) (BelongsTo : α → (∀ i, V i) → Prop) : Prop :=
  ∀ (counter : UInt32) (cells : ∀ i, V i) (before : List (Write V)) (ls : List (Label V))
    (b₀ b : Block V) (m : ℕ) (a : α),
    exec Block.write (.initial counter cells) before = some b₀ →
    exec step ⟨b₀, p, 0⟩ ls = some ⟨b, .done a, m⟩ →
    b.versions.length < b₀.versions.length + 2147483648 →
    Good a → ∃ v ∈ b.versions, BelongsTo a v

/-! ### The reference to the session -/

/-- `SC_API_PROTOCOL_IS_SHM_VERSION_COMPATIBLE`. -/
def isShmVersionCompatible (knownVersion shmVersion : UInt32) : Bool :=
  knownVersion &&& 0xffff0000 = shmVersion &&& 0xffff0000

/-- `SC_API_PROTOCOL_CORE_SHM_VERSION`. -/
def coreShmVersion : UInt32 := 0x00000001

/-- `SC_API_PROTOCOL_CORE_ACTIVE`. -/
def coreActive : UInt32 := 2

/-- The fields of an `SC_API_PROTOCOL_Core_t`, but for its revision counter. -/
inductive CoreField where
  | version
  | sessionId
  | sessionVersion
  | sessionShmSize
  | state
  | sessionShmPath (i : Fin 64)
  deriving DecidableEq, Repr

/-- The type of a field. -/
abbrev CoreField.Value : CoreField → Type
  | .sessionShmPath _ => UInt8
  | .version | .sessionId | .sessionVersion | .sessionShmSize | .state => UInt32

/-- `ApiCore::Impl::SessionRef`. -/
structure SessionRef where
  id : UInt32
  version : UInt32
  size : UInt32
  path : List UInt8
  deriving DecidableEq, Repr

/-- A result code that is an error. -/
abbrev ErrorCode : Type :=
  { code : ResultCode // code ≠ .ok }

/-- A character of the path. -/
def readPath (i : ℕ) : Reader CoreField.Value UInt8 :=
  readCell (CoreField.sessionShmPath (Fin.ofNat 64 i))

/-- The part of `tryCopySessionRef` between the two reads of the revision counter: the error it
returns, or the reference. The path is copied over an array of 64 characters. -/
def copySessionRef : Reader CoreField.Value (Except ErrorCode SessionRef) := do
  let version ← readCell .version
  if ¬ isShmVersionCompatible coreShmVersion version then
    pure (.error ⟨.errorIncompatible, by decide⟩)
  else do
    let state ← readCell .state
    if state ≠ coreActive then
      pure (.error ⟨.errorCannotConnect, by decide⟩)
    else do
      let id ← readCell .sessionId
      let version ← readCell .sessionVersion
      let size ← readCell .sessionShmSize
      let path ← copyInto readPath (List.range 64) (List.replicate 64 0)
      pure (.ok { id, version, size, path })

/-- The part of `tryCopySessionRef` from the second read of the revision counter on. -/
def recheckSessionRef (startRevision : UInt32) (session : SessionRef) :
    Except ErrorCode SessionRef → Reader CoreField.Value (ResultCode × SessionRef)
  | .error code => pure (code.1, session)
  | .ok session => do
      let revision ← readCounter
      if revision ≠ startRevision then
        pure (.errorBusy, session)
      else if session.path[63]? ≠ some 0 then
        pure (.errorProtocol, session)
      else
        pure (.ok, session)

/-- `ApiCore::Impl::tryCopySessionRef`. -/
def tryCopySessionRef (session : SessionRef) :
    Reader CoreField.Value (ResultCode × SessionRef) := do
  let startRevision ← readCounter
  if startRevision &&& 1 ≠ 0 then
    pure (.errorBusy, session)
  else
    copySessionRef >>= recheckSessionRef startRevision session

/-- The reference that a version of the block holds. -/
def sessionRefOf (v : ∀ i, CoreField.Value i) : SessionRef where
  id := v .sessionId
  version := v .sessionVersion
  size := v .sessionShmSize
  path := (List.finRange 64).map fun i => v (.sessionShmPath i)

/-! ### Access to a block -/

/-- The header of a shared memory block, but for its revision counter, and its data. -/
inductive ShmField (ι : Type) where
  | version
  | shmSize
  | data (i : ι)
  deriving DecidableEq, Repr

/-- The type of a field, for data of given types. -/
abbrev ShmField.Value {ι : Type} (V : ι → Type) : ShmField ι → Type
  | .data i => V i
  | .version | .shmSize => UInt32

variable {ι β : Type} {V : ι → Type}

/-- The part of `shmTryAtomicDataAccess` behind the call of the functor. -/
def recheckAccess (startRev : UInt32) :
    Bool × β → Reader (ShmField.Value V) (Bool × Option β)
  | (false, result) => pure (false, some result)
  | (true, result) => do
      let endRev ← readCounter
      pure (startRev = endRev, some result)

/-- `shmTryAtomicDataAccess`. The functor is given the size in the header; it returns a `bool` and
leaves a result, which is missing when it is not called. The header is copied field by field, but
the copy of its version is not looked at. -/
def shmTryAtomicDataAccess (f : UInt32 → Reader (ShmField.Value V) (Bool × β)) :
    Reader (ShmField.Value V) (Bool × Option β) := do
  let _ ← readCell .version
  let startRev ← readCounter
  let shmSize ← readCell .shmSize
  if startRev &&& 1 ≠ 0 ∨ startRev < 2 then
    pure (false, none)
  else
    f shmSize >>= recheckAccess startRev

/-! ### One version -/

section

variable {α : Type}

theorem not_busy_of_and {b : Block V} (h : ¬ b.counter &&& 1 ≠ 0) : ¬ b.Busy := by
  intro hbusy
  refine h fun h0 => ?_
  have hnat := congrArg UInt32.toNat h0
  rw [UInt32.toNat_and] at hnat
  have hone : b.counter.toNat &&& 1 = b.counter.toNat % 2 := Nat.and_one_is_mod _
  rw [Block.Busy] at hbusy
  simp [hone, hbusy] at hnat

variable [DecidableEq ι]

/-- A program that has ended has no other result. -/
theorem done_inj {b b' : Block V} {m m' : ℕ} {ls : List (Label V)} {a r : α}
    (h : exec step ⟨b, .done a, m⟩ ls = some ⟨b', .done r, m'⟩) : r = a :=
  Reader.done.inj (exec_done h)

end

/-- The path in a copy of an unchanging block. -/
theorem eval_copyPath (b : Block CoreField.Value) :
    (copyInto readPath (List.range 64) (List.replicate 64 0)).eval b =
      (List.finRange 64).map fun i => b.cells (.sessionShmPath i) := by
  refine List.ext_getElem? fun i => ?_
  rw [getElem?_copyInto]
  by_cases hi : i < 64
  · have hfin : (List.finRange 64)[i]? = some (Fin.ofNat 64 i) := by
      rw [List.getElem?_eq_getElem (by simpa using hi), List.getElem_finRange]
      exact congrArg some (Fin.ext (Nat.mod_eq_of_lt hi).symm)
    rw [List.getElem?_map, hfin]
    simp [readPath, readCell, hi]
  · simp [hi]

/-- What is copied of an unchanging block is its reference. -/
theorem eval_copySessionRef {b : Block CoreField.Value} {copy : SessionRef}
    (h : copySessionRef.eval b = .ok copy) : copy = sessionRefOf b.cells := by
  rw [copySessionRef, readCell_bind, eval_cell] at h
  split at h
  · simp at h
  rw [readCell_bind, eval_cell] at h
  split at h
  · simp at h
  simp only [readCell_bind, eval_cell, eval_bind, eval_copyPath, pure_eq_done, eval_done] at h
  exact (Except.ok.inj h).symm

/-- What `tryCopySessionRef` makes of an unchanged revision counter. -/
def acceptSessionRef (session : SessionRef) : ResultCode × SessionRef :=
  if session.path[63]? ≠ some 0 then (.errorProtocol, session) else (.ok, session)

theorem recheckSessionRef_ok (startRevision : UInt32) (session copy : SessionRef) :
    recheckSessionRef startRevision session (.ok copy) = .counter fun revision =>
      .done (if revision ≠ startRevision then (.errorBusy, copy) else acceptSessionRef copy) := by
  rw [recheckSessionRef, readCounter_bind]
  congr 1
  funext revision
  rw [acceptSessionRef]
  split
  · rfl
  · split <;> rfl

/-- A good reference from an unchanging block is the one that the block holds. -/
theorem eval_recheckSessionRef {b : Block CoreField.Value} {session : SessionRef}
    {r : ResultCode × SessionRef} (hok : r.1 = .ok)
    (h : (copySessionRef >>= recheckSessionRef b.counter session).eval b = r) :
    r.2 = sessionRefOf b.cells := by
  rw [eval_bind] at h
  cases hcopy : copySessionRef.eval b with
  | error code =>
      rw [hcopy] at h
      obtain rfl : (code.1, session) = r := h
      exact absurd hok code.2
  | ok copy =>
      rw [hcopy, recheckSessionRef_ok, eval_counter, eval_done, if_neg (by simp),
        acceptSessionRef] at h
      split at h
      · rw [← h] at hok
        exact absurd hok (by simp [ResultCode.errorProtocol, ResultCode.ok])
      · rw [← h]
        exact eval_copySessionRef hcopy

/-- **The reference to the session is never torn.** -/
theorem atomic_tryCopySessionRef (session : SessionRef) :
    ReadsOneVersion (tryCopySessionRef session) (fun r => r.1 = .ok)
      fun r v => r.2 = sessionRefOf v := by
  intro counter cells before ls b₀ b m r hbefore hrun hfew hok
  have hb₀ : b₀.Published := (Block.published_initial counter cells).writes hbefore
  rw [tryCopySessionRef, readCounter_bind] at hrun
  obtain ⟨ls₁, ls₂, b₁, -, hwait, hrun⟩ := exec_counter hrun
  have hb₁ : b₁.Published := hb₀.exec hwait
  have hbusy : ResultCode.errorBusy ≠ .ok := by decide
  by_cases hodd : b₁.counter &&& 1 ≠ 0
  · rw [if_pos hodd] at hrun
    rw [done_inj hrun] at hok
    exact absurd hok hbusy
  rw [if_neg hodd] at hrun
  have hidle := not_busy_of_and hodd
  obtain ⟨ls₃, ls₄, b₂, copied, m₂, -, hcopy, hrest, -, -⟩ := exec_bind hrun
  cases copied with
  | error code =>
      rw [done_inj hrest] at hok
      exact absurd hok code.2
  | ok copy =>
      rw [recheckSessionRef_ok] at hcopy hrest
      obtain ⟨ls₅, ls₆, b₃, -, hall, hend, hfrozen⟩ := exec_recheck hidle hcopy hrest
      have hr := done_inj hend
      by_cases hsame : b₃.counter ≠ b₁.counter
      · rw [if_pos hsame] at hr
        rw [hr] at hok
        exact absurd hok hbusy
      -- the counter is unchanged, so the result is that of the program on the block `b₁`
      rw [if_neg hsame] at hr
      have hle₁ : b₀.versions.length ≤ b₁.versions.length := (versions_exec hwait).length_le
      have hle₃ : b₃.versions.length ≤ b.versions.length := (versions_exec hend).length_le
      obtain ⟨rfl, heval⟩ := hfrozen (not_not.mp hsame) (by omega)
      rw [eval_done, if_neg (by simp), ← hr] at heval
      exact ⟨b₃.cells, (versions_exec hend).subset (hb₁ hidle), eval_recheckSessionRef hok heval.symm⟩

/-- The result of a functor on a version of the block with the given revision. -/
def onVersion (f : UInt32 → Reader (ShmField.Value V) (Bool × β)) (revision : UInt32)
    (v : ∀ i, ShmField.Value V i) : Bool × β :=
  (f (v .shmSize)).eval ⟨revision, v, []⟩

variable [DecidableEq ι]

/-- **The data of a block is never torn**: the functor has been given the size of a published version
and has read the data of this version. -/
theorem atomic_shmTryAtomicDataAccess (f : UInt32 → Reader (ShmField.Value V) (Bool × β)) :
    ReadsOneVersion (shmTryAtomicDataAccess f) (fun r => r.1 = true)
      fun r v => ∃ revision x, onVersion f revision v = (true, x) ∧ r.2 = some x := by
  intro counter cells before ls b₀ b m r hbefore hrun hfew hok
  have hb₀ : b₀.Published := (Block.published_initial counter cells).writes hbefore
  rw [shmTryAtomicDataAccess] at hrun
  obtain ⟨ls₁, ls₂, b₁, version, m₁, -, hversion, hrun, -, -⟩ := exec_bind hrun
  rw [readCounter_bind] at hversion hrun
  obtain ⟨ls₃, ls₄, b₂, -, hwait, hrun⟩ := exec_counter hrun
  obtain ⟨ls₅, ls₆, b₃, shmSize, m₃, -, hsize, hrun, -, -⟩ := exec_bind hrun
  by_cases hbusy : b₂.counter &&& 1 ≠ 0 ∨ b₂.counter < 2
  · rw [if_pos hbusy] at hrun
    simp [done_inj hrun] at hok
  rw [if_neg hbusy] at hsize hrun
  have hidle := not_busy_of_and (fun h => hbusy (Or.inl h))
  obtain ⟨ls₇, ls₈, b₄, ⟨accepted, x⟩, m₄, -, hf, hrest, -, -⟩ := exec_bind hrun
  cases accepted with
  | false =>
      have hfalse : r.1 = false := congrArg Prod.fst (done_inj hrest)
      simp [hfalse] at hok
  | true =>
      have hall := exec_append.mpr ⟨_, hsize, hf⟩
      rw [recheckAccess, readCounter_bind] at hall hrest
      obtain ⟨ls₉, ls₁₀, b₅, -, hall, hend, hfrozen⟩ := exec_recheck hidle hall hrest
      obtain rfl := done_inj hend
      have hsame : b₅.counter = b₂.counter := (of_decide_eq_true hok).symm
      have hle₁ : b₀.versions.length ≤ b₁.versions.length := (versions_exec hversion).length_le
      have hle₂ : b₁.versions.length ≤ b₂.versions.length := (versions_exec hwait).length_le
      have hle₅ : b₅.versions.length ≤ b.versions.length := (versions_exec hend).length_le
      obtain ⟨rfl, heval⟩ := hfrozen hsame (by omega)
      have hb₅ : b₅.Published := (hb₀.exec hversion).exec hwait
      refine ⟨b₅.cells, (versions_exec hend).subset (hb₅ hidle), b₅.counter, x, ?_, rfl⟩
      have hcongr : (f (b₅.cells .shmSize)).eval b₅ = onVersion f b₅.counter b₅.cells :=
        eval_congr b₅ ⟨b₅.counter, b₅.cells, []⟩ rfl rfl _
      rw [readCell_bind, eval_cell, if_neg hbusy, eval_bind, hcongr] at heval
      generalize onVersion f b₅.counter b₅.cells = result at heval ⊢
      obtain ⟨accepted', x'⟩ := result
      cases accepted' with
      | false =>
          have hfst : decide (b₅.counter = b₅.counter) = false := congrArg Prod.fst heval
          simp at hfst
      | true =>
          rw [recheckAccess, readCounter_bind, eval_counter] at heval
          rw [Option.some.inj (congrArg Prod.snd heval)]

/-- **What is accepted has been read from one version**: the reference to the session, and the data
of every other block. -/
theorem shmAccess_oneVersion :
    (∀ session : SessionRef, ReadsOneVersion (tryCopySessionRef session) (fun r => r.1 = .ok)
      fun r v => r.2 = sessionRefOf v) ∧
    ∀ (ι β : Type) (V : ι → Type) [DecidableEq ι]
      (f : UInt32 → Reader (ShmField.Value V) (Bool × β)),
      ReadsOneVersion (shmTryAtomicDataAccess f) (fun r => r.1 = true)
        fun r v => ∃ revision x, onVersion f revision v = (true, x) ∧ r.2 = some x :=
  ⟨atomic_tryCopySessionRef, fun _ _ _ _ => atomic_shmTryAtomicDataAccess⟩

/-- A functor that reads two bytes. -/
def readPair (_ : UInt32) : Reader (ShmField.Value fun _ : Bool => UInt8) (Bool × UInt8 × UInt8) := do
  let first ← readCell (.data false)
  let second ← readCell (.data true)
  pure (true, first, second)

/-- The fields of a block with two bytes. -/
def pairFields (first second : UInt8) : ∀ i, ShmField.Value (fun _ : Bool => UInt8) i
  | .version | .shmSize => 0
  | .data i => if i then second else first

/-- A version is published before the access, and another one before the counter is read. -/
theorem shmAccess_oneVersion_published : ∃ b₀ b m,
    exec Block.write (.initial 2 (pairFields 1 1))
      [.start, .cell (.data false) 3, .cell (.data true) 4, .publish] = some b₀ ∧
    exec step ⟨b₀, shmTryAtomicDataAccess readPair, 0⟩
      [.read, .write .start, .write (.cell (.data false) 5), .write .publish, .read, .read, .read,
        .read, .read] = some ⟨b, .done (true, some (5, 4)), m⟩ ∧
    ∃ v ∈ b.versions, v (.data false) = (5 : UInt8) ∧ v (.data true) = (4 : UInt8) := by
  obtain ⟨b₀, b, m, hbefore, hrun, hfew⟩ : ∃ b₀ b m,
      exec Block.write (.initial 2 (pairFields 1 1))
        [.start, .cell (.data false) 3, .cell (.data true) 4, .publish] = some b₀ ∧
      exec step ⟨b₀, shmTryAtomicDataAccess readPair, 0⟩
        [.read, .write .start, .write (.cell (.data false) 5), .write .publish, .read, .read, .read,
          .read, .read] = some ⟨b, .done (true, some (5, 4)), m⟩ ∧
      b.versions.length < b₀.versions.length + 2147483648 :=
    ⟨_, _, _, rfl, rfl, show 3 < 2 + 2147483648 by decide⟩
  obtain ⟨v, hv, revision, x, hx, heq⟩ := shmAccess_oneVersion.2 Bool (UInt8 × UInt8) (fun _ => UInt8)
    readPair 2 (pairFields 1 1) _ _ b₀ b m _ hbefore hrun hfew rfl
  have hread : onVersion readPair revision v = (true, v (.data false), v (.data true)) := rfl
  rw [hread] at hx
  obtain ⟨-, rfl⟩ := Prod.mk.inj hx
  obtain ⟨hfirst, hsecond⟩ := Prod.mk.inj (Option.some.inj heq)
  exact ⟨b₀, b, m, hbefore, hrun, v, hv, hfirst.symm, hsecond.symm⟩

end ScApi
