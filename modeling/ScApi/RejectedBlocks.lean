import ScApi.TelemetrySystem
import ScApi.VariableSnapshots

/-!
# After a block was rejected

`VariableProvider::initialize` and `TelemetrySystem::initialize` return early when a header is not what
they expect, and their caller is not told. The session goes on to update both of them at once and
periodically. An update reads the count of definitions through a pointer that is only set when a block
is accepted, and `VariableProvider::definitions` reads a count through a pointer that the rejection set
to null.

## Main results

* `exists_run_iff`: calls that answer from one state, among calls that stop there.
* `after_rejection_iff`: the sequences of calls that do not dereference a null pointer.
-/

open Bytes BoundedRead

namespace ScApi

/-- What a call tells: whether definitions are new, how many there are, or whether a search found
one. -/
inductive DefinitionsAnswer where
  | changed (new : Bool)
  | listed (count : ℕ)
  | found (any : Bool)
  deriving DecidableEq, Repr

/-- The answers of a list with nothing in it. -/
def DefinitionsAnswer.empty : DefinitionsAnswer → Bool
  | changed new => !new
  | listed count => count = 0
  | found any => !any

/-- The answers to some calls. -/
def answers {σ κ ε : Type} (perform : σ → κ → Except ε (DefinitionsAnswer × σ)) :
    σ → List κ → Except ε (List DefinitionsAnswer)
  | _, [] => pure []
  | s, c :: calls => do
      let (a, s) ← perform s c
      let rest ← answers perform s calls
      pure (a :: rest)

/-- **Calls that answer from one state**: when each call either answers that there is nothing and
leaves the state alone, or stops, a sequence of calls is answered exactly when none of them stops. -/
theorem exists_run_iff {σ κ ε : Type} {perform : σ → κ → Except ε (DefinitionsAnswer × σ)} {s : σ}
    {harmless : κ → Prop} (hanswers : ∀ c, harmless c → ∃ a, perform s c = .ok (a, s) ∧ a.empty = true)
    (hstops : ∀ c, ¬harmless c → ∃ e, perform s c = .error e) (calls : List κ) :
    (∃ as, answers perform s calls = .ok as ∧ ∀ a ∈ as, a.empty = true) ↔
      ∀ c ∈ calls, harmless c := by
  induction calls with
  | nil => exact iff_of_true ⟨[], rfl, nofun⟩ nofun
  | cons c calls ih =>
      rw [List.forall_mem_cons, ← ih]
      constructor
      · rintro ⟨as, has, hempty⟩
        obtain ⟨⟨a, t⟩, ha, hrest⟩ := bind_eq_ok.mp has
        have hc : harmless c := by
          by_contra hnot
          obtain ⟨e, he⟩ := hstops c hnot
          rw [he] at ha
          exact nomatch ha
        obtain ⟨a', ha', -⟩ := hanswers c hc
        obtain ⟨-, rfl⟩ := Prod.mk.inj (Except.ok.inj (ha.symm.trans ha'))
        obtain ⟨rest, hanswer, has⟩ := bind_eq_ok.mp hrest
        obtain rfl := Except.ok.inj has
        exact ⟨hc, rest, hanswer, fun b hb => hempty b (List.mem_cons_of_mem a hb)⟩
      · rintro ⟨hc, rest, hrest, hempty⟩
        obtain ⟨a, ha, haempty⟩ := hanswers c hc
        refine ⟨a :: rest, bind_eq_ok.mpr ⟨(a, s), ha, bind_eq_ok.mpr ⟨rest, hrest, rfl⟩⟩, ?_⟩
        exact List.forall_mem_cons.mpr ⟨haempty, hempty⟩

/-! ### Variables -/

/-- A call on the provider, or a search on the `VariableDefinitions` that was handed out last. -/
inductive VariableCall where
  | updateDefinitions (defBlock : List UInt8)
  | definitions
  | findByName (name : List UInt8) (device : UInt16)
  | findByType (name : List UInt8) (type : DataType) (device : UInt16)
  | findValuePointer (type : DataType) (name : List UInt8) (device : UInt16)
  deriving DecidableEq, Repr

/-- The call is a search. -/
def VariableCall.search : VariableCall → Bool
  | updateDefinitions _ | definitions => false
  | findByName _ _ | findByType _ _ _ | findValuePointer _ _ _ => true

/-- One call. -/
def VariableCall.perform : VariableProvider × VariableDefinitions → VariableCall →
    Provide (DefinitionsAnswer × VariableProvider × VariableDefinitions)
  | (p, d), updateDefinitions defBlock => do
      let (changed, p) ← p.updateDefinitions defBlock
      pure (.changed changed, p, d)
  | (p, _), definitions => do
      let d ← p.definitions
      pure (.listed d.size, p, d)
  | (p, d), findByName name device =>
      pure (.found (d.findByName p.exposed name device).valuePtr.isSome, p, d)
  | (p, d), findByType name type device =>
      pure (.found (d.findByType p.exposed name type device).valuePtr.isSome, p, d)
  | (p, d), findValuePointer type name device =>
      pure (.found (d.findValuePointer p.exposed type name device).isSome, p, d)

/-! ### Telemetry -/

/-- A call on the system, or a search on the `TelemetryDefinitions` that was handed out last. -/
inductive TelemetryCall where
  | updateDefinitions (defBlock : List UInt8)
  | getDefinitions
  | findByName (name : List UInt8)
  | findByType (name : List UInt8) (type : DataType)
  | findById (id : UInt16)
  deriving DecidableEq, Repr

/-- The call is an update. -/
def TelemetryCall.update : TelemetryCall → Bool
  | updateDefinitions _ => true
  | getDefinitions | findByName _ | findByType _ _ | findById _ => false

/-- One call. -/
def TelemetryCall.perform : TelemetrySystem × SharedDefinitions → TelemetryCall →
    Read (DefinitionsAnswer × TelemetrySystem × SharedDefinitions)
  | (s, d), updateDefinitions defBlock => do
      let (changed, s) ← s.updateDefinitions defBlock
      pure (.changed changed, s, d)
  | (s, _), getDefinitions => do
      let defs ← s.defsOf s.getDefinitions
      pure (.listed (SharedDefinitions.size defs), s, s.getDefinitions)
  | (s, d), findByName name => do
      let defs ← s.defsOf d
      pure (.found (SharedDefinitions.findByName defs name).isSome, s, d)
  | (s, d), findByType name type => do
      let defs ← s.defsOf d
      pure (.found (SharedDefinitions.findByType defs name type).isSome, s, d)
  | (s, d), findById id => do
      let defs ← s.defsOf d
      pure (.found (SharedDefinitions.findById defs id).isSome, s, d)

/-- A `TelemetryDefinitions` by its default constructor. -/
def emptyDefinitions : SharedDefinitions where
  storage := some 0

/-! ### Rejected blocks -/

/-- A provider that rejected its blocks has null pointers. -/
theorem header_of_rejected {defBlock valueBlock : List UInt8} {p : VariableProvider}
    (h : ({} : VariableProvider).initializeProvider defBlock valueBlock = .ok p)
    (hrejected : p.defChunk = none) : p.variableDefHeader = none := by
  rw [VariableProvider.initializeProvider] at h
  obtain ⟨defSize, -, h⟩ := bind_eq_ok.mp h
  obtain ⟨defOffset, -, h⟩ := bind_eq_ok.mp h
  obtain ⟨dataOffset, -, h⟩ := bind_eq_ok.mp h
  split_ifs at h with hcond hzero
  · obtain rfl := Except.ok.inj h
    rfl
  · obtain ⟨⟨changed, q⟩, hrefresh, h⟩ := bind_eq_ok.mp h
    obtain rfl : q = p := Except.ok.inj h
    obtain ⟨_, chunk, -, rfl, -⟩ := VariableProvider.refreshDefinitions_cases (by rfl) hrefresh
    exact absurd hrejected (Option.some_ne_none _)

/-- A system that rejected its block has the empty storage. -/
theorem eq_of_rejected {block : List UInt8} {s : TelemetrySystem}
    (h : ({} : TelemetrySystem).initializeTelemetry block = .ok s) (hrejected : s.defsHeader = none) :
    s = { curDefs := some 0 } := by
  rw [TelemetrySystem.initializeTelemetry] at h
  obtain ⟨dataSize, -, h⟩ := bind_eq_ok.mp h
  obtain ⟨defsOffset, -, h⟩ := bind_eq_ok.mp h
  split_ifs at h with hcond
  · exact (Except.ok.inj h).symm
  · obtain ⟨⟨changed, t⟩, hupdate, h⟩ := bind_eq_ok.mp h
    obtain rfl : t = s := Except.ok.inj h
    obtain ⟨-, -, rfl⟩ := (TelemetrySystem.updateDefinitions_eq_ok_iff rfl rfl).mp hupdate
    rw [(TelemetrySystem.alike_updated _ block).defsHeader] at hrejected
    exact absurd hrejected (Option.some_ne_none _)

/-- **After a block was rejected**, a sequence of calls dereferences no null pointer and is told of
nothing exactly when it has only searches for variables, and no updates for telemetry. -/
theorem after_rejection_iff {defBlock valueBlock block : List UInt8} {p : VariableProvider}
    {s : TelemetrySystem} (hp : ({} : VariableProvider).initializeProvider defBlock valueBlock = .ok p)
    (hpRejected : p.defChunk = none) (hs : ({} : TelemetrySystem).initializeTelemetry block = .ok s)
    (hsRejected : s.defsHeader = none) :
    (∀ calls, (∃ as, answers VariableCall.perform (p, {}) calls = .ok as ∧
        ∀ a ∈ as, a.empty = true) ↔ ∀ c ∈ calls, c.search = true) ∧
      ∀ calls, (∃ as, answers TelemetryCall.perform (s, emptyDefinitions) calls = .ok as ∧
        ∀ a ∈ as, a.empty = true) ↔ ∀ c ∈ calls, c.update = false := by
  constructor
  · have hheader := header_of_rejected hp hpRejected
    refine exists_run_iff (fun c hc => ?_) fun c hc => ?_
    · cases c with
      | updateDefinitions _ => exact absurd hc Bool.false_ne_true
      | definitions => exact absurd hc Bool.false_ne_true
      | findByName _ _ => exact ⟨_, rfl, rfl⟩
      | findByType _ _ _ => exact ⟨_, rfl, rfl⟩
      | findValuePointer _ _ _ => exact ⟨_, rfl, rfl⟩
    · cases c with
      | updateDefinitions block =>
          refine ⟨.read .nullPointer, ?_⟩
          rw [VariableCall.perform, VariableProvider.updateDefinitions,
            VariableProvider.refreshDefinitions, hheader]
          rfl
      | definitions =>
          refine ⟨.read .nullPointer, ?_⟩
          rw [VariableCall.perform, VariableProvider.definitions, hpRejected]
          rfl
      | findByName _ _ => exact absurd rfl hc
      | findByType _ _ _ => exact absurd rfl hc
      | findValuePointer _ _ _ => exact absurd rfl hc
  · obtain rfl := eq_of_rejected hs hsRejected
    refine exists_run_iff (fun c hc => ?_) fun c hc => ?_
    · cases c with
      | updateDefinitions _ => exact absurd hc.symm Bool.false_ne_true
      | getDefinitions => exact ⟨_, rfl, rfl⟩
      | findByName _ => exact ⟨_, rfl, rfl⟩
      | findByType _ _ => exact ⟨_, rfl, rfl⟩
      | findById _ => exact ⟨_, rfl, rfl⟩
    · cases c with
      | updateDefinitions block => exact ⟨.nullPointer, rfl⟩
      | getDefinitions => exact absurd rfl hc
      | findByName _ => exact absurd rfl hc
      | findByType _ _ => exact absurd rfl hc
      | findById _ => exact absurd rfl hc

open VariableProvider (twoDefinitions zeroValues)
open TelemetrySystem (telemetryBlock)

/-- A provider that rejected its blocks: the definitions would begin behind the block. -/
theorem rejects_header : ({} : VariableProvider).initializeProvider ((twoDefinitions 1).take 32)
    (zeroValues 8) = .ok { variableDefSize := 64 } := by
  decide +kernel

/-- A system that rejected its block: the size of a definition is too small. -/
theorem rejects_size : ({} : TelemetrySystem).initializeTelemetry (telemetryBlock 16 1)
    = .ok { curDefs := some 0 } := by
  decide +kernel

theorem after_rejection_searches :
    (∃ as, answers VariableCall.perform ({ variableDefSize := 64 }, {}) [.findByName [] 1] = .ok as ∧
        ∀ a ∈ as, a.empty = true) ∧
      ∃ as, answers TelemetryCall.perform ({ curDefs := some 0 }, emptyDefinitions)
        [.getDefinitions, .findById 1] = .ok as ∧ ∀ a ∈ as, a.empty = true :=
  ⟨((after_rejection_iff rejects_header rfl rejects_size rfl).1 _).mpr (by decide),
    ((after_rejection_iff rejects_header rfl rejects_size rfl).2 _).mpr (by decide)⟩

/-- **Updates and `definitions` dereference the null pointer.** -/
theorem not_after_rejection :
    ({} : VariableProvider).initializeProvider ((twoDefinitions 1).take 32) (zeroValues 8)
        = .ok { variableDefSize := 64 } ∧
      answers VariableCall.perform ({ variableDefSize := 64 }, {})
        [.updateDefinitions ((twoDefinitions 1).take 32)] = .error (.read .nullPointer) ∧
      answers VariableCall.perform ({ variableDefSize := 64 }, {}) [.definitions]
        = .error (.read .nullPointer) ∧
      ({} : TelemetrySystem).initializeTelemetry (telemetryBlock 16 1)
        = .ok { curDefs := some 0 } ∧
      answers TelemetryCall.perform ({ curDefs := some 0 }, emptyDefinitions)
        [.updateDefinitions (telemetryBlock 16 1)] = .error .nullPointer :=
  ⟨rejects_header, rfl, rfl, rejects_size, rfl⟩

end ScApi
