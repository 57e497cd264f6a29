import ScApi.DeviceInfo
import ScApi.Lib.Related
import ScApi.ShmBsonData
import ScApi.SimData

/-!
# Parsed data

`parseSimData` and `parseDeviceInfo` make an object of the copy that a `BsonShmDataProvider` holds,
and keep it for the next call. Before they return the one that they have kept they compare it with the
copy: the one by its revision and its buffer, the other by its revision alone.

The revision of a `SimData` is never set. An object with a copy behind it is never taken for that of
the copy, and a new one is made at every call. A `FullInfo` has the revision of its copy, and is taken
for that of every later copy with the same revision.

## Main results

* `update_cases`: what a call of `update` on its own does.
* `SimDataInvariant.right_iff`, `DeviceInfoInvariant.right_iff`: which calls return the object of the
  copy, and the same object as long as the copy stays.
* `rightCalls_iff`: the runs in which all calls do.
-/

open Bytes BoundedRead

namespace ScApi

open Relating Runs SharedBlock SharedBlock.Reader

/-! ### A call of `update` -/

/-- The end of `update` in a single thread, for a call that has not returned yet. -/
def UpdateSystem.finish (cls : ProviderClass) (w : UpdateSystem) : Option UpdateSystem :=
  match w.pending with
  | [] => some w
  | u :: rest => UpdateSystem.replace cls u [] { w with pending := rest }

/-- `update` in a single thread: its two sections, one after the other. A validation that reads behind
the buffer has no result. -/
def BsonShmDataProvider.update (cls : ProviderClass) (contents : ℕ → Block BsonShm)
    (p : BsonShmDataProvider) : Option (UpdateResult × BsonShmDataProvider) := do
  let w ← UpdateSystem.read contents [] ⟨p, [], []⟩
  let w ← w.finish cls
  let result ← w.results.head?
  some (result, w.provider)

/-- What the attempts have read has a revision, unless no data has been seen. -/
theorem all_updateLoop_revision {u : UpdateLocals} {accessSuccess : Bool}
    (hu : accessSuccess = true → u.newRevision ≠ 0) (oldRevision : UInt32) (bufferChanged : Bool)
    (shmBufferSize n : ℕ) :
    (updateLoop oldRevision bufferChanged shmBufferSize n accessSuccess u).All fun r =>
      ∀ x ∈ r, x.1 = true → x.2.newRevision ≠ 0 := by
  induction n generalizing accessSuccess u with
  | zero =>
      rintro x ⟨⟩
      exact hu
  | succ n ih =>
      rw [updateLoop]
      refine all_bind (fun r => ?_) _
      obtain ⟨success, result⟩ := r
      dsimp only
      split
      · intro x hx
        simp at hx
      rename_i hsome
      split
      · rename_i hvalid
        rintro x ⟨⟩ -
        exact fun hzero => hsome ⟨hvalid.1, hzero⟩
      · exact ih fun hsuccess hzero => hsome ⟨hsuccess, hzero⟩

/-- The first section in a single thread: the call returns without new data, or it goes on with a new
revision that is not zero. -/
theorem read_alone {contents : ℕ → Block BsonShm} {p : BsonShmDataProvider} {w : UpdateSystem}
    (h : UpdateSystem.read contents [] ⟨p, [], []⟩ = some w) :
    (∃ result ≠ .newData, w = ⟨p, [], [result]⟩) ∨
      ∃ locals : UpdateLocals, locals.newRevision ≠ 0 ∧
        w = ⟨p, [⟨p.activeBufferRevision, locals⟩], []⟩ := by
  rw [UpdateSystem.read] at h
  split at h
  · exact .inl ⟨.failed, by decide, (Option.some.inj h).symm⟩
  rename_i shmBufferSize _
  dsimp only at h
  have hfirst : false = true → ({} : UpdateLocals).newRevision ≠ 0 :=
    fun h => absurd h Bool.false_ne_true
  have hall := (all_updateLoop_revision hfirst p.activeBufferRevision p.bufferChanged
    shmBufferSize 3).evalSeq contents
  split at h
  · exact .inl ⟨.noNewData, by decide, (Option.some.inj h).symm⟩
  · exact .inl ⟨.failed, by decide, (Option.some.inj h).symm⟩
  rename_i locals hattempts
  have hrevision : locals.newRevision ≠ 0 := hall (true, locals) hattempts rfl
  split at h
  · exact .inr ⟨locals, hrevision, (Option.some.inj h).symm⟩
  split at h
  · simp at h
  · exact .inl ⟨.failed, by decide, (Option.some.inj h).symm⟩
  · exact .inr ⟨locals, hrevision, (Option.some.inj h).symm⟩

/-- **A call of `update` on its own** leaves the copy as it is, or returns `new_data` and leaves a copy
whose revision is not zero. -/
theorem update_cases {cls : ProviderClass} {contents : ℕ → Block BsonShm}
    {p p' : BsonShmDataProvider} {result : UpdateResult}
    (h : p.update cls contents = some (result, p')) :
    (result ≠ .newData ∧ p' = p) ∨ (result = .newData ∧ p'.activeBufferRevision ≠ 0) := by
  obtain ⟨w, hread, h⟩ := Option.bind_eq_some_iff.mp h
  obtain ⟨w', hreplace, h⟩ := Option.bind_eq_some_iff.mp h
  obtain ⟨result', hresult, h⟩ := Option.bind_eq_some_iff.mp h
  obtain ⟨rfl, rfl⟩ : result' = result ∧ w'.provider = p' := Prod.ext_iff.mp (Option.some.inj h)
  rcases read_alone hread with ⟨result, hresult', rfl⟩ | ⟨locals, hrevision, rfl⟩
  · obtain rfl : _ = w' := Option.some.inj hreplace
    obtain rfl : result = result' := Option.some.inj hresult
    exact .inl ⟨hresult', rfl⟩
  · have hsame : ¬ p.activeBufferRevision ≠ p.activeBufferRevision := fun hne => hne rfl
    dsimp only [UpdateSystem.finish] at hreplace
    rw [UpdateSystem.replace, if_neg hsame] at hreplace
    split at hreplace
    · simp at hreplace
    · obtain rfl := Option.some.inj hreplace
      obtain rfl : UpdateResult.failed = result' := Option.some.inj hresult
      exact .inl ⟨by decide, rfl⟩
    · obtain rfl := Option.some.inj hreplace
      exact .inr ⟨(Option.some.inj hresult).symm, hrevision⟩

/-! ### Parsing -/

namespace DeviceInfo

open ElementType BsonReader

/-- A `FullInfo`, its buffer apart. -/
structure FullInfo where
  devices : List Data
  rev : UInt32
  deriving DecidableEq, Repr

/-- The loop of `parseDeviceInfo`, for at most some turns. A device reads its description behind a
pointer into the buffer. -/
def parseDevices (mem : List UInt8) : ℕ → List Data → BsonReader → Read (List Data)
  | 0, _, _ => throw .outOfFuel
  | n + 1, devs, r =>
      if r.atEnd then
        pure devs
      else do
        let (e, r) ← r.next mem
        if e = elementDoc then do
          let doc ← r.subdocument mem
          let offset := (doc.map fun span => span.offset.toNat).getD 0
          let (parsed, dev) ← Data.parse (mem.drop offset) {}
          parseDevices mem n (if parsed then devs ++ [dev] else devs) r
        else
          parseDevices mem n devs r

end DeviceInfo

/-- An object that a provider has made: its number, the number of its buffer, and what is in it. -/
structure ParsedObject (δ : Type) where
  object : ℕ
  rawBson : Option ℕ
  data : δ
  deriving DecidableEq, Repr

/-- A class of providers that parse: how the copy is parsed, with a bound for the turns of the loop, the
revision of an object, and the comparison of the object that is kept with the copy and the number of
its buffer. -/
structure ParsingClass (δ : Type) where
  cls : ProviderClass
  parse : BsonShmDataProvider → ℕ → Read (Option δ)
  revision : δ → ℕ
  upToDate : BsonShmDataProvider → Option ℕ → ParsedObject δ → Bool

/-- A `SimDataProvider`, by `parseSimData`. -/
def simDataProvider : ParsingClass RawData where
  cls := .bsonShmDataProvider
  parse p fuel := parseFromRaw p.activeBuffer p.activeBufferRevision.toNat fuel
  revision data := data.revision
  upToDate p buffer parsed :=
    p.activeBufferRevision.toNat = parsed.data.revision ∧ buffer = parsed.rawBson

/-- A `DeviceInfoProvider`, by `parseDeviceInfo`. -/
def deviceInfoProvider : ParsingClass DeviceInfo.FullInfo where
  cls := .deviceInfoProvider
  parse p fuel := do
    let r ← BsonReader.ofBufferSize p.activeBuffer p.activeBufferSize.toNat
    let devices ← DeviceInfo.parseDevices (p.activeBuffer.getD []) fuel [] r
    pure (some ⟨devices, p.activeBufferRevision⟩)
  revision info := info.rev.toNat
  upToDate p _ parsed := parsed.data.rev = p.activeBufferRevision

/-- A call that parses: what it has returned, and the copy at that time. The copies are numbered by
the calls of `update` that have made them. -/
structure ParseCall (δ : Type) where
  returned : Option (ParsedObject δ)
  copy : ℕ
  buffer : Option ℕ
  revision : UInt32
  deriving DecidableEq, Repr

/-- A provider with the object that it has kept, the numbers of copies and of objects made so far, and
the calls that have parsed. -/
structure ParsingProvider (δ : Type) where
  provider : BsonShmDataProvider
  copies : ℕ := 0
  parsed : Option (ParsedObject δ) := none
  objects : ℕ := 0
  calls : List (ParseCall δ) := []
  deriving DecidableEq, Repr

/-- A call of the one thread. -/
inductive ParsingStep where
  | update (contents : ℕ → Block BsonShm)
  | parse (fuel : ℕ)

namespace ParsingProvider

variable {δ : Type}

/-- The buffer of the copy; `none` is the null pointer. -/
def buffer (s : ParsingProvider δ) : Option ℕ :=
  s.provider.activeBuffer.map fun _ => s.copies

/-- A call returns. -/
def returned (result : Option (ParsedObject δ)) (s : ParsingProvider δ) : ParsingProvider δ :=
  { s with calls := s.calls ++ [⟨result, s.copies, s.buffer, s.provider.activeBufferRevision⟩] }

/-- `parseSimData` and `parseDeviceInfo`. A parsing that does not end has no result. -/
def parse (c : ParsingClass δ) (fuel : ℕ) (s : ParsingProvider δ) : Option (ParsingProvider δ) :=
  match s.parsed.filter (c.upToDate s.provider s.buffer) with
  | some parsed => some (s.returned (some parsed))
  | none =>
      match c.parse s.provider fuel with
      | .error _ => none
      | .ok data =>
          let parsed := data.map fun data => ⟨s.objects, s.buffer, data⟩
          some (returned parsed { s with parsed, objects := s.objects + 1 })

/-- One call. -/
def step (c : ParsingClass δ) (s : ParsingProvider δ) : ParsingStep → Option (ParsingProvider δ)
  | .update contents => do
      let (result, provider) ← s.provider.update c.cls contents
      some { s with provider, copies := if result = .newData then s.copies + 1 else s.copies }
  | .parse fuel => s.parse c fuel

/-- A provider that has been given its block of shared memory. -/
def start (shmBuffer : Option ℕ) : ParsingProvider δ where
  provider := BsonShmDataProvider.setShmBuffer shmBuffer {}

end ParsingProvider

open ParsingProvider

section Calls

variable {δ : Type}

/-- The objects that are returned are made of the copy at that time, and have its revision. -/
def ReturnsCopy (c : ParsingClass δ) (calls : List (ParseCall δ)) : Prop :=
  ∀ call ∈ calls, ∀ parsed ∈ call.returned,
    parsed.rawBson = call.buffer ∧ c.revision parsed.data = call.revision.toNat

/-- Two calls without a successful `update` in between return the same object. -/
def ReturnsSame (calls : List (ParseCall δ)) : Prop :=
  ∀ call ∈ calls, ∀ call' ∈ calls, call.copy = call'.copy →
    call.returned.map ParsedObject.object = call'.returned.map ParsedObject.object

/-- What the calls have returned is right. -/
def RightCalls (c : ParsingClass δ) (calls : List (ParseCall δ)) : Prop :=
  ReturnsCopy c calls ∧ ReturnsSame calls

instance (c : ParsingClass δ) (calls : List (ParseCall δ)) : Decidable (RightCalls c calls) :=
  inferInstanceAs (Decidable ((∀ call ∈ calls, ∀ parsed ∈ call.returned, _ ∧ _) ∧
    ∀ call ∈ calls, ∀ call' ∈ calls, _ → _))

/-- The calls are right in every run. -/
def AlwaysRight (c : ParsingClass δ) : Prop :=
  ∀ (shmBuffer : Option ℕ) (ls : List ParsingStep) (s : ParsingProvider δ),
    exec (step c) (start shmBuffer) ls = some s → RightCalls c s.calls

end Calls

/-- There is no copy when `parseSimData` is called. -/
def NothingToParse (s : ParsingProvider RawData) : ParsingStep → Prop
  | .update _ => True
  | .parse _ => s.provider.activeBuffer = none

instance (s : ParsingProvider RawData) : (l : ParsingStep) → Decidable (NothingToParse s l)
  | .update _ => inferInstanceAs (Decidable True)
  | .parse _ => inferInstanceAs (Decidable (_ = _))

/-- When `parseDeviceInfo` is called, an object that is kept and has the revision of the copy has been
made of the copy. -/
def KeptIsCurrent (s : ParsingProvider DeviceInfo.FullInfo) : ParsingStep → Prop
  | .update _ => True
  | .parse _ => ∀ parsed ∈ s.parsed, parsed.data.rev = s.provider.activeBufferRevision →
      parsed.rawBson = s.buffer

instance (s : ParsingProvider DeviceInfo.FullInfo) :
    (l : ParsingStep) → Decidable (KeptIsCurrent s l)
  | .update _ => inferInstanceAs (Decidable True)
  | .parse _ => inferInstanceAs (Decidable (∀ parsed ∈ s.parsed, _ → _))

/-! ### What is parsed -/

/-- What `parseFromRaw` keeps: the revision that the object has had from the beginning. -/
def SameRevision (p : ParseState) (result : ParseState × BsonReader) : Prop :=
  result.1.raw.revision = p.raw.revision

theorem gives_parseElement (mem : List UInt8) (t : ElementType) (p : ParseState)
    (r : BsonReader) : Gives (SameRevision p) (parseElement mem t p r) := by
  have hpure : ∀ r, Gives (SameRevision p) (pure (p, r) : Read (ParseState × BsonReader)) :=
    fun r => .pure rfl
  refine .ite (fun _ => ?_) fun _ => .ite (fun _ => ?_) fun _ => hpure r
  · refine .ite (fun _ => .andThen fun _ => .andThen fun _ => .pure rfl) fun _ => ?_
    refine .ite (fun _ => .andThen fun _ => .andThen fun _ => .pure rfl) fun _ => ?_
    refine .ite (fun _ => .andThen fun _ => .pure rfl) fun _ => ?_
    refine .ite (fun _ => .andThen fun _ => .pure rfl) fun _ => ?_
    refine .ite (fun _ => .andThen fun _ => .andThen fun _ => .pure rfl) fun _ => ?_
    exact .ite (fun _ => .andThen fun _ => .pure rfl) fun _ => hpure r
  · refine .ite (fun _ => .andThen fun _ => .pure rfl) fun _ => ?_
    exact .ite (fun _ => .andThen fun _ => .pure rfl) fun _ => hpure r

theorem gives_parseLoop (mem : List UInt8) (n : ℕ) (p : ParseState) (r : BsonReader) :
    Gives (fun p' => p'.raw.revision = p.raw.revision) (parseLoop mem n p r) := by
  induction n generalizing p r with
  | zero => exact .throw _
  | succ n ih =>
      refine .andThen fun next => .ite (fun _ => .pure rfl) fun _ => ?_
      exact (gives_parseElement mem next.1 p next.2).bind fun result hresult =>
        (ih result.1 result.2).mono fun p' hp' => hp'.trans hresult

/-- **The revision of a parsed `SimData` is zero**, whatever it was given. -/
theorem gives_parseFromRaw (rawBson : Option (List UInt8)) (revision fuel : ℕ) :
    Gives (fun data => (rawBson = none → data = none) ∧ (rawBson ≠ none → data ≠ none) ∧
      ∀ raw ∈ data, raw.revision = 0) (parseFromRaw rawBson revision fuel) := by
  cases rawBson with
  | none => exact .pure ⟨fun _ => rfl, fun h => absurd rfl h, by simp⟩
  | some mem =>
      refine .andThen fun r => ?_
      refine (gives_parseLoop mem fuel { raw := { rawBson := mem } } r).bind fun p hp => ?_
      have hfinish : Gives (fun raw => raw.revision = 0) (finishParse mem p) :=
        .andThen fun _ => .pure hp
      refine hfinish.bind fun raw hraw => .pure ⟨(nomatch ·), fun _ => (nomatch ·), ?_⟩
      rintro raw' ⟨⟩
      exact hraw

/-! ### Runs -/

namespace ParsingProvider

section Steps

variable {δ : Type} {c : ParsingClass δ} {s t : ParsingProvider δ}

/-- **A call of `update`** changes nothing, or makes a copy with a revision that is not zero. -/
theorem update_step_cases {contents : ℕ → Block BsonShm} (h : s.step c (.update contents) = some t) :
    t = s ∨ ∃ provider : BsonShmDataProvider, provider.activeBufferRevision ≠ 0 ∧
      t = { s with provider, copies := s.copies + 1 } := by
  obtain ⟨⟨result, provider⟩, hupdate, h⟩ := Option.bind_eq_some_iff.mp h
  obtain rfl := Option.some.inj h
  rcases update_cases hupdate with ⟨hresult, rfl⟩ | ⟨rfl, hrevision⟩
  · exact .inl (by rw [if_neg hresult])
  · exact .inr ⟨provider, hrevision, rfl⟩

/-- **A call that parses** returns the object that is kept, or a new one. -/
theorem parse_cases {fuel : ℕ} (h : s.parse c fuel = some t) :
    (∃ parsed, s.parsed = some parsed ∧ c.upToDate s.provider s.buffer parsed = true ∧
      t = s.returned (some parsed)) ∨
    ((∀ parsed ∈ s.parsed, ¬ c.upToDate s.provider s.buffer parsed = true) ∧
      ∃ data, c.parse s.provider fuel = .ok data ∧
        t = returned (data.map fun data => ⟨s.objects, s.buffer, data⟩)
          { s with
            parsed := data.map fun data => ⟨s.objects, s.buffer, data⟩
            objects := s.objects + 1 }) := by
  rw [parse] at h
  split at h
  · rename_i parsed hkept
    obtain ⟨hparsed, hcurrent⟩ := Option.filter_eq_some_iff.mp hkept
    exact .inl ⟨parsed, hparsed, hcurrent, (Option.some.inj h).symm⟩
  rename_i hkept
  split at h
  · simp at h
  rename_i data hdata
  exact .inr ⟨Option.filter_eq_none_iff.mp hkept, data, hdata, (Option.some.inj h).symm⟩

/-- The call that parsing adds to the earlier ones. -/
theorem rightCalls_append {calls : List (ParseCall δ)} {call : ParseCall δ} :
    RightCalls c (calls ++ [call]) ↔ RightCalls c calls ∧
      (∀ parsed ∈ call.returned,
        parsed.rawBson = call.buffer ∧ c.revision parsed.data = call.revision.toNat) ∧
      ∀ call' ∈ calls, call'.copy = call.copy →
        call'.returned.map ParsedObject.object = call.returned.map ParsedObject.object := by
  simp only [RightCalls, ReturnsCopy, ReturnsSame, List.forall_mem_append, List.forall_mem_singleton]
  constructor
  · rintro ⟨⟨hold, hnew⟩, hsame, -⟩
    exact ⟨⟨hold, fun call' hcall => (hsame call' hcall).1⟩, hnew, fun call' hcall =>
      (hsame call' hcall).2⟩
  · rintro ⟨⟨hold, hsame⟩, hnew, hlast⟩
    refine ⟨⟨hold, hnew⟩, fun call' hcall => ⟨hsame call' hcall, hlast call' hcall⟩, ?_, fun _ =>
      trivial⟩
    exact fun call' hcall hcopy => (hlast call' hcall hcopy.symm).symm

end Steps

/-! ### Runs of `parseSimData` -/

section SimData

variable {s t : ParsingProvider RawData} {l : ParsingStep}

/-- **The invariant of a `SimDataProvider`**: the object that is kept has a buffer and no revision, and
a call without a buffer has returned nothing. -/
structure SimDataInvariant (s : ParsingProvider RawData) : Prop where
  active : s.provider.activeBuffer ≠ none → s.provider.activeBufferRevision ≠ 0
  rawBson : ∀ parsed ∈ s.parsed, parsed.rawBson ≠ none
  revision : ∀ parsed ∈ s.parsed, parsed.data.revision = 0
  copies : ∀ call ∈ s.calls, call.copy ≤ s.copies
  buffers : ∀ call ∈ s.calls, call.copy = s.copies → call.buffer = s.buffer
  missing : ∀ call ∈ s.calls, call.buffer = none → call.returned = none

theorem buffer_eq_none_iff {δ : Type} {s : ParsingProvider δ} :
    s.buffer = none ↔ s.provider.activeBuffer = none :=
  Option.map_eq_none_iff

/-- The object that is kept is never that of the copy. -/
theorem SimDataInvariant.parse_cases (hs : SimDataInvariant s) {fuel : ℕ}
    (h : s.parse simDataProvider fuel = some t) :
    ∃ data, (s.provider.activeBuffer = none → data = none) ∧
      (s.provider.activeBuffer ≠ none → data ≠ none) ∧ (∀ raw ∈ data, raw.revision = 0) ∧
      t = returned (data.map fun data => ⟨s.objects, s.buffer, data⟩)
        { s with
          parsed := data.map fun data => ⟨s.objects, s.buffer, data⟩
          objects := s.objects + 1 } := by
  rcases ParsingProvider.parse_cases h with ⟨parsed, hparsed, hcurrent, -⟩ | ⟨-, data, hdata, rfl⟩
  · obtain ⟨hrevision, hbuffer⟩ := of_decide_eq_true hcurrent
    have hactive : s.provider.activeBuffer ≠ none := fun hnone =>
      hs.rawBson parsed hparsed (hbuffer.symm.trans (buffer_eq_none_iff.mpr hnone))
    rw [hs.revision parsed hparsed] at hrevision
    exact absurd (UInt32.toNat_inj.mp hrevision) (hs.active hactive)
  · obtain ⟨hnone, hsome, hzero⟩ :=
      gives_parseFromRaw _ s.provider.activeBufferRevision.toNat _ data hdata
    exact ⟨data, hnone, hsome, hzero, rfl⟩

theorem SimDataInvariant.step (hs : SimDataInvariant s) (h : s.step simDataProvider l = some t) :
    SimDataInvariant t := by
  cases l with
  | update contents =>
      rcases update_step_cases h with rfl | ⟨provider, hrevision, rfl⟩
      · exact hs
      · exact { hs with
          active := fun _ => hrevision
          copies := fun call hcall => (hs.copies call hcall).trans (Nat.le_succ _)
          buffers := fun call hcall hcopy =>
            absurd ((hs.copies call hcall).trans_lt (Nat.lt_succ_self _)) hcopy.not_lt }
  | parse fuel =>
      obtain ⟨data, hnone, -, hzero, rfl⟩ := hs.parse_cases h
      refine { hs with rawBson := ?_, revision := ?_, copies := ?_, buffers := ?_, missing := ?_ }
      · intro parsed hparsed
        obtain ⟨raw, rfl, rfl⟩ := Option.map_eq_some_iff.mp hparsed
        exact fun hbuffer => nomatch hnone (buffer_eq_none_iff.mp hbuffer)
      · intro parsed hparsed
        obtain ⟨raw, rfl, rfl⟩ := Option.map_eq_some_iff.mp hparsed
        exact hzero raw rfl
      · exact List.forall_mem_append.mpr ⟨hs.copies, List.forall_mem_singleton.mpr le_rfl⟩
      · exact List.forall_mem_append.mpr ⟨hs.buffers, List.forall_mem_singleton.mpr fun _ => rfl⟩
      · refine List.forall_mem_append.mpr ⟨hs.missing, List.forall_mem_singleton.mpr ?_⟩
        intro hbuffer
        have hdata := hnone (buffer_eq_none_iff.mp hbuffer)
        exact congrArg (Option.map _) hdata

/-- **One call**: it keeps what the calls return right exactly when there is nothing to parse. -/
theorem SimDataInvariant.right_iff (hs : SimDataInvariant s)
    (h : s.step simDataProvider l = some t) :
    RightCalls simDataProvider t.calls ↔
      RightCalls simDataProvider s.calls ∧ NothingToParse s l := by
  cases l with
  | update contents =>
      rcases update_step_cases h with rfl | ⟨provider, -, rfl⟩ <;> exact (and_iff_left trivial).symm
  | parse fuel =>
      obtain ⟨data, hnone, hsome, hzero, rfl⟩ := hs.parse_cases h
      refine rightCalls_append.trans (and_congr_right fun _ => ?_)
      constructor
      · rintro ⟨hnew, -⟩
        by_contra hactive
        obtain ⟨raw, rfl⟩ := Option.ne_none_iff_exists'.mp (hsome hactive)
        have hrevision : raw.revision = s.provider.activeBufferRevision.toNat := (hnew _ rfl).2
        rw [hzero raw rfl] at hrevision
        exact hs.active hactive (UInt32.toNat_inj.mp hrevision.symm)
      · intro hactive
        obtain rfl := hnone hactive
        refine ⟨fun parsed hparsed => (nomatch hparsed), fun call hcall hcopy => ?_⟩
        have hbuffer := (hs.buffers call hcall hcopy).trans (buffer_eq_none_iff.mpr hactive)
        rw [hs.missing call hcall hbuffer]
        rfl

theorem simDataInvariant_start (shmBuffer : Option ℕ) : SimDataInvariant (start shmBuffer) where
  active h := absurd rfl h
  rawBson _ h := nomatch h
  revision _ h := nomatch h
  copies _ h := nomatch h
  buffers _ h := nomatch h
  missing _ h := nomatch h

end SimData

/-! ### Runs of `parseDeviceInfo` -/

section DeviceInfo

variable {s t : ParsingProvider DeviceInfo.FullInfo} {l : ParsingStep}

/-- **The invariant of a `DeviceInfoProvider`**: a call has returned an object with the revision of the
copy, and the object is kept as long as the copy stays. -/
structure DeviceInfoInvariant (s : ParsingProvider DeviceInfo.FullInfo) : Prop where
  copies : ∀ call ∈ s.calls, call.copy ≤ s.copies
  last : ∀ call ∈ s.calls, call.copy = s.copies →
    call.returned = s.parsed ∧ call.revision = s.provider.activeBufferRevision
  revision : ∀ call ∈ s.calls, ∃ parsed ∈ call.returned, parsed.data.rev = call.revision

/-- The copy has been parsed already, so that the object that is kept has its revision. -/
theorem DeviceInfoInvariant.kept (hs : DeviceInfoInvariant s)
    {call : ParseCall DeviceInfo.FullInfo} (hcall : call ∈ s.calls) (hcopy : call.copy = s.copies) :
    ∃ parsed ∈ s.parsed, parsed.data.rev = s.provider.activeBufferRevision := by
  obtain ⟨parsed, hparsed, hrevision⟩ := hs.revision call hcall
  obtain ⟨hreturned, hactive⟩ := hs.last call hcall hcopy
  exact ⟨parsed, hreturned ▸ hparsed, hrevision.trans hactive⟩

theorem parse_deviceInfo_cases {fuel : ℕ} (h : s.parse deviceInfoProvider fuel = some t) :
    (∃ parsed, s.parsed = some parsed ∧ parsed.data.rev = s.provider.activeBufferRevision ∧
      t = s.returned (some parsed)) ∨
    ((∀ parsed ∈ s.parsed, parsed.data.rev ≠ s.provider.activeBufferRevision) ∧
      ∃ info : DeviceInfo.FullInfo, info.rev = s.provider.activeBufferRevision ∧
        t = returned (some ⟨s.objects, s.buffer, info⟩)
          { s with parsed := some ⟨s.objects, s.buffer, info⟩, objects := s.objects + 1 }) := by
  rcases parse_cases h with ⟨parsed, hparsed, hcurrent, rfl⟩ | ⟨hkept, data, hdata, rfl⟩
  · exact .inl ⟨parsed, hparsed, of_decide_eq_true hcurrent, rfl⟩
  · have hgives : Gives (fun data => ∃ info : DeviceInfo.FullInfo, data = some info ∧
        info.rev = s.provider.activeBufferRevision) (deviceInfoProvider.parse s.provider fuel) :=
      .andThen fun r => .andThen fun devices => .pure ⟨_, rfl, rfl⟩
    obtain ⟨info, rfl, hrevision⟩ := hgives data hdata
    exact .inr ⟨fun parsed hparsed heq => hkept parsed hparsed (decide_eq_true heq), info, hrevision,
      rfl⟩

theorem DeviceInfoInvariant.step (hs : DeviceInfoInvariant s)
    (h : s.step deviceInfoProvider l = some t) : DeviceInfoInvariant t := by
  cases l with
  | update contents =>
      rcases update_step_cases h with rfl | ⟨provider, -, rfl⟩
      · exact hs
      · exact { hs with
          copies := fun call hcall => (hs.copies call hcall).trans (Nat.le_succ _)
          last := fun call hcall hcopy =>
            absurd ((hs.copies call hcall).trans_lt (Nat.lt_succ_self _)) hcopy.not_lt }
  | parse fuel =>
      rcases parse_deviceInfo_cases h with ⟨parsed, hparsed, hrevision, rfl⟩ |
        ⟨hkept, info, hrevision, rfl⟩
      · refine ⟨?_, ?_, ?_⟩
        · exact List.forall_mem_append.mpr ⟨hs.copies, List.forall_mem_singleton.mpr le_rfl⟩
        · exact List.forall_mem_append.mpr
            ⟨hs.last, List.forall_mem_singleton.mpr fun _ => ⟨hparsed.symm, rfl⟩⟩
        · exact List.forall_mem_append.mpr
            ⟨hs.revision, List.forall_mem_singleton.mpr ⟨parsed, rfl, hrevision⟩⟩
      · refine ⟨?_, ?_, ?_⟩
        · exact List.forall_mem_append.mpr ⟨hs.copies, List.forall_mem_singleton.mpr le_rfl⟩
        · refine List.forall_mem_append.mpr
            ⟨fun call hcall hcopy => ?_, List.forall_mem_singleton.mpr fun _ => ⟨rfl, rfl⟩⟩
          obtain ⟨parsed, hparsed, heq⟩ := hs.kept hcall hcopy
          exact absurd heq (hkept parsed hparsed)
        · exact List.forall_mem_append.mpr
            ⟨hs.revision, List.forall_mem_singleton.mpr ⟨_, rfl, hrevision⟩⟩

/-- **One call**: it keeps what the calls return right exactly when the object that is taken for that
of the copy is that of the copy. -/
theorem DeviceInfoInvariant.right_iff (hs : DeviceInfoInvariant s)
    (h : s.step deviceInfoProvider l = some t) :
    RightCalls deviceInfoProvider t.calls ↔
      RightCalls deviceInfoProvider s.calls ∧ KeptIsCurrent s l := by
  cases l with
  | update contents =>
      rcases update_step_cases h with rfl | ⟨provider, -, rfl⟩ <;> exact (and_iff_left trivial).symm
  | parse fuel =>
      rcases parse_deviceInfo_cases h with ⟨parsed, hparsed, hrevision, rfl⟩ |
        ⟨hkept, info, hrevision, rfl⟩
      · refine rightCalls_append.trans (and_congr_right fun _ => ?_)
        constructor
        · rintro ⟨hnew, -⟩ parsed' hparsed' -
          obtain rfl : parsed = parsed' := Option.some.inj (hparsed.symm.trans hparsed')
          exact (hnew parsed rfl).1
        · intro hcurrent
          refine ⟨?_, fun call hcall hcopy => ?_⟩
          · rintro _ ⟨⟩
            exact ⟨hcurrent parsed hparsed hrevision, congrArg UInt32.toNat hrevision⟩
          · rw [(hs.last call hcall hcopy).1, hparsed]
      · refine rightCalls_append.trans (and_congr_right fun _ => ?_)
        refine iff_of_true ⟨?_, fun call hcall hcopy => ?_⟩ fun parsed hparsed heq =>
          absurd heq (hkept parsed hparsed)
        · rintro _ ⟨⟩
          exact ⟨rfl, congrArg UInt32.toNat hrevision⟩
        · obtain ⟨parsed, hparsed, heq⟩ := hs.kept hcall hcopy
          exact absurd heq (hkept parsed hparsed)

theorem deviceInfoInvariant_start (shmBuffer : Option ℕ) : DeviceInfoInvariant (start shmBuffer) where
  copies _ h := nomatch h
  last _ h := nomatch h
  revision _ h := nomatch h

end DeviceInfo

/-- **The calls of `parseSimData` are right in the runs in which there is never anything to parse**,
and those of `parseDeviceInfo` in the runs in which no copy has the revision of an object that was made
of an earlier copy and is still kept when it is parsed. -/
theorem rightCalls_iff (shmBuffer : Option ℕ) (ls : List ParsingStep) :
    (∀ s, exec (step simDataProvider) (start shmBuffer) ls = some s →
      (RightCalls simDataProvider s.calls ↔
        Runs.Meets (step simDataProvider) NothingToParse (start shmBuffer) ls)) ∧
    ∀ s, exec (step deviceInfoProvider) (start shmBuffer) ls = some s →
      (RightCalls deviceInfoProvider s.calls ↔
        Runs.Meets (step deviceInfoProvider) KeptIsCurrent (start shmBuffer) ls) := by
  constructor
  · intro s hrun
    have h := meets_iff_of_invariant (P := fun s => RightCalls simDataProvider s.calls)
      (fun hs hstep => SimDataInvariant.step hs hstep) (fun hs hstep => hs.right_iff hstep)
      (simDataInvariant_start shmBuffer) hrun
    exact h.trans (and_iff_right ⟨fun _ h => (nomatch h), fun _ h => nomatch h⟩)
  · intro s hrun
    have h := meets_iff_of_invariant (P := fun s => RightCalls deviceInfoProvider s.calls)
      (fun hs hstep => DeviceInfoInvariant.step hs hstep) (fun hs hstep => hs.right_iff hstep)
      (deviceInfoInvariant_start shmBuffer) hrun
    exact h.trans (and_iff_right ⟨fun _ h => (nomatch h), fun _ h => nomatch h⟩)

/-- A block with an empty document. -/
def emptyDocument : Block BsonShm :=
  UpdateSystem.publishedDocument [5, 0, 0, 0, 0]

/-- The document with a later revision. -/
def laterDocument : Block BsonShm :=
  { emptyDocument with counter := 4 }

/-- A copy that is parsed twice, and a later copy. -/
def oneParsed : List ParsingStep :=
  [.update fun _ => emptyDocument, .parse 5, .parse 5, .update fun _ => laterDocument,
    .parse 5]

/-- Nothing is parsed before the copy, and a device info is parsed again for a later copy. -/
theorem rightCalls_two :
    (∃ s, exec (step simDataProvider) (start (some 64)) [.parse 5, .parse 5] = some s ∧
      RightCalls simDataProvider s.calls) ∧
    ∃ s, exec (step deviceInfoProvider) (start (some 64)) oneParsed = some s ∧
      RightCalls deviceInfoProvider s.calls :=
  ⟨⟨_, rfl, ((rightCalls_iff (some 64) [.parse 5, .parse 5]).1 _ rfl).mpr (by decide +kernel)⟩,
    _, rfl, ((rightCalls_iff (some 64) oneParsed).2 _ rfl).mpr (by decide +kernel)⟩

/-- The `SimData` of the first copy has the revision zero, and is made again at the next call. A device
info is taken for that of a later copy when the revision comes back. -/
theorem not_alwaysRight : ¬ AlwaysRight simDataProvider ∧ ¬ AlwaysRight deviceInfoProvider := by
  constructor
  · intro h
    have hright := h (some 64)
      [.update fun _ => emptyDocument, .parse 5, .parse 5] _ rfl
    exact absurd hright (by decide +kernel)
  · intro h
    have hright := h (some 64)
      [.update fun _ => emptyDocument, .parse 5, .update fun _ => laterDocument,
        .update fun _ => emptyDocument, .parse 5] _ rfl
    exact absurd hright (by decide +kernel)

end ParsingProvider

end ScApi
