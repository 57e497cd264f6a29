import ScApi.Lib.Runs
import ScApi.Telemetry
import ScApi.Variables

/-!
# The telemetry definitions of a session

`TelemetrySystem` copies the definitions of a block of shared memory, whose count only grows. An update
that finds more of them makes a new storage with all definitions, so that a `TelemetryDefinitions` that
was handed out before keeps the storage it has. How many definitions are read at most is computed from
the size of a definition that the block states, which has to be at least 32. A definition is a struct of
48 bytes; of its name it is read up to the first NUL byte.

## Main results

* `updateDefinitions_eq_ok_iff`: what an update adds.
* `telemetry_reads_iff`: when the system reads inside the block over all its updates.
* `enumerates_iff`: when a `TelemetryDefinitions` shows what was published.
-/

open Bytes BoundedRead

namespace ScApi

/-- A `TelemetryDefinition` with all its fields. -/
structure TelemetryEntry extends TelemetryDefinition where
  flags : UInt16 := 0
  variableIdx : ℕ := 0
  deriving DecidableEq, Repr

/-- `sizeof(SC_API_PROTOCOL_TelemetryDef_t)`. -/
def telemetryDefSize : ℕ := 48

/-- `sizeof(SC_API_PROTOCOL_TelemetryDefinitionShm_t)`. -/
def telemetryHeaderSize : ℕ := 32

/-- The offset of `name` in an `SC_API_PROTOCOL_TelemetryDef_t`. -/
def nameOffset : ℕ := 12

/-- The definition with a name, from the bytes of the fields in front of it. -/
def TelemetryEntry.ofFields (bytes name : List UInt8) : TelemetryEntry where
  id := UInt16.ofNat (ofLe (bytes.take 2))
  flags := UInt16.ofNat (ofLe ((bytes.drop 2).take 2))
  type := {
    type := UInt16.ofNat (ofLe ((bytes.drop 4).take 2))
    variantData := UInt16.ofNat (ofLe ((bytes.drop 6).take 2)) }
  variableIdx := ofLe ((bytes.drop 8).take 4)
  name

/-- The definition that is copied from the struct at an index: its fields, and its name up to the first
NUL byte or the last byte but one. -/
def TelemetryEntry.readAt (defBlock : List UInt8) (i : ℕ) : Read TelemetryEntry := do
  let fields ← bytesAt defBlock i nameOffset
  let name ← cStringUpTo defBlock 35 (i + nameOffset)
  pure (.ofFields fields name)

/-- The definition that an `SC_API_PROTOCOL_TelemetryDef_t` with the given bytes is copied to. -/
def TelemetryEntry.ofBytes (bytes : List UInt8) : TelemetryEntry :=
  .ofFields (bytes.take nameOffset) (((bytes.drop nameOffset).take 35).takeWhile (· ≠ 0))

/-- A `TelemetrySystem`, with all storages that were made; the first one is `s_empty_storage`. A
pointer to a storage is its number. -/
structure TelemetrySystem where
  storages : List (List TelemetryEntry) := [[]]
  curDefs : Option ℕ := none
  defsHeader : Option ℕ := none
  defsStart : ℕ := 0
  defsSize : ℕ := 0
  maxDefs : ℕ := 0
  deriving DecidableEq, Repr

/-- A `TelemetryDefinitions`, which is a pointer to a storage. -/
structure SharedDefinitions where
  storage : Option ℕ
  deriving DecidableEq, Repr

namespace SharedDefinitions

/-! Iterators are positions in `s_->defs`, and reverse iterators are what their `base` is. -/

/-- `TelemetryDefinitions::begin`. -/
def beginIdx (_defs : List TelemetryEntry) : ℕ := 0

/-- `TelemetryDefinitions::end`. -/
def endIdx (defs : List TelemetryEntry) : ℕ := beginIdx defs

/-- `TelemetryDefinitions::rbegin`. -/
def rbeginIdx (defs : List TelemetryEntry) : ℕ := defs.length

/-- `TelemetryDefinitions::rend`. -/
def rendIdx (_defs : List TelemetryEntry) : ℕ := 0

/-- `TelemetryDefinitions::size`. -/
def size (defs : List TelemetryEntry) : ℕ := defs.length

/-- The definitions from one iterator up to another one. -/
def forward (defs : List TelemetryEntry) (first last : ℕ) : List TelemetryEntry :=
  (defs.drop first).take (last - first)

/-- The definitions from one reverse iterator up to another one. -/
def backward (defs : List TelemetryEntry) (first last : ℕ) : List TelemetryEntry :=
  ((defs.take first).drop last).reverse

/-- `TelemetryDefinitions::find` with a name. -/
def findByName (defs : List TelemetryEntry) (name : List UInt8) : Option TelemetryEntry :=
  defs.find? fun d => d.name = name

/-- `TelemetryDefinitions::find` with a name and a type. -/
def findByType (defs : List TelemetryEntry) (name : List UInt8) (type : DataType) :
    Option TelemetryEntry :=
  defs.find? fun d => d.name = name ∧ d.type = type

/-- `TelemetryDefinitions::find` with an id. -/
def findById (defs : List TelemetryEntry) (id : UInt16) : Option TelemetryEntry :=
  defs.find? fun d => d.id = id

end SharedDefinitions

namespace TelemetrySystem

/-- The definitions of a storage. -/
def storageAt (s : TelemetrySystem) (storage : ℕ) : List TelemetryEntry :=
  s.storages.getD storage []

/-- The loop of `updateDefinitions` over `n` more definitions. -/
def copyDefinitions (defBlock : List UInt8) (s : TelemetrySystem) :
    ℕ → List TelemetryEntry → Read (List TelemetryEntry)
  | 0, defs => pure defs
  | n + 1, defs => do
      let definition ← TelemetryEntry.readAt defBlock (s.defsStart + s.defsSize * defs.length)
      copyDefinitions defBlock s n (defs ++ [definition])

/-- `TelemetrySystem::updateDefinitions`: whether there is a new storage, and the state it leaves. -/
def updateDefinitions (defBlock : List UInt8) (s : TelemetrySystem) : Read (Bool × TelemetrySystem) :=
  match s.defsHeader, s.curDefs with
  | some header, some cur => do
      let count ← u32At defBlock (header + 20)
      let count := min s.maxDefs count
      let defs := s.storageAt cur
      if defs.length = count then
        pure (false, s)
      else do
        let defs ← copyDefinitions defBlock s (count - defs.length) defs
        pure (true, { s with
          storages := s.storages ++ [defs]
          curDefs := some s.storages.length })
  | _, _ => throw .nullPointer

/-- `TelemetrySystem::initialize`. The size of a definition is compared with the size of the header. -/
def initializeTelemetry (defBlock : List UInt8) (s : TelemetrySystem) : Read TelemetrySystem := do
  let s := { s with curDefs := some 0 }
  let dataSize ← u32At defBlock 16
  let defsOffset ← u32At defBlock 12
  if defsOffset > defBlock.length ∨ dataSize < telemetryHeaderSize then
    pure s
  else do
    let s := { s with
      maxDefs := (defBlock.length - defsOffset) / dataSize % 4294967296
      defsHeader := some 0
      defsSize := dataSize
      defsStart := defsOffset }
    let (_, s) ← s.updateDefinitions defBlock
    pure s

/-- `TelemetrySystem::getDefinitions`. -/
def getDefinitions (s : TelemetrySystem) : SharedDefinitions where
  storage := s.curDefs

/-- `s_->defs`. -/
def defsOf (s : TelemetrySystem) (d : SharedDefinitions) : Read (List TelemetryEntry) :=
  match d.storage with
  | some storage => pure (s.storageAt storage)
  | none => throw .nullPointer

/-- One update, which the block of the definitions is given to as it is then. -/
def updateStep (s : TelemetrySystem) (defBlock : List UInt8) : Option TelemetrySystem :=
  (s.updateDefinitions defBlock).toOption.map Prod.snd

/-! ### What an update adds -/

/-- The definitions that the system has. -/
def current (s : TelemetrySystem) : List TelemetryEntry :=
  s.curDefs.elim [] s.storageAt

/-- The number of definitions in a block, as far as the system reads them. -/
def publishedCount (defBlock : List UInt8) (s : TelemetrySystem) : ℕ :=
  min s.maxDefs (ofLe ((defBlock.drop 20).take 4))

/-- The definitions of a block, as far as the system reads them. -/
def published (defBlock : List UInt8) (s : TelemetrySystem) : List TelemetryEntry :=
  (List.range (publishedCount defBlock s)).map fun k =>
    .ofBytes ((defBlock.drop (s.defsStart + s.defsSize * k)).take telemetryDefSize)

/-- The system reads blocks as another one does. -/
structure Alike (s s' : TelemetrySystem) : Prop where
  defsHeader : s'.defsHeader = s.defsHeader
  defsStart : s'.defsStart = s.defsStart
  defsSize : s'.defsSize = s.defsSize
  maxDefs : s'.maxDefs = s.maxDefs

variable {s s' s'' : TelemetrySystem} {block : List UInt8} {blocks : List (List UInt8)}

theorem Alike.refl (s : TelemetrySystem) : Alike s s := ⟨rfl, rfl, rfl, rfl⟩

theorem Alike.trans (h : Alike s s') (h' : Alike s' s'') : Alike s s'' :=
  ⟨h'.defsHeader.trans h.defsHeader, h'.defsStart.trans h.defsStart, h'.defsSize.trans h.defsSize,
    h'.maxDefs.trans h.maxDefs⟩

theorem Alike.publishedCount_eq (h : Alike s s') : publishedCount block s' = publishedCount block s := by
  rw [publishedCount, publishedCount, h.maxDefs]

theorem Alike.published_eq (h : Alike s s') : published block s' = published block s := by
  rw [published, published, h.publishedCount_eq, h.defsStart, h.defsSize]

theorem length_published : (published block s).length = publishedCount block s := by
  rw [published, List.length_map, List.length_range]

/-- The struct with an index lies wholly in the block. -/
def EndsInside (defBlock : List UInt8) (s : TelemetrySystem) (k : ℕ) : Prop :=
  s.defsStart + s.defsSize * k + telemetryDefSize ≤ defBlock.length

instance (k : ℕ) : Decidable (EndsInside block s k) :=
  inferInstanceAs (Decidable (_ ≤ _))

theorem EndsInside.mono {k l : ℕ} (h : EndsInside block s l) (hk : k ≤ l) : EndsInside block s k := by
  have hmul : s.defsSize * k ≤ s.defsSize * l := Nat.mul_le_mul_left _ hk
  rw [EndsInside] at h ⊢
  omega

/-- What is read of the struct with an index lies in the block: the fields, and the name or its first
NUL byte. -/
def ReadInside (defBlock : List UInt8) (s : TelemetrySystem) (k : ℕ) : Prop :=
  s.defsStart + s.defsSize * k + nameOffset ≤ defBlock.length ∧
    (0 ∈ (defBlock.drop (s.defsStart + s.defsSize * k + nameOffset)).take 35 ∨
      s.defsStart + s.defsSize * k + nameOffset + 35 ≤ defBlock.length)

instance (k : ℕ) : Decidable (ReadInside block s k) :=
  inferInstanceAs (Decidable (_ ∧ (_ ∨ _)))

/-- Nothing is read outside of a struct. -/
theorem EndsInside.readInside {k : ℕ} (h : EndsInside block s k) : ReadInside block s k := by
  rw [EndsInside, telemetryDefSize] at h
  rw [ReadInside, nameOffset]
  exact ⟨by omega, .inr (by omega)⟩

/-- **What is read of a struct.** -/
theorem readAt_eq_ok_iff {k : ℕ} {definition : TelemetryEntry} :
    TelemetryEntry.readAt block (s.defsStart + s.defsSize * k) = .ok definition ↔
      ReadInside block s k ∧ definition =
        .ofBytes ((block.drop (s.defsStart + s.defsSize * k)).take telemetryDefSize) := by
  obtain ⟨i, hi⟩ : ∃ i, i = s.defsStart + s.defsSize * k := ⟨_, rfl⟩
  have hfields : ((block.drop i).take telemetryDefSize).take nameOffset
      = (block.drop i).take nameOffset := List.take_take
  have hname : (((block.drop i).take telemetryDefSize).drop nameOffset).take 35
      = (block.drop (i + nameOffset)).take 35 := by
    rw [List.drop_take, List.take_take, List.drop_drop]
    rfl
  rw [ReadInside, ← hi, TelemetryEntry.ofBytes, hfields, hname, TelemetryEntry.readAt, bind_eq_ok]
  constructor
  · rintro ⟨fields, hread, h⟩
    obtain ⟨-, hlen, rfl⟩ := bytesAt_eq_ok_iff.mp hread
    obtain ⟨name, hread', h⟩ := bind_eq_ok.mp h
    have hlen' : i + nameOffset ≤ block.length := by exact_mod_cast hlen
    obtain ⟨hinside, rfl⟩ := (cStringUpTo_eq_ok_iff hlen').mp hread'
    exact ⟨⟨hlen', hinside⟩, (Except.ok.inj h).symm⟩
  · rintro ⟨⟨hlen, hinside⟩, rfl⟩
    exact ⟨_, bytesAt_eq_ok_iff.mpr ⟨Int.natCast_nonneg i, by exact_mod_cast hlen, rfl⟩,
      bind_eq_ok.mpr ⟨_, (cStringUpTo_eq_ok_iff hlen).mpr ⟨hinside, rfl⟩, rfl⟩⟩

/-- **The loop** appends the definitions that it reads. -/
theorem copyDefinitions_eq_ok_iff {n : ℕ} {defs defs' : List TelemetryEntry} :
    copyDefinitions block s n defs = .ok defs' ↔
      (∀ k, defs.length ≤ k → k < defs.length + n → ReadInside block s k) ∧
        defs' = defs ++ (List.range' defs.length n).map fun k =>
          .ofBytes ((block.drop (s.defsStart + s.defsSize * k)).take telemetryDefSize) := by
  induction n generalizing defs with
  | zero =>
      rw [copyDefinitions, List.range'_zero, List.map_nil, List.append_nil]
      constructor
      · intro h
        exact ⟨fun k hk hlt => by omega, (Except.ok.inj h).symm⟩
      · rintro ⟨-, rfl⟩
        rfl
  | succ n ih =>
      rw [copyDefinitions, bind_eq_ok, List.range'_succ, List.map_cons]
      have hcons : ∀ x : TelemetryEntry, ∀ l, defs ++ [x] ++ l = defs ++ x :: l := fun x l => by
        rw [List.append_assoc, List.singleton_append]
      constructor
      · rintro ⟨definition, hread, hloop⟩
        obtain ⟨hinside, rfl⟩ := readAt_eq_ok_iff.mp hread
        obtain ⟨hrest, rfl⟩ := ih.mp hloop
        rw [List.length_append, List.length_singleton] at hrest
        refine ⟨fun k hk hlt => ?_, ?_⟩
        · rcases Nat.eq_or_lt_of_le hk with rfl | hk
          · exact hinside
          · exact hrest k hk (by omega)
        · rw [hcons, List.length_append, List.length_singleton]
      · rintro ⟨hinside, rfl⟩
        refine ⟨_, readAt_eq_ok_iff.mpr ⟨hinside _ le_rfl (by omega), rfl⟩, ih.mpr ⟨?_, ?_⟩⟩
        · rw [List.length_append, List.length_singleton]
          exact fun k hk hlt => hinside k (by omega) (by omega)
        · rw [hcons, List.length_append, List.length_singleton]

/-- What an update reads lies in the block. -/
def Reads (s : TelemetrySystem) (block : List UInt8) : Prop :=
  24 ≤ block.length ∧
    ∀ k < publishedCount block s, s.current.length ≤ k → ReadInside block s k

instance : Decidable (Reads s block) :=
  inferInstanceAs (Decidable (_ ∧ (∀ k < _, _ → _)))

/-- The system after an update: it has a new storage, unless there is nothing new. -/
def updated (s : TelemetrySystem) (block : List UInt8) : TelemetrySystem :=
  if s.current.length = publishedCount block s then s
  else { s with
    storages := s.storages ++ [s.current ++ (published block s).drop s.current.length]
    curDefs := some s.storages.length }

theorem updateDefinitions_eq (hheader : s.defsHeader = some 0) (hcur : s.curDefs.isSome) :
    s.updateDefinitions block = (do
      let count ← u32At block 20
      let count := min s.maxDefs count
      if s.current.length = count then
        pure (false, s)
      else do
        let defs ← copyDefinitions block s (count - s.current.length) s.current
        pure (true, { s with storages := s.storages ++ [defs], curDefs := some s.storages.length })) := by
  obtain ⟨cur, hcur⟩ := Option.isSome_iff_exists.mp hcur
  obtain ⟨storages, curDefs, defsHeader, defsStart, defsSize, maxDefs⟩ := s
  obtain rfl : curDefs = some cur := hcur
  obtain rfl : defsHeader = some 0 := hheader
  rfl

/-- **What an update adds.** -/
theorem updateDefinitions_eq_ok_iff (hheader : s.defsHeader = some 0) (hcur : s.curDefs.isSome)
    {changed : Bool} : s.updateDefinitions block = .ok (changed, s') ↔
      Reads s block ∧ changed = decide (s.current.length ≠ publishedCount block s) ∧
        s' = s.updated block := by
  -- what the loop reads is what is published behind the definitions that there are
  have hdrop : (List.range' s.current.length (publishedCount block s - s.current.length)).map
      (fun k => TelemetryEntry.ofBytes ((block.drop (s.defsStart + s.defsSize * k)).take
        telemetryDefSize)) = (published block s).drop s.current.length := by
    rw [published, List.range_eq_range', ← List.map_drop, List.drop_range', Nat.zero_add,
      Nat.mul_one]
  rw [updateDefinitions_eq hheader hcur]
  constructor
  · intro h
    obtain ⟨count, hcount, h⟩ := bind_eq_ok.mp h
    obtain ⟨hlength, rfl⟩ := u32At_eq_ok_iff.mp hcount
    change (if s.current.length = publishedCount block s then _ else _) = _ at h
    rw [updated]
    split_ifs at h ⊢ with heq
    · obtain ⟨rfl, rfl⟩ := Prod.mk.inj (Except.ok.inj h)
      exact ⟨⟨hlength, fun k hlt hk => by omega⟩, (decide_eq_false (not_not.mpr heq)).symm, rfl⟩
    · obtain ⟨defs, hdefs, h⟩ := bind_eq_ok.mp h
      obtain ⟨hinside, rfl⟩ := copyDefinitions_eq_ok_iff.mp hdefs
      obtain ⟨rfl, rfl⟩ := Prod.mk.inj (Except.ok.inj h)
      refine ⟨⟨hlength, fun k hlt hk => hinside k hk ?_⟩, (decide_eq_true heq).symm, ?_⟩
      · change k < s.current.length + (publishedCount block s - s.current.length)
        omega
      · rw [← hdrop]
        rfl
  · rintro ⟨⟨hlength, hinside⟩, rfl, rfl⟩
    refine bind_eq_ok.mpr ⟨_, u32At_eq_ok_iff.mpr ⟨hlength, rfl⟩, ?_⟩
    change (if s.current.length = publishedCount block s then _ else _) = _
    rw [updated]
    split_ifs with heq
    · rw [decide_eq_false (not_not.mpr heq)]
      rfl
    · refine bind_eq_ok.mpr ⟨_, copyDefinitions_eq_ok_iff.mpr ⟨fun k hk hlt => ?_, rfl⟩, ?_⟩
      · change k < s.current.length + (publishedCount block s - s.current.length) at hlt
        exact hinside k (by omega) hk
      · rw [decide_eq_true heq, ← hdrop]
        rfl

/-! ### Runs -/

/-- A block was accepted, and there is a storage. -/
structure Started (s : TelemetrySystem) : Prop where
  defsHeader : s.defsHeader = some 0
  curDefs : ∃ cur < s.storages.length, s.curDefs = some cur

theorem Started.isSome (h : Started s) : s.curDefs.isSome := by
  obtain ⟨cur, -, hcur⟩ := h.curDefs
  rw [hcur, Option.isSome_some]

theorem alike_updated (s : TelemetrySystem) (block : List UInt8) : Alike s (s.updated block) := by
  rw [updated]
  split_ifs
  · exact .refl s
  · exact ⟨rfl, rfl, rfl, rfl⟩

theorem storages_updated (s : TelemetrySystem) (block : List UInt8) :
    s.storages <+: (s.updated block).storages := by
  rw [updated]
  split_ifs
  · exact List.prefix_refl _
  · exact List.prefix_append _ _

theorem Started.updated (h : Started s) (block : List UInt8) : Started (s.updated block) := by
  refine ⟨(alike_updated s block).defsHeader.trans h.defsHeader, ?_⟩
  rw [TelemetrySystem.updated]
  split_ifs
  · exact h.curDefs
  · exact ⟨s.storages.length, by rw [List.length_append, List.length_singleton]; omega, rfl⟩

/-- The system has what is published after an update, if it had the beginning of it before. -/
theorem current_updated (h : s.current <+: published block s) :
    (s.updated block).current = published block s := by
  have htake := List.prefix_iff_eq_take.mp h
  rw [updated]
  split_ifs with heq
  · rw [htake, heq, ← length_published, List.take_length]
  · rw [current, Option.elim_some, storageAt]
    dsimp only
    rw [List.getD_eq_getElem?_getD, List.getElem?_concat_length, Option.getD_some]
    conv_lhs => rw [htake]
    rw [List.length_take_of_le (length_published ▸ h.length_le), List.take_append_drop]

theorem updateStep_eq_some_iff (h : Started s) :
    s.updateStep block = some s' ↔ Reads s block ∧ s' = s.updated block := by
  rw [updateStep]
  have hiff := fun changed t => @updateDefinitions_eq_ok_iff s t block h.defsHeader h.isSome changed
  constructor
  · intro hstep
    cases hupdate : s.updateDefinitions block with
    | error stop => rw [hupdate] at hstep; exact nomatch hstep
    | ok r =>
        obtain ⟨changed, t⟩ := r
        rw [hupdate] at hstep
        obtain rfl : t = s' := Option.some.inj hstep
        obtain ⟨hreads, -, heq⟩ := (hiff changed t).mp hupdate
        exact ⟨hreads, heq⟩
  · rintro ⟨hreads, rfl⟩
    rw [(hiff _ _).mpr ⟨hreads, rfl, rfl⟩]
    rfl

/-- **What a run of updates keeps**: the storages that there are, and how blocks are read. -/
theorem run_keeps (h : Started s) (hrun : Runs.exec updateStep s blocks = some s') :
    Started s' ∧ Alike s s' ∧ s.storages <+: s'.storages := by
  induction blocks generalizing s with
  | nil =>
      obtain rfl := Option.some.inj hrun
      exact ⟨h, .refl s, List.prefix_refl _⟩
  | cons block blocks ih =>
      obtain ⟨t, hstep, hrest⟩ := Runs.exec_cons.mp hrun
      obtain ⟨-, rfl⟩ := (updateStep_eq_some_iff h).mp hstep
      obtain ⟨hs', halike, hprefix⟩ := ih (h.updated block) hrest
      exact ⟨hs', (alike_updated s block).trans halike, (storages_updated s block).trans hprefix⟩

/-- A run of updates goes to its end exactly when each of them reads inside its block. -/
theorem run_iff_meets (h : Started s) :
    (∃ s', Runs.exec updateStep s blocks = some s') ↔ Runs.Meets updateStep Reads s blocks := by
  induction blocks generalizing s with
  | nil => exact iff_of_true ⟨s, rfl⟩ trivial
  | cons block blocks ih =>
      constructor
      · rintro ⟨s', hrun⟩
        obtain ⟨t, hstep, hrest⟩ := Runs.exec_cons.mp hrun
        obtain ⟨hreads, rfl⟩ := (updateStep_eq_some_iff h).mp hstep
        exact .cons hstep hreads ((ih (h.updated block)).mp ⟨s', hrest⟩)
      · rintro ⟨hreads, hlater⟩
        have hstep := (updateStep_eq_some_iff h).mpr ⟨hreads, rfl⟩
        obtain ⟨s', hrest⟩ := (ih (h.updated block)).mpr (hlater _ hstep)
        exact ⟨s', Runs.exec_cons.mpr ⟨_, hstep, hrest⟩⟩

/-! ### Reading inside the block -/

/-- **A block that the system accepts**: it has its header, the definitions begin in the block, and
their size is at least that of the header. -/
def AcceptsBlock (block : List UInt8) : Prop :=
  20 ≤ block.length ∧ ofLe ((block.drop 12).take 4) ≤ block.length ∧
    telemetryHeaderSize ≤ ofLe ((block.drop 16).take 4)

instance : Decidable (AcceptsBlock block) :=
  inferInstanceAs (Decidable (_ ∧ _ ∧ _))

/-- The system before it reads the first definitions of a block. -/
def accepted (block : List UInt8) : TelemetrySystem where
  curDefs := some 0
  defsHeader := some 0
  defsStart := ofLe ((block.drop 12).take 4)
  defsSize := ofLe ((block.drop 16).take 4)
  maxDefs := (block.length - ofLe ((block.drop 12).take 4)) / ofLe ((block.drop 16).take 4)
    % 4294967296

theorem started_accepted (block : List UInt8) : Started (accepted block) :=
  ⟨rfl, 0, Nat.one_pos, rfl⟩

/-- The system of a block that it accepts. -/
theorem initializeTelemetry_eq_ok_iff (h : AcceptsBlock block) :
    ({} : TelemetrySystem).initializeTelemetry block = .ok s ↔
      Reads (accepted block) block ∧ s = (accepted block).updated block := by
  obtain ⟨hlength, hoffset, hsize⟩ := h
  have heq : ({} : TelemetrySystem).initializeTelemetry block
      = (accepted block).updateDefinitions block >>= fun r => pure r.2 := by
    rw [initializeTelemetry,
      (u32At_eq_ok_iff.mpr ⟨hlength, rfl⟩ : u32At block 16 = .ok (ofLe ((block.drop 16).take 4))),
      (u32At_eq_ok_iff.mpr ⟨by omega, rfl⟩ : u32At block 12 = .ok (ofLe ((block.drop 12).take 4)))]
    exact if_neg (by rw [not_or]; exact ⟨not_lt.mpr hoffset, not_lt.mpr hsize⟩)
  have hstarted := started_accepted block
  rw [heq, bind_eq_ok]
  constructor
  · rintro ⟨⟨changed, t⟩, hupdate, ht⟩
    obtain ⟨hreads, -, rfl⟩ :=
      (updateDefinitions_eq_ok_iff hstarted.defsHeader hstarted.isSome).mp hupdate
    exact ⟨hreads, (Except.ok.inj ht).symm⟩
  · rintro ⟨hreads, rfl⟩
    exact ⟨_, (updateDefinitions_eq_ok_iff hstarted.defsHeader hstarted.isSome).mpr
      ⟨hreads, rfl, rfl⟩, rfl⟩

/-- The structs that an update reads lie wholly in the block. -/
def StructsInside (s : TelemetrySystem) (block : List UInt8) : Prop :=
  ∀ k < publishedCount block s, s.current.length ≤ k → EndsInside block s k

/-- The last struct that an update reads lies wholly in the block, which has its header. -/
def LastInside (s : TelemetrySystem) (block : List UInt8) : Prop :=
  24 ≤ block.length ∧ (s.current.length < publishedCount block s →
    EndsInside block s (publishedCount block s - 1))

instance : Decidable (LastInside s block) :=
  inferInstanceAs (Decidable (_ ∧ (_ → _)))

/-- The structs before the last one end in front of it. -/
theorem reads_and_structsInside_iff : Reads s block ∧ StructsInside s block ↔ LastInside s block := by
  constructor
  · rintro ⟨⟨hlength, -⟩, hinside⟩
    exact ⟨hlength, fun hlt => hinside _ (by omega) (by omega)⟩
  · rintro ⟨hlength, hlast⟩
    have hinside : StructsInside s block := fun k hk hold => (hlast (by omega)).mono (by omega)
    exact ⟨⟨hlength, fun k hk hold => (hinside k hk hold).readInside⟩, hinside⟩

/-- **When the structs that the system reads lie wholly inside the block**, over all its updates. -/
theorem telemetry_reads_iff (h : AcceptsBlock block) (later : List (List UInt8)) :
    (∃ s s', ({} : TelemetrySystem).initializeTelemetry block = .ok s ∧
        Runs.exec updateStep s later = some s' ∧ StructsInside (accepted block) block ∧
        Runs.Meets updateStep StructsInside s later) ↔
      LastInside (accepted block) block ∧
        Runs.Meets updateStep LastInside ((accepted block).updated block) later := by
  have hboth : LastInside = fun s block => Reads s block ∧ StructsInside s block :=
    funext fun s => funext fun block => propext reads_and_structsInside_iff.symm
  rw [hboth, Runs.meets_and, ← run_iff_meets ((started_accepted block).updated block)]
  constructor
  · rintro ⟨s, s', hs, hrun, hinside, hlater⟩
    obtain ⟨hreads, rfl⟩ := (initializeTelemetry_eq_ok_iff h).mp hs
    exact ⟨⟨hreads, hinside⟩, ⟨s', hrun⟩, hlater⟩
  · rintro ⟨⟨hreads, hinside⟩, ⟨s', hrun⟩, hlater⟩
    exact ⟨_, s', (initializeTelemetry_eq_ok_iff h).mpr ⟨hreads, rfl⟩, hrun, hinside, hlater⟩

/-- The definition of a `u32` with an id. -/
def telemetryDef (id : ℕ) : List UInt8 :=
  toLe 2 id ++ toLe 2 0 ++ toLe 2 7 ++ toLe 2 0 ++ toLe 4 4294967295 ++ List.replicate 36 0

/-- A block with two definitions, that states a size and a count. -/
def telemetryBlock (size count : ℕ) : List UInt8 :=
  toLe 4 1 ++ toLe 4 0 ++ toLe 4 128 ++ toLe 4 32 ++ toLe 4 size ++ toLe 4 count ++ toLe 4 0
    ++ toLe 4 0 ++ telemetryDef 1 ++ telemetryDef 2

theorem telemetry_reads_two :
    ∃ s s', ({} : TelemetrySystem).initializeTelemetry (telemetryBlock 48 1) = .ok s ∧
      Runs.exec updateStep s [telemetryBlock 48 2] = some s' ∧
      StructsInside (accepted (telemetryBlock 48 1)) (telemetryBlock 48 1) ∧
      Runs.Meets updateStep StructsInside s [telemetryBlock 48 2] :=
  (telemetry_reads_iff (by decide +kernel) [telemetryBlock 48 2]).mpr
    ⟨by decide +kernel, by decide +kernel⟩

/-- A block that states a size of 32 and a count of 3. The third definition begins 32 bytes in front of
its end, with a name that does not end there. -/
def unendingBlock : List UInt8 :=
  (telemetryBlock 32 3).take 108 ++ List.replicate 20 97

/-- **A block is accepted** although its last definition is read behind it. -/
theorem not_telemetry_reads :
    AcceptsBlock unendingBlock ∧
      ({} : TelemetrySystem).initializeTelemetry unendingBlock = .error (.outOfBounds 128) := by
  decide +kernel

/-! ### What a snapshot shows -/

/-- A table goes on as another one: the definitions of the first one are those of the second one. -/
def Extends (s : TelemetrySystem) (block block' : List UInt8) : Prop :=
  published block s <+: published block' s

/-- **After updates on a table that grows**, the system has what is published. -/
theorem current_run {first table : List UInt8} (h : Started s) (hshows : s.current = published first s)
    (hgrows : (first :: blocks).IsChain (Extends s)) (hrun : Runs.exec updateStep s blocks = some s')
    (hlast : (first :: blocks).getLast? = some table) : s'.current = published table s' := by
  induction blocks generalizing s first with
  | nil =>
      obtain rfl := Option.some.inj hrun
      obtain rfl := Option.some.inj hlast
      exact hshows
  | cons block blocks ih =>
      obtain ⟨t, hstep, hrest⟩ := Runs.exec_cons.mp hrun
      obtain ⟨-, rfl⟩ := (updateStep_eq_some_iff h).mp hstep
      have halike := alike_updated s block
      rw [List.isChain_cons_cons] at hgrows
      obtain ⟨hextends, hgrows⟩ := hgrows
      have hcurrent := current_updated (hshows ▸ hextends : s.current <+: published block s)
      rw [List.getLast?_cons_cons] at hlast
      refine ih (h.updated block) (hcurrent.trans halike.published_eq.symm) ?_ hrest hlast
      refine hgrows.imp fun b b' hb => ?_
      rw [Extends, halike.published_eq, halike.published_eq]
      exact hb

/-- **A snapshot keeps what was published** when it was handed out, whatever is added later. -/
theorem defsOf_getDefinitions {block table : List UInt8} {later : List (List UInt8)}
    {s₀ : TelemetrySystem} (h : AcceptsBlock block)
    (hstart : ({} : TelemetrySystem).initializeTelemetry block = .ok s₀)
    (hgrows : (block :: blocks).IsChain (Extends s₀))
    (hlast : (block :: blocks).getLast? = some table)
    (hrun : Runs.exec updateStep s₀ blocks = some s)
    (hlater : Runs.exec updateStep s later = some s') :
    s.defsOf s.getDefinitions = .ok (published table s) ∧
      s'.defsOf s.getDefinitions = .ok (published table s) := by
  obtain ⟨-, hs₀⟩ := (initializeTelemetry_eq_ok_iff h).mp hstart
  have hstarted : Started s₀ := hs₀ ▸ (started_accepted block).updated block
  have hcurrent₀ : s₀.current = published block s₀ := by
    rw [hs₀, current_updated (show (accepted block).current <+: _ from List.nil_prefix),
      (alike_updated (accepted block) block).published_eq]
  obtain ⟨hs, -, -⟩ := run_keeps hstarted hrun
  have hcurrent := current_run hstarted hcurrent₀ hgrows hrun hlast
  obtain ⟨-, -, hprefix⟩ := run_keeps hs hlater
  obtain ⟨cur, hcur, hptr⟩ := hs.curDefs
  rw [current, hptr, Option.elim_some] at hcurrent
  have hkept : s'.storageAt cur = s.storageAt cur := by
    obtain ⟨added, hadded⟩ := hprefix
    rw [storageAt, storageAt, List.getD_eq_getElem?_getD, List.getD_eq_getElem?_getD, ← hadded,
      List.getElem?_append_left hcur]
  constructor
  · rw [defsOf, getDefinitions, hptr, ← hcurrent]
    rfl
  · rw [defsOf, getDefinitions, hptr, ← hcurrent, ← hkept]
    rfl

theorem backward_rbegin_rend (defs : List TelemetryEntry) :
    SharedDefinitions.backward defs (SharedDefinitions.rbeginIdx defs)
      (SharedDefinitions.rendIdx defs) = defs.reverse := by
  rw [SharedDefinitions.backward, SharedDefinitions.rbeginIdx, SharedDefinitions.rendIdx,
    List.take_length, List.drop_zero]

/-- **A snapshot enumerates what was published** from `begin` to `end`, and in reverse, whatever is
added later, exactly when nothing was published: `end` is `begin`. -/
theorem enumerates_iff {block table : List UInt8} {later : List (List UInt8)} {s₀ : TelemetrySystem}
    (h : AcceptsBlock block) (hstart : ({} : TelemetrySystem).initializeTelemetry block = .ok s₀)
    (hgrows : (block :: blocks).IsChain (Extends s₀))
    (hlast : (block :: blocks).getLast? = some table)
    (hrun : Runs.exec updateStep s₀ blocks = some s)
    (hlater : Runs.exec updateStep s later = some s') :
    (∃ defs, s.defsOf s.getDefinitions = .ok defs ∧ s'.defsOf s.getDefinitions = .ok defs ∧
        SharedDefinitions.forward defs (SharedDefinitions.beginIdx defs)
          (SharedDefinitions.endIdx defs) = published table s ∧
        SharedDefinitions.backward defs (SharedDefinitions.rbeginIdx defs)
          (SharedDefinitions.rendIdx defs) = (published table s).reverse ∧
        SharedDefinitions.size defs = publishedCount table s) ↔
      publishedCount table s = 0 := by
  obtain ⟨hdefs, hdefs'⟩ := defsOf_getDefinitions h hstart hgrows hlast hrun hlater
  have hnil : ∀ defs, SharedDefinitions.forward defs (SharedDefinitions.beginIdx defs)
      (SharedDefinitions.endIdx defs) = [] := fun defs => by
    rw [SharedDefinitions.forward, SharedDefinitions.endIdx, Nat.sub_self, List.take_zero]
  constructor
  · rintro ⟨defs, -, -, hforward, -⟩
    rw [hnil] at hforward
    rw [← length_published, ← hforward, List.length_nil]
  · intro hnone
    refine ⟨published table s, hdefs, hdefs', ?_, backward_rbegin_rend _, length_published⟩
    rw [hnil, eq_comm, ← List.length_eq_zero_iff, length_published, hnone]

theorem enumerates_none :
    ∃ s, ({} : TelemetrySystem).initializeTelemetry (telemetryBlock 48 0) = .ok s ∧
      ∃ defs, s.defsOf s.getDefinitions = .ok defs ∧
        SharedDefinitions.forward defs (SharedDefinitions.beginIdx defs)
          (SharedDefinitions.endIdx defs) = published (telemetryBlock 48 0) s := by
  have haccepts : AcceptsBlock (telemetryBlock 48 0) := by decide +kernel
  have hstart : ({} : TelemetrySystem).initializeTelemetry (telemetryBlock 48 0)
      = .ok ((accepted (telemetryBlock 48 0)).updated (telemetryBlock 48 0)) := by decide +kernel
  have hnone : ∀ s : TelemetrySystem, Runs.exec updateStep s [] = some s := fun _ => rfl
  have hall := enumerates_iff haccepts hstart (List.isChain_singleton _)
    (show [telemetryBlock 48 0].getLast? = some (telemetryBlock 48 0) from rfl) (hnone _) (hnone _)
  obtain ⟨defs, hdefs, -, hforward, -⟩ := hall.mpr (by decide +kernel)
  exact ⟨_, hstart, defs, hdefs, hforward⟩

/-- **A snapshot of one definition enumerates none.** -/
theorem not_enumerates :
    ∃ s, ({} : TelemetrySystem).initializeTelemetry (telemetryBlock 48 1) = .ok s ∧
      ∃ defs, s.defsOf s.getDefinitions = .ok defs ∧
        SharedDefinitions.forward defs (SharedDefinitions.beginIdx defs)
          (SharedDefinitions.endIdx defs) ≠ published (telemetryBlock 48 1) s := by
  refine ⟨(accepted (telemetryBlock 48 1)).updated (telemetryBlock 48 1), by decide +kernel,
    [.ofBytes (telemetryDef 1)], ?_⟩
  decide +kernel

end TelemetrySystem

end ScApi
