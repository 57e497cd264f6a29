import Mathlib.Data.Finset.Card
import Mathlib.Order.Interval.Finset.Nat
import ScApi.Telemetry

/-!
# What a telemetry group registers and writes

The handles that `configure` registers have distinct ids and come in the order of their sizes, so the
counters cut their list where the loops of `send` change from one size to the next. Each loop writes
one run of bytes.

## Main results

* `registered_filter`: sorting, `std::unique` and dropping what is unresolved.
* `writeBools_eq`, `writeValues_eq`: the loops of `send` write one run of bytes each.
* `getLsbD_boolWords`: which bools set a bit of a word.
* `Registered.fill_cases`: the payload that `send` writes, into any builder.
-/

open Bytes Buffer Sorting

namespace ScApi

namespace TelemetryDefinitions

/-- The ids are not zero and are told apart. -/
structure UniqueIds (definitions : TelemetryDefinitions) : Prop where
  nodup : (definitions.defs.map (·.id)).Nodup
  ne_zero : ∀ d ∈ definitions.defs, d.id ≠ 0

/-- The C++ type of the telemetry with an id. -/
def scalarOf (definitions : TelemetryDefinitions) (id : UInt16) : Option Scalar :=
  (definitions.defs.find? (·.id = id)).bind fun d => Scalar.ofDataType d.type

/-- The ids that have a type, with it. -/
def typed (definitions : TelemetryDefinitions) (ids : List UInt16) : List (UInt16 × Scalar) :=
  ids.filterMap fun id => (definitions.scalarOf id).map (id, ·)

end TelemetryDefinitions

namespace TelemetryUpdateGroup

variable {ι : Type*} {handle : ι → TelemetryInfo} {definitions : TelemetryDefinitions}

/-! ### What is registered -/

/-- The number that the handles are sorted by. -/
def sortKey (handle : ι → TelemetryInfo) (definitions : TelemetryDefinitions) (t : ι) : ℤ :=
  sizeIndex handle t * 65536 + (refId handle definitions t).toNat

theorem before_eq (a b : ι) :
    before handle definitions a b = decide
      (sortKey handle definitions a < sortKey handle definitions b) := by
  have ha := (refId handle definitions a).toNat_lt
  have hb := (refId handle definitions b).toNat_lt
  rw [before, sortKey, sortKey]
  split_ifs with hlt hgt
  · rw [eq_comm, decide_eq_true_iff]
    omega
  · rw [eq_comm, decide_eq_false_iff_not]
    omega
  · rw [decide_eq_decide, UInt16.lt_iff_toNat_lt]
    omega

theorem before_eq_false_iff {a b : ι} :
    before handle definitions b a = false ↔
      sortKey handle definitions a ≤ sortKey handle definitions b := by
  rw [before_eq, decide_eq_false_iff_not, not_lt]

theorem strictWeak_before : StrictWeak (before handle definitions) where
  asymm := by
    intro a b h
    rw [before_eq_false_iff]
    rw [before_eq, decide_eq_true_iff] at h
    exact h.le
  trans := by
    intro a b c hab hbc
    rw [before_eq_false_iff] at hab hbc ⊢
    exact hab.trans hbc

/-- A resolved handle has the name and the type of a definition. -/
theorem exists_definition {t : ι} (h : refId handle definitions t ≠ 0) :
    ∃ d ∈ definitions.defs, d.id = refId handle definitions t ∧ d.type = (handle t).type := by
  rw [refId] at h ⊢
  cases hfind : definitions.find (handle t).name (handle t).type with
  | none => exact absurd (by rw [hfind]) h
  | some d =>
      have hd := List.find?_some hfind
      rw [decide_eq_true_iff] at hd
      exact ⟨d, List.mem_of_find?_eq_some hfind, rfl, hd.2⟩

/-- **The id of a handle tells its type.** -/
theorem scalarOf_refId (hids : definitions.UniqueIds) {t : ι}
    (h : refId handle definitions t ≠ 0) :
    definitions.scalarOf (refId handle definitions t) = some (handle t).scalar := by
  obtain ⟨d, hmem, hid, htype⟩ := exists_definition h
  rw [TelemetryDefinitions.scalarOf]
  cases hfind : definitions.defs.find? (·.id = refId handle definitions t) with
  | none =>
      rw [List.find?_eq_none] at hfind
      exact absurd (decide_eq_true hid) (hfind d hmem)
  | some d' =>
      have hid' : d'.id = refId handle definitions t := by simpa using List.find?_some hfind
      have heq : d' = d := List.inj_on_of_nodup_map hids.nodup (List.mem_of_find?_eq_some hfind)
        hmem (hid'.trans hid.symm)
      rw [Option.bind_some, heq, htype, TelemetryInfo.type, Scalar.ofDataType_ofBase]

/-- Handles with one id have one type. -/
theorem scalar_eq_of_refId_eq (hids : definitions.UniqueIds) {a b : ι}
    (ha : refId handle definitions a ≠ 0)
    (h : refId handle definitions a = refId handle definitions b) :
    (handle a).scalar = (handle b).scalar := by
  have hb : refId handle definitions b ≠ 0 := h ▸ ha
  have htype := scalarOf_refId hids ha
  rw [h, scalarOf_refId hids hb, Option.some.injEq] at htype
  exact htype.symm

theorem sizeIndex_eq (t : ι) :
    sizeIndex handle t = baseTypeSizeIndex (handle t).scalar.baseType := by
  rw [sizeIndex, TelemetryInfo.type, Scalar.baseType_ofBase]

/-- What the handles are that `configure` registers. -/
structure Registered (handle : ι → TelemetryInfo) (definitions : TelemetryDefinitions)
    (telemetries bufs : List ι) : Prop where
  mem : ∀ t ∈ bufs, t ∈ telemetries
  resolved : ∀ t ∈ bufs, refId handle definitions t ≠ 0
  sorted : bufs.Pairwise fun a b => sizeIndex handle a ≤ sizeIndex handle b
  nodup : (bufs.map (refId handle definitions)).Nodup

/-- **Sorting, `std::unique` and dropping what is unresolved** leave handles of distinct ids. -/
theorem registered_filter (std : StdSort ι) (hids : definitions.UniqueIds) (telemetries : List ι) :
    Registered handle definitions telemetries
      ((unique (same handle definitions) (std.sort (before handle definitions) telemetries)).filter
        (refId handle definitions · ≠ 0)) := by
  obtain ⟨sorted, hsorted⟩ :
      ∃ sorted, sorted = std.sort (before handle definitions) telemetries := ⟨_, rfl⟩
  have hkeys : sorted.Pairwise fun a b =>
      sortKey handle definitions a ≤ sortKey handle definitions b := by
    rw [hsorted]
    exact (std.ordered _ _ strictWeak_before).imp before_eq_false_iff.mp
  -- a resolved handle is kept only once, an unresolved one may be kept again
  have hkept : (unique (same handle definitions) sorted).Pairwise fun a b =>
      sortKey handle definitions a ≤ sortKey handle definitions b ∧
        (refId handle definitions a ≠ 0 →
          sortKey handle definitions a < sortKey handle definitions b) := by
    refine pairwise_unique ?_ ?_ hkeys
    · rintro a b c ⟨hab, hab'⟩ ⟨hbc, -⟩
      exact ⟨hab.trans hbc, fun ha => (hab' ha).trans_le hbc⟩
    · intro a b hab hsame
      refine ⟨hab, fun ha => lt_of_le_of_ne hab fun heq => ?_⟩
      rw [same, if_neg ha, decide_eq_false_iff_not] at hsame
      refine hsame (UInt16.toNat_inj.mp ?_)
      have ha := (refId handle definitions a).toNat_lt
      have hb := (refId handle definitions b).toNat_lt
      rw [sortKey, sortKey] at heq
      omega
  rw [← hsorted]
  have hmem : ∀ t ∈ (unique (same handle definitions) sorted).filter
      (refId handle definitions · ≠ 0), t ∈ telemetries := by
    intro t ht
    have hin := (unique_sublist _ _).subset (List.mem_of_mem_filter ht)
    rw [hsorted] at hin
    exact (std.perm _ _).mem_iff.mp hin
  have hresolved : ∀ t ∈ (unique (same handle definitions) sorted).filter
      (refId handle definitions · ≠ 0), refId handle definitions t ≠ 0 := by
    intro t ht
    simpa using List.of_mem_filter ht
  have hlt : ((unique (same handle definitions) sorted).filter
      (refId handle definitions · ≠ 0)).Pairwise fun a b =>
        sortKey handle definitions a < sortKey handle definitions b := by
    refine List.Pairwise.imp_of_mem ?_ (hkept.sublist List.filter_sublist)
    exact fun ha _ h => h.2 (hresolved _ ha)
  refine ⟨hmem, hresolved, hlt.imp fun {a b} h => ?_, ?_⟩
  · have ha := (refId handle definitions a).toNat_lt
    have hb := (refId handle definitions b).toNat_lt
    rw [sortKey, sortKey] at h
    omega
  · rw [List.Nodup, List.pairwise_map]
    refine List.Pairwise.imp_of_mem (fun ha _ h heq => h.ne ?_) hlt
    rw [sortKey, sortKey, sizeIndex_eq, sizeIndex_eq,
      scalar_eq_of_refId_eq hids (hresolved _ ha) heq, heq]

/-- There are fewer handles than ids. -/
theorem Registered.length_le {telemetries bufs : List ι}
    (h : Registered handle definitions telemetries bufs) : bufs.length ≤ 65535 := by
  have hnodup : (bufs.map fun t => (refId handle definitions t).toNat).Nodup := by
    have := h.nodup.map (f := UInt16.toNat) fun _ _ => UInt16.toNat_inj.mp
    rwa [List.map_map] at this
  have hsubset : (bufs.map fun t => (refId handle definitions t).toNat).toFinset
      ⊆ Finset.Ico 1 65536 := by
    intro n hn
    rw [List.mem_toFinset, List.mem_map] at hn
    obtain ⟨t, ht, rfl⟩ := hn
    have hlt := (refId handle definitions t).toNat_lt
    have hpos : (refId handle definitions t).toNat ≠ 0 := fun h0 =>
      h.resolved t ht (UInt16.toNat_inj.mp h0)
    rw [Finset.mem_Ico]
    omega
  have hcard := Finset.card_le_card hsubset
  rwa [List.toFinset_card_of_nodup hnodup, List.length_map, Nat.card_Ico] at hcard

/-- The registered handles whose values have the size with an index. -/
def ofIndex (handle : ι → TelemetryInfo) (bufs : List ι) (k : ℤ) : List ι :=
  bufs.filter (sizeIndex handle · = k)

theorem sizeIndex_range (t : ι) : 0 ≤ sizeIndex handle t ∧ sizeIndex handle t < 5 := by
  rw [sizeIndex_eq]
  cases (handle t).scalar <;> decide

/-- **The registered handles come in the order of their sizes.** -/
theorem Registered.cut {telemetries bufs : List ι}
    (h : Registered handle definitions telemetries bufs) :
    bufs = ofIndex handle bufs 0 ++ ofIndex handle bufs 1 ++ ofIndex handle bufs 2
      ++ ofIndex handle bufs 3 ++ ofIndex handle bufs 4 := by
  have hall : bufs.filter (sizeIndex handle · < 4 + 1) = bufs := by
    refine List.filter_eq_self.mpr fun t _ => ?_
    exact decide_eq_true (sizeIndex_range t).2
  have hnone : bufs.filter (sizeIndex handle · < 0) = [] := by
    refine List.filter_eq_nil_iff.mpr fun t _ => ?_
    simpa using (sizeIndex_range t).1
  have h0 := filter_lt_succ h.sorted 0
  have h1 := filter_lt_succ h.sorted 1
  have h2 := filter_lt_succ h.sorted 2
  have h3 := filter_lt_succ h.sorted 3
  have h4 := filter_lt_succ h.sorted 4
  rw [hnone, List.nil_append] at h0
  norm_num at h0 h1 h2 h3
  rw [hall, h3, h2, h1, h0] at h4
  exact h4

/-- The counters count every registered handle. -/
theorem Registered.toNat_entriesBySize {telemetries bufs : List ι}
    (h : Registered handle definitions telemetries bufs) (k : ℤ) :
    (entriesBySize handle bufs k).toNat = (ofIndex handle bufs k).length := by
  have hle := h.length_le
  have hcount : bufs.countP (sizeIndex handle · = k) ≤ bufs.length := List.countP_le_length
  rw [entriesBySize, UInt16.toNat_ofNat', Nat.mod_eq_of_lt (by omega), List.countP_eq_length_filter,
    ofIndex]

/-! ### The loops -/

section Loops

variable {b : ActionBuilder} {n i : ℕ}

theorem writeIds_eq {ids : List UInt16} (h : b.Building n) (hi : i + 2 * ids.length ≤ n) :
    writeIds ids i b = b.writePayload i (ids.flatMap fun id => toLe 2 id.toNat) := by
  induction ids generalizing b i with
  | nil => exact (b.writePayload_nil i).symm
  | cons id ids ih =>
      rw [List.length_cons] at hi
      have hnext : (b.writePayload i (toLe 2 id.toNat)).Building n :=
        h.writePayload (by rw [length_toLe]; omega)
      have happend := fun bytes => h.writePayload_append (show i ≤ n by omega) (toLe 2 id.toNat) bytes
      rw [length_toLe] at happend
      rw [writeIds, ih hnext (by omega), happend, List.flatMap_cons]

theorem writeValues_eq {size : ℕ} {bufs : List (List UInt8)} (h : b.Building n)
    (hsize : ∀ buf ∈ bufs, buf.length = size) (hi : i + size * bufs.length ≤ n) :
    writeValues size bufs i b = (b.writePayload i bufs.flatten, i + bufs.flatten.length) := by
  induction bufs generalizing b i with
  | nil => rw [writeValues, List.flatten_nil, b.writePayload_nil, List.length_nil, Nat.add_zero]
  | cons buf bufs ih =>
      have hbuf : buf.length = size := hsize buf List.mem_cons_self
      rw [List.length_cons, Nat.mul_succ] at hi
      have hnext : (b.writePayload i buf).Building n := h.writePayload (by omega)
      have happend := fun bytes => h.writePayload_append (show i ≤ n by omega) buf bytes
      rw [hbuf] at happend
      rw [writeValues, List.take_of_length_le hbuf.le,
        ih hnext (fun buf hmem => hsize buf (List.mem_cons_of_mem _ hmem)) (by omega), happend,
        List.flatten_cons, List.length_append, hbuf, Nat.add_assoc]

/-- The words that the loop over the bools writes. -/
def boolWords : List Bool → ℕ → BitVec 32 → List (BitVec 32)
  | [], bitIdx, word => if bitIdx % 32 ≠ 0 then [word] else []
  | v :: vs, bitIdx, word =>
      let word := if v then word ||| BitVec.twoPow 32 (bitIdx % 32) else word
      if (bitIdx + 1) % 32 = 0 then
        word :: boolWords vs (bitIdx + 1) word
      else
        boolWords vs (bitIdx + 1) word

theorem length_boolWords (vs : List Bool) (bitIdx : ℕ) (word : BitVec 32) :
    (boolWords vs bitIdx word).length = (bitIdx + vs.length + 31) / 32 - bitIdx / 32 := by
  induction vs generalizing bitIdx word with
  | nil =>
      rw [boolWords]
      split_ifs with h
      · simp only [List.length_singleton, List.length_nil]
        omega
      · simp only [List.length_nil]
        omega
  | cons v vs ih =>
      rw [boolWords]
      by_cases h : (bitIdx + 1) % 32 = 0
      · rw [if_pos h, List.length_cons, ih, List.length_cons]
        omega
      · rw [if_neg h, ih, List.length_cons]
        omega

/-- The bytes of words. -/
def wordBytes (words : List (BitVec 32)) : List UInt8 :=
  words.flatMap fun word => toLe 4 word.toNat

theorem length_wordBytes (words : List (BitVec 32)) :
    (wordBytes words).length = 4 * words.length :=
  length_flatMap (fun _ => length_toLe _ _) words

theorem writeBools_eq {bufs : List (List UInt8)} {bitIdx : ℕ} {word : BitVec 32}
    (h : b.Building n) (hi : i + 4 * (boolWords (bufs.map toBool) bitIdx word).length ≤ n) :
    writeBools bufs bitIdx word i b =
      (b.writePayload i (wordBytes (boolWords (bufs.map toBool) bitIdx word)),
        i + 4 * (boolWords (bufs.map toBool) bitIdx word).length) := by
  induction bufs generalizing b i bitIdx word with
  | nil =>
      rw [List.map_nil, boolWords, writeBools]
      split_ifs
      · rw [wordBytes, List.flatMap_singleton, List.length_singleton, Nat.mul_one]
      · rw [wordBytes, List.flatMap_nil, b.writePayload_nil, List.length_nil, Nat.mul_zero,
          Nat.add_zero]
  | cons buf bufs ih =>
      rw [List.map_cons, boolWords] at hi ⊢
      rw [writeBools]
      obtain ⟨next, hnext⟩ : ∃ next, next = if toBool buf = true then
        word ||| BitVec.twoPow 32 (bitIdx % 32) else word := ⟨_, rfl⟩
      rw [← hnext] at hi ⊢
      split_ifs at hi ⊢ with hfull
      · rw [List.length_cons] at hi
        have hwritten : (b.writePayload i (toLe 4 next.toNat)).Building n :=
          h.writePayload (by rw [length_toLe]; omega)
        have happend := fun bytes => h.writePayload_append (show i ≤ n by omega) (toLe 4 next.toNat) bytes
        rw [length_toLe] at happend
        rw [ih hwritten (by omega), happend, List.length_cons, wordBytes, wordBytes,
          List.flatMap_cons, Nat.mul_succ, Nat.add_assoc, Nat.add_comm 4]
      · exact ih h hi

/-- **The bits of the words.** A bit is set by every bool on it so far. -/
theorem getLsbD_boolWords {vs : List Bool} {bitIdx : ℕ} {word : BitVec 32} {m k : ℕ}
    (hm : m < (boolWords vs bitIdx word).length) :
    ((boolWords vs bitIdx word)[m]).getLsbD k = true ↔
      word.getLsbD k = true ∨ ∃ j, vs[j]? = some true ∧ (bitIdx + j) % 32 = k ∧
        (bitIdx + j) / 32 ≤ bitIdx / 32 + m := by
  induction vs generalizing bitIdx word m with
  | nil =>
      have hword : boolWords [] bitIdx word = [word] := by
        rw [boolWords] at hm ⊢
        split_ifs at hm ⊢ with h
        · rfl
        · exact absurd hm (Nat.not_lt_zero m)
      simp [hword]
  | cons v vs ih =>
      obtain ⟨next, hnext⟩ : ∃ next, next = if v = true then
        word ||| BitVec.twoPow 32 (bitIdx % 32) else word := ⟨_, rfl⟩
      have hbit : next.getLsbD k = true ↔
          word.getLsbD k = true ∨ v = true ∧ bitIdx % 32 = k := by
        have hlt : bitIdx % 32 < 32 := Nat.mod_lt _ (by omega)
        rw [hnext]
        split_ifs with hv <;> simp [hv, BitVec.getLsbD_twoPow, hlt]
      have hsplit : ∀ m', bitIdx / 32 ≤ m' →
          ((∃ j, (v :: vs)[j]? = some true ∧ (bitIdx + j) % 32 = k ∧ (bitIdx + j) / 32 ≤ m') ↔
            (v = true ∧ bitIdx % 32 = k) ∨
              ∃ j, vs[j]? = some true ∧ (bitIdx + 1 + j) % 32 = k ∧ (bitIdx + 1 + j) / 32 ≤ m') := by
        intro m' hm'
        rw [← Nat.or_exists_add_one]
        simp only [List.getElem?_cons_succ, List.getElem?_cons_zero, Option.some.injEq,
          Nat.add_zero, Nat.add_assoc, Nat.add_comm 1, hm', and_true]
      rw [hsplit _ (Nat.le_add_right _ _), ← or_assoc, ← hbit]
      by_cases hfull : (bitIdx + 1) % 32 = 0
      · have hwords : boolWords (v :: vs) bitIdx word = next :: boolWords vs (bitIdx + 1) next := by
          rw [boolWords, ← hnext, if_pos hfull]
        simp only [hwords] at hm ⊢
        cases m with
        | zero =>
            -- the bools behind belong to the next word
            have hnone : ¬∃ j, vs[j]? = some true ∧ (bitIdx + 1 + j) % 32 = k ∧
                (bitIdx + 1 + j) / 32 ≤ bitIdx / 32 + 0 := by
              rintro ⟨j, -, -, hj⟩
              omega
            rw [List.getElem_cons_zero, or_iff_left hnone]
        | succ m =>
            have hdiv : (bitIdx + 1) / 32 + m = bitIdx / 32 + (m + 1) := by omega
            rw [List.getElem_cons_succ, ih (by simpa using hm), hdiv]
      · have hwords : boolWords (v :: vs) bitIdx word = boolWords vs (bitIdx + 1) next := by
          rw [boolWords, ← hnext, if_neg hfull]
        have hdiv : (bitIdx + 1) / 32 + m = bitIdx / 32 + m := by omega
        simp only [hwords] at hm ⊢
        rw [ih hm, hdiv]

end Loops

/-! ### What `send` writes -/

section Fill

variable {values : ∀ t, (handle t).scalar.Value} {g : TelemetryUpdateGroup ι}

/-- What the index of a size says about the values. -/
theorem baseTypeSizeIndex_eq_iff {s : Scalar} {k : ℤ} {w : ℕ}
    (h : (k, w) ∈ [((1 : ℤ), 8), (2, 4), (3, 2), (4, 1)]) :
    baseTypeSizeIndex s.baseType = k ↔ s ≠ .bool ∧ s.size = w := by
  simp only [List.mem_cons, Prod.mk.injEq, List.not_mem_nil, or_false] at h
  rcases h with ⟨rfl, rfl⟩ | ⟨rfl, rfl⟩ | ⟨rfl, rfl⟩ | ⟨rfl, rfl⟩ <;> cases s <;> decide

theorem baseTypeSizeIndex_eq_zero_iff {s : Scalar} :
    baseTypeSizeIndex s.baseType = 0 ↔ s = .bool := by
  cases s <;> decide

@[simp] theorem length_serialized (t : ι) :
    (serialized handle values t).length = (handle t).scalar.size :=
  Scalar.length_bytes _

/-- The values of some handles one behind another. -/
def valueBytes (handle : ι → TelemetryInfo) (values : ∀ t, (handle t).scalar.Value)
    (ts : List ι) : List UInt8 :=
  ts.flatMap (serialized handle values)

theorem valueBytes_append (ts us : List ι) :
    valueBytes handle values (ts ++ us)
      = valueBytes handle values ts ++ valueBytes handle values us :=
  List.flatMap_append

theorem size_of_mem_ofIndex {bufs : List ι} {k : ℤ} {w : ℕ}
    (h : (k, w) ∈ [((1 : ℤ), 8), (2, 4), (3, 2), (4, 1)]) {t : ι}
    (ht : t ∈ ofIndex handle bufs k) : (handle t).scalar.size = w := by
  have hk : sizeIndex handle t = k := by simpa using List.of_mem_filter ht
  rw [sizeIndex_eq, baseTypeSizeIndex_eq_iff h] at hk
  exact hk.2

theorem length_valueBytes {ts : List ι} {w : ℕ} (h : ∀ t ∈ ts, (handle t).scalar.size = w) :
    (valueBytes handle values ts).length = w * ts.length := by
  induction ts with
  | nil => rfl
  | cons t ts ih =>
      have hts := ih fun u hu => h u (List.mem_cons_of_mem _ hu)
      rw [valueBytes] at hts
      rw [valueBytes, List.flatMap_cons, List.length_append, hts, length_serialized,
        h t List.mem_cons_self, List.length_cons]
      ring

/-- **The loop over the handles of one size**, when it starts behind what was written from `i` on. -/
theorem writeValues_serialized (values : ∀ t, (handle t).scalar.Value) {b : ActionBuilder}
    {n i w : ℕ} {x : List UInt8} {ts : List ι} (h : b.Building n) (hw : ∀ t ∈ ts, (handle t).scalar.size = w)
    (hi : i + x.length + w * ts.length ≤ n) :
    writeValues w (ts.map (serialized handle values)) (i + x.length) (b.writePayload i x) =
      (b.writePayload i (x ++ valueBytes handle values ts),
        i + (x ++ valueBytes handle values ts).length) := by
  have hsize : ∀ buf ∈ ts.map (serialized handle values), buf.length = w := by
    intro buf hbuf
    obtain ⟨t, ht, rfl⟩ := List.mem_map.mp hbuf
    rw [length_serialized, hw t ht]
  have hflat : (ts.map (serialized handle values)).flatten = valueBytes handle values ts :=
    List.flatMap_def.symm
  have hx : (b.writePayload i x).Building n := h.writePayload (by omega)
  rw [writeValues_eq hx hsize (by rwa [List.length_map]), hflat,
    h.writePayload_append (by omega), List.length_append, Nat.add_assoc]

/-- The four loops over the handles whose values are not bools. -/
theorem writeValues_rest (values : ∀ t, (handle t).scalar.Value) {b : ActionBuilder} {n i : ℕ}
    {ts₁ ts₂ ts₃ ts₄ : List ι} (h : b.Building n)
    (hw₁ : ∀ t ∈ ts₁, (handle t).scalar.size = 8) (hw₂ : ∀ t ∈ ts₂, (handle t).scalar.size = 4)
    (hw₃ : ∀ t ∈ ts₃, (handle t).scalar.size = 2) (hw₄ : ∀ t ∈ ts₄, (handle t).scalar.size = 1)
    (hi : i + 8 * ts₁.length + 4 * ts₂.length + 2 * ts₃.length + ts₄.length ≤ n) :
    (let (b, i) := writeValues 8 (ts₁.map (serialized handle values)) i b
      let (b, i) := writeValues 4 (ts₂.map (serialized handle values)) i b
      let (b, i) := writeValues 2 (ts₃.map (serialized handle values)) i b
      writeValues 1 (ts₄.map (serialized handle values)) i b) =
      (b.writePayload i (valueBytes handle values (ts₁ ++ ts₂ ++ ts₃ ++ ts₄)),
        i + 8 * ts₁.length + 4 * ts₂.length + 2 * ts₃.length + ts₄.length) := by
  have hl₁ : (valueBytes handle values ts₁).length = 8 * ts₁.length := length_valueBytes hw₁
  have hl₂ : (valueBytes handle values ts₂).length = 4 * ts₂.length := length_valueBytes hw₂
  have hl₃ : (valueBytes handle values ts₃).length = 2 * ts₃.length := length_valueBytes hw₃
  have hl₄ : (valueBytes handle values ts₄).length = 1 * ts₄.length := length_valueBytes hw₄
  have hfirst : writeValues 8 (ts₁.map (serialized handle values)) i b =
      (b.writePayload i (valueBytes handle values ts₁),
        i + (valueBytes handle values ts₁).length) := by
    have hnil := writeValues_serialized values h hw₁ (i := i) (x := [])
      (by simp only [List.length_nil]; omega)
    rwa [List.nil_append, b.writePayload_nil, List.length_nil, Nat.add_zero] at hnil
  dsimp only
  rw [hfirst]
  dsimp only
  rw [writeValues_serialized values h hw₂ (by omega)]
  dsimp only
  rw [writeValues_serialized values h hw₃ (by rw [List.length_append]; omega)]
  dsimp only
  rw [writeValues_serialized values h hw₄ (by simp only [List.length_append]; omega)]
  simp only [valueBytes_append, List.length_append, hl₁, hl₂, hl₃, hl₄, Nat.one_mul, Nat.add_assoc]

/-- The current values of the registered bools. -/
def flags (handle : ι → TelemetryInfo) (values : ∀ t, (handle t).scalar.Value)
    (bufs : List ι) : List Bool :=
  (ofIndex handle bufs 0).map fun t => toBool (serialized handle values t)

/-- Where the values behind the bools start. -/
def valuesStart (bools : ℕ) : ℕ :=
  (4 + 4 * ((bools + 31) / 32) + 7) / 8 * 8

theorem Registered.expectedSize_eq {telemetries bufs : List ι}
    (h : Registered handle definitions telemetries bufs) :
    expectedSize (entriesBySize handle bufs) = valuesStart (ofIndex handle bufs 0).length
      + 8 * (ofIndex handle bufs 1).length + 4 * (ofIndex handle bufs 2).length
      + 2 * (ofIndex handle bufs 3).length + (ofIndex handle bufs 4).length := by
  rw [expectedSize, valuesStart]
  simp only [h.toNat_entriesBySize]
  omega

/-- The values behind the bools. -/
def rest (handle : ι → TelemetryInfo) (bufs : List ι) : List ι :=
  ofIndex handle bufs 1 ++ ofIndex handle bufs 2 ++ ofIndex handle bufs 3 ++ ofIndex handle bufs 4

/-- Where the values behind the bools start, as `send` computes it. -/
theorem valuesStart_eq (vs : List Bool) :
    (4 + 4 * (boolWords vs 0 0).length + 7) / 8 * 8 = valuesStart vs.length := by
  rw [length_boolWords, valuesStart, Nat.zero_add, Nat.zero_div, Nat.sub_zero]

/-- The writes in front of the values. -/
theorem building_words {b : ActionBuilder} {n : ℕ} {group : List UInt8} {words : List (BitVec 32)}
    (hb : b.Building n) (hgroup : group.length = 2) (hn : 4 + 4 * words.length ≤ n) :
    ((b.writePayload 0 group).writePayload 2 [0, 0]).Building n ∧
      (((b.writePayload 0 group).writePayload 2 [0, 0]).writePayload 4
        (wordBytes words)).Building n := by
  have hb₁ : (b.writePayload 0 group).Building n := hb.writePayload (by omega)
  have hb₂ : ((b.writePayload 0 group).writePayload 2 [0, 0]).Building n :=
    hb₁.writePayload (by simp only [List.length_cons, List.length_nil]; omega)
  exact ⟨hb₂, hb₂.writePayload (by rw [length_wordBytes]; omega)⟩

/-- **The payload that `send` writes**, over whatever was in the buffer. -/
theorem Registered.fillPayload_eq {telemetries : List ι} {b : ActionBuilder}
    (h : Registered handle definitions telemetries g.baseValueBufs)
    (hentries : g.baseValueEntriesBySize = entriesBySize handle g.baseValueBufs)
    (hb : b.Building (expectedSize g.baseValueEntriesBySize + 4)) :
    g.fillPayload handle values b =
      ((((b.writePayload 0 (toLe 2 g.groupId.toNat)).writePayload 2 [0, 0]).writePayload 4
          (wordBytes (boolWords (flags handle values g.baseValueBufs) 0 0))).writePayload
            (valuesStart (ofIndex handle g.baseValueBufs 0).length)
            (valueBytes handle values (rest handle g.baseValueBufs)),
        expectedSize g.baseValueEntriesBySize) := by
  have hexpected := h.expectedSize_eq
  rw [← hentries] at hexpected
  have hstart : valuesStart (ofIndex handle g.baseValueBufs 0).length
      = valuesStart (flags handle values g.baseValueBufs).length := by
    rw [flags, List.length_map]
  rw [hstart, ← valuesStart_eq] at hexpected ⊢
  obtain ⟨words, hwords⟩ :
      ∃ words, words = boolWords (flags handle values g.baseValueBufs) 0 0 := ⟨_, rfl⟩
  rw [← hwords] at hexpected ⊢
  obtain ⟨hb₂, hb₃⟩ := building_words hb (length_toLe 2 g.groupId.toNat)
    (show 4 + 4 * words.length ≤ _ by omega)
  -- the counters cut the list of values where the sizes change
  have hit := congrArg (List.map (serialized handle values)) h.cut
  simp only [List.map_append, List.append_assoc] at hit
  have hcount : ∀ k, (g.baseValueEntriesBySize k).toNat
      = ((ofIndex handle g.baseValueBufs k).map (serialized handle values)).length := by
    intro k
    rw [hentries, h.toNat_entriesBySize, List.length_map]
  have hflags : ((ofIndex handle g.baseValueBufs 0).map (serialized handle values)).map toBool
      = flags handle values g.baseValueBufs := List.map_map
  rw [fillPayload]
  dsimp only
  rw [hit]
  simp only [hcount, List.take_left, List.drop_left, List.take_length]
  rw [writeBools_eq hb₂ (by rw [hflags, ← hwords]; omega), hflags, ← hwords]
  refine (writeValues_rest values hb₃ ?_ ?_ ?_ ?_ (by omega)).trans ?_
  · exact fun t => size_of_mem_ofIndex (by simp)
  · exact fun t => size_of_mem_ofIndex (by simp)
  · exact fun t => size_of_mem_ofIndex (by simp)
  · exact fun t => size_of_mem_ofIndex (by simp)
  · rw [rest, ← hexpected]

/-- The payload of the packet, over whatever was in the buffer. -/
theorem Registered.payload_fillPayload (values : ∀ t, (handle t).scalar.Value)
    {telemetries : List ι} {b : ActionBuilder}
    (h : Registered handle definitions telemetries g.baseValueBufs)
    (hentries : g.baseValueEntriesBySize = entriesBySize handle g.baseValueBufs)
    (hb : b.Building (expectedSize g.baseValueEntriesBySize + 4)) :
    (g.fillPayload handle values b).1.Building (expectedSize g.baseValueEntriesBySize + 4) ∧
    ∃ front : List UInt8, front.length = expectedSize g.baseValueEntriesBySize + 4 ∧
      (g.fillPayload handle values b).1.payload = overwrite
        (overwrite front 4 (wordBytes (boolWords (flags handle values g.baseValueBufs) 0 0)))
        (valuesStart (ofIndex handle g.baseValueBufs 0).length)
        (valueBytes handle values (rest handle g.baseValueBufs)) := by
  have hexpected := h.expectedSize_eq
  rw [← hentries] at hexpected
  have hwords : 4 + 4 * (boolWords (flags handle values g.baseValueBufs) 0 0).length
      ≤ valuesStart (ofIndex handle g.baseValueBufs 0).length := by
    rw [length_boolWords, flags, List.length_map, valuesStart]
    omega
  obtain ⟨hb₂, hb₃⟩ := building_words hb (length_toLe 2 g.groupId.toNat)
    (show 4 + 4 * (boolWords (flags handle values g.baseValueBufs) 0 0).length ≤ _ by omega)
  have hvalues : (valueBytes handle values (rest handle g.baseValueBufs)).length
      = 8 * (ofIndex handle g.baseValueBufs 1).length + 4 * (ofIndex handle g.baseValueBufs 2).length
        + 2 * (ofIndex handle g.baseValueBufs 3).length
        + 1 * (ofIndex handle g.baseValueBufs 4).length := by
    rw [rest, valueBytes_append, valueBytes_append, valueBytes_append]
    simp only [List.length_append]
    rw [length_valueBytes fun t => size_of_mem_ofIndex (w := 8) (by simp),
      length_valueBytes fun t => size_of_mem_ofIndex (w := 4) (by simp),
      length_valueBytes fun t => size_of_mem_ofIndex (w := 2) (by simp),
      length_valueBytes fun t => size_of_mem_ofIndex (w := 1) (by simp)]
  rw [h.fillPayload_eq hentries hb]
  refine ⟨hb₃.writePayload (by omega), _, hb₂.length_payload, ?_⟩
  rw [hb₃.payload_writePayload, hb₂.payload_writePayload]

/-- **What `send` writes**, into any builder. -/
theorem Registered.fill_cases {telemetries : List ι} {builder b : ActionBuilder} {position : ℕ}
    (h : Registered handle definitions telemetries g.baseValueBufs)
    (hentries : g.baseValueEntriesBySize = entriesBySize handle g.baseValueBufs)
    (hset : g.setPayloadSize = UInt16.ofNat (expectedSize g.baseValueEntriesBySize + 4))
    (hsize : expectedSize g.baseValueEntriesBySize + 4 < 65536)
    (hfill : { g with actionBuilder := builder }.fill handle values = some (b, position)) :
    b.Building (expectedSize g.baseValueEntriesBySize + 4) ∧
      position = expectedSize g.baseValueEntriesBySize ∧
      ∃ front : List UInt8, front.length = expectedSize g.baseValueEntriesBySize + 4 ∧
        b.payload = overwrite
          (overwrite front 4 (wordBytes (boolWords (flags handle values g.baseValueBufs) 0 0)))
          (valuesStart (ofIndex handle g.baseValueBufs 0).length)
          (valueBytes handle values (rest handle g.baseValueBufs)) := by
  obtain ⟨start, b₀, hstart⟩ : ∃ start b₀, builder.startBuilding actionSetTelemetryGroup
    g.setPayloadSize.toNat 0 = (start, b₀) := ⟨_, _, rfl⟩
  rw [fill] at hfill
  dsimp only at hfill
  rw [hstart] at hfill
  cases start with
  | none => exact absurd hfill (by simp)
  | some start =>
      have hb₀ := (ActionBuilder.building_startBuilding hstart).1
      rw [hset, UInt16.toNat_ofNat', Nat.mod_eq_of_lt hsize] at hb₀
      rw [Option.some.injEq] at hfill
      change g.fillPayload handle values b₀ = (b, position) at hfill
      have hpayload := h.payload_fillPayload values hentries hb₀
      rw [hfill] at hpayload
      rw [h.fillPayload_eq hentries hb₀] at hfill
      exact ⟨hpayload.1, (congrArg Prod.snd hfill).symm, hpayload.2⟩

end Fill

end TelemetryUpdateGroup

end ScApi
