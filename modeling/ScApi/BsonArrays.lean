import ScApi.BsonBuilding
import ScApi.BsonReading

/-!
# Arrays that are built and read back

The overloads of `arrayAddElement` are a second copy of those of `docAddElement`, and the one for
bools has its two bytes the wrong way round. So a tree is read back as it was built exactly when no
bool is added to an array and the reader has layers enough.

## Main results

* `stored_eq_rekey_iff`: what is stored is what was added exactly when no array has a bool in it.
* `writeAndRead_eq`: what is read back from any storage with room.
* `writeAndRead_iff`: when that is what was added.
-/

open Bytes Buffer Bson

namespace ScApi

/-! ### What is meant to be stored -/

/-- Some elements that are added to a container behind `idx` others, with the keys that elements of
arrays get. -/
def rekey (kind : Kind) : ℕ → Elements → Elements
  | _, .nil => .nil
  | idx, .leaf name v rest => .leaf (keyFor name idx kind) v (rekey kind (idx + 1) rest)
  | idx, .sub kind' name body rest =>
      .sub kind' (keyFor name idx kind) (rekey kind' 0 body) (rekey kind (idx + 1) rest)

/-- No bool is an element of an array. -/
def NoBoolInArray (kind : Kind) : Elements → Prop
  | .nil => True
  | .leaf _ v rest => (kind = .array → ∀ b, v ≠ .bool b) ∧ NoBoolInArray kind rest
  | .sub kind' _ body rest => NoBoolInArray kind' body ∧ NoBoolInArray kind rest

theorem stored_keyIn_iff (name : List UInt8) (kind : Kind) (v : Leaf) :
    (keyIn name kind).stored v = v ↔ (kind = .array → ∀ b, v ≠ .bool b) := by
  cases kind with
  | doc => exact ⟨fun _ h => absurd h (by decide), fun _ => rfl⟩
  | array =>
      cases v with
      | bool b =>
          constructor
          · intro h
            exact absurd (Leaf.bool.inj h) (by cases b <;> decide)
          · exact fun h => absurd rfl (h rfl b)
      | _ => exact ⟨fun _ _ _ => nofun, fun _ => rfl⟩

/-- **What is stored is what was added** exactly when no array has a bool in it. -/
theorem stored_eq_rekey_iff (kind : Kind) (idx : ℕ) (els : Elements) :
    stored kind idx els = rekey kind idx els ↔ NoBoolInArray kind els := by
  induction els generalizing kind idx with
  | nil => exact ⟨fun _ => trivial, fun _ => rfl⟩
  | leaf name v rest ih =>
      rw [stored, rekey, NoBoolInArray, ← ih kind (idx + 1), ← stored_keyIn_iff name kind v]
      constructor
      · intro h
        obtain ⟨-, hv, hrest⟩ := Elements.leaf.inj h
        exact ⟨hv, hrest⟩
      · rintro ⟨hv, hrest⟩
        rw [hv, hrest]
  | sub kind' name body rest ihbody ihrest =>
      rw [stored, rekey, NoBoolInArray, ← ihbody kind' 0, ← ihrest kind (idx + 1)]
      constructor
      · intro h
        obtain ⟨-, -, hbody, hrest⟩ := Elements.sub.inj h
        exact ⟨hbody, hrest⟩
      · rintro ⟨hbody, hrest⟩
        rw [hbody, hrest]

/-- What is stored is as long as what was added. -/
theorem length_bytes_stored (kind : Kind) (idx : ℕ) (els : Elements) :
    (stored kind idx els).bytes.length = (rekey kind idx els).bytes.length := by
  induction els generalizing kind idx with
  | nil => rfl
  | leaf name v rest ih =>
      rw [stored, rekey, Elements.bytes, Elements.bytes, List.length_append, List.length_append,
        List.length_append, List.length_append, ih, BuilderKey.length_stored, length_header,
        length_header]
  | sub kind' name body rest ihbody ihrest =>
      rw [stored, rekey, Elements.bytes, Elements.bytes, List.length_append, List.length_append,
        List.length_append, List.length_append, ihrest, length_document, length_document, ihbody]

theorem depth_stored (kind : Kind) (idx : ℕ) (els : Elements) :
    (stored kind idx els).depth = els.depth := by
  induction els generalizing kind idx with
  | nil => rfl
  | leaf name v rest ih => rw [stored, Elements.depth, ih, Elements.depth]
  | sub kind' name body rest ihbody ihrest =>
      rw [stored, Elements.depth, ihbody, ihrest, Elements.depth]

theorem zero_notMem_keyFor {name : List UInt8} (h : 0 ∉ name) (idx : ℕ) (kind : Kind) :
    0 ∉ keyFor name idx kind := by
  cases kind with
  | doc => exact h
  | array => exact zero_notMem_arrayKey idx

theorem cleanKeys_stored (kind : Kind) (idx : ℕ) {els : Elements} (h : els.CleanKeys) :
    (stored kind idx els).CleanKeys := by
  induction els generalizing kind idx with
  | nil => exact trivial
  | leaf name v rest ih => exact ⟨zero_notMem_keyFor h.1 idx kind, ih kind (idx + 1) h.2⟩
  | sub kind' name body rest ihbody ihrest =>
      exact ⟨zero_notMem_keyFor h.1 idx kind, ihbody kind' 0 h.2.1, ihrest kind (idx + 1) h.2.2⟩

/-! ### Storages -/

/-- What a builder writes into. -/
inductive Storage where
  | buffer (bytes : List UInt8)
  | vector (content : List UInt8) (capacity startOffset footer : ℕ)
  deriving DecidableEq, Repr

namespace Storage

/-- The builder at the start. -/
def builder (platform : Platform) : Storage → BsonBuilder
  | buffer bytes => BsonBuilder.initializeBuffer bytes {}
  | vector content capacity startOffset footer =>
      BsonBuilder.initializeVector content capacity startOffset footer platform {}

/-- There is room for a document of some size, and its positions are 32-bit integers. -/
def HasRoom (platform : Platform) (size : ℕ) : Storage → Prop
  | buffer bytes => size ≤ bytes.length ∧ bytes.length < 2147483648
  | vector content capacity startOffset footer =>
      content.length ≤ capacity ∧ capacity < 2147483648 ∧
      startOffset + footer + max 10 size < 2147483648 ∧
      platform.GrowsWithin (startOffset + footer + max 10 size)

/-- **A builder with room** holds an empty draft. -/
theorem writing {platform : Platform} {size : ℕ} {st : Storage} (h : st.HasRoom platform size)
    (hsize : 5 ≤ size) :
    ∃ front footer hole bound, Writing front footer ⟨hole, .nil, [], []⟩ [] 0 (st.builder platform) ∧
      Roomy platform bound (st.builder platform) ∧ (st.builder platform).errorFlag = false ∧
      bound < 2147483648 ∧ front.length + footer + size ≤ bound := by
  cases st with
  | buffer bytes =>
      obtain ⟨hle, hlt⟩ := h
      exact ⟨[], 0, bytes.take 4, bytes.length, writing_initializeBuffer (hsize.trans hle),
        .inr ⟨rfl, le_rfl, hlt⟩, rfl, hlt, by rw [List.length_nil]; omega⟩
  | vector content capacity startOffset footer =>
      obtain ⟨hcap, hlt, hbound, hgrow⟩ := h
      obtain ⟨front, hole, hfront, -, hw, hv, herr⟩ :=
        writing_initializeVector hcap hlt hgrow
          (show startOffset + footer + 10 ≤ startOffset + footer + max 10 size by omega) hbound
      exact ⟨front, footer, hole, _, hw, .inl ⟨hv, hgrow⟩, herr, hbound, by rw [hfront]; omega⟩

end Storage

/-! ### Building and reading -/

/-- A tree is built, and the document that `finish` returns is read back. The result is the tree that
was read, and the bytes of the document; there is none if a call fails or the document cannot be
read. -/
def writeAndRead (platform : Platform) (st : Storage) (els : Elements) :
    Option (Elements × List UInt8) := do
  let s ← Runs.exec (BuilderRun.step platform) ⟨st.builder platform, true⟩ (callsOf .doc els)
  if s.succeeded then
    match s.builder.finish with
    | .ok (some (start, size), b) =>
        let mem := b.buffer.drop start.toNat
        match readDocument mem size.toNat with
        | .ok (some read) => some (read, mem.take size.toNat)
        | _ => none
    | _ => none
  else
    none

section WriteAndRead

variable {platform : Platform} {st : Storage} {els : Elements}

/-- **What is read back** is what was stored, if the reader has layers enough. -/
theorem writeAndRead_eq
    (hroom : st.HasRoom platform (document (rekey .doc 0 els).bytes).length)
    (hclean : els.CleanKeys) (hshort : ShortArrays .doc 0 els) :
    writeAndRead platform st els =
      if els.depth ≤ kMaxSubdocs then
        some (stored .doc 0 els, document (stored .doc 0 els).bytes)
      else none := by
  have hlength : (document (rekey .doc 0 els).bytes).length
      = (document (stored .doc 0 els).bytes).length := by
    rw [length_document, length_document, length_bytes_stored]
  rw [hlength] at hroom
  obtain ⟨front, footer, hole, bound, hw, hv, herr, hbound, hfits⟩ :=
    Storage.writing hroom (by rw [length_document]; omega)
  obtain ⟨b₁, b₂, tail, hexec, hfinish, hbuf, -⟩ := hw.exec_finish hv herr hbound hshort hfits
  have hread := readDocument_bytes tail (cleanKeys_stored .doc 0 hclean)
    (show (document (stored .doc 0 els).bytes).length < 2147483648 by omega)
  have hmem : b₂.buffer.drop ((front.length : ℤ)).toNat
      = document (stored .doc 0 els).bytes ++ tail := by
    rw [hbuf, Int.toNat_natCast, List.append_assoc, List.drop_left]
  rw [writeAndRead, hexec]
  dsimp only [bind, Option.bind]
  rw [if_pos rfl, hfinish]
  dsimp only
  rw [hmem, Int.toNat_natCast, hread, depth_stored, List.take_left]
  by_cases hdepth : els.depth ≤ kMaxSubdocs
  · rw [if_pos hdepth, if_pos hdepth]
  · rw [if_neg hdepth, if_neg hdepth]

/-- **A tree is read back as it was added** exactly when no array has a bool in it and the reader has
layers enough; the bytes of every value are those that it has in a document. -/
theorem writeAndRead_iff
    (hroom : st.HasRoom platform (document (rekey .doc 0 els).bytes).length)
    (hclean : els.CleanKeys) (hshort : ShortArrays .doc 0 els) :
    writeAndRead platform st els
        = some (rekey .doc 0 els, document (rekey .doc 0 els).bytes) ↔
      NoBoolInArray .doc els ∧ els.depth ≤ kMaxSubdocs := by
  rw [writeAndRead_eq hroom hclean hshort, ← stored_eq_rekey_iff .doc 0 els]
  by_cases hdepth : els.depth ≤ kMaxSubdocs
  · rw [if_pos hdepth]
    constructor
    · intro h
      exact ⟨congrArg Prod.fst (Option.some.inj h), hdepth⟩
    · rintro ⟨hstored, -⟩
      rw [hstored]
  · rw [if_neg hdepth]
    exact ⟨fun h => absurd h (by simp), fun h => absurd h.2 hdepth⟩

end WriteAndRead

theorem writeAndRead_nested :
    writeAndRead Platform.tight (.buffer (List.replicate 40 0))
        (.sub .array [97] (.leaf [] (.i32 7) (.sub .doc [] (.leaf [98] (.bool true) .nil) .nil)) .nil)
      = some (rekey .doc 0 (.sub .array [97] (.leaf [] (.i32 7)
          (.sub .doc [] (.leaf [98] (.bool true) .nil) .nil)) .nil),
        document (rekey .doc 0 (.sub .array [97] (.leaf [] (.i32 7)
          (.sub .doc [] (.leaf [98] (.bool true) .nil) .nil)) .nil)).bytes) := by
  apply (writeAndRead_iff ?_ ?_ ?_).mpr
  · exact ⟨⟨⟨fun _ _ => nofun, ⟨nofun, trivial⟩, trivial⟩, trivial⟩, by decide⟩
  · exact ⟨by decide +kernel, by decide⟩
  · exact ⟨by decide, ⟨by decide, by decide, ⟨by decide, trivial⟩, trivial⟩, trivial⟩
  · exact ⟨nofun, ⟨fun _ => by decide, fun _ => by decide, ⟨nofun, trivial⟩, trivial⟩, trivial⟩

/-- **A bool in an array** is read back as the other one. -/
theorem not_writeAndRead :
    ¬ ∀ (platform : Platform) (st : Storage) (els : Elements),
      st.HasRoom platform (document (rekey .doc 0 els).bytes).length → els.CleanKeys →
      writeAndRead platform st els
        = some (rekey .doc 0 els, document (rekey .doc 0 els).bytes) := by
  intro h
  have hread := h Platform.tight (.buffer (List.replicate 24 0))
    (.sub .array [97] (.leaf [] (.bool true) .nil) .nil) ⟨by decide +kernel, by decide⟩
    ⟨by decide, ⟨by decide, trivial⟩, trivial⟩
  exact absurd hread (by decide +kernel)

end ScApi
