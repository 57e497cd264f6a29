import ScApi.Lib.Bytes

/-!
# Binary JSON documents

A document is a run of elements with its size in front and a NUL byte behind it. An element has a
type byte, a NUL-terminated key and a value; the value of a container is a document again. This
module has the values that leaves can have, documents as trees of elements, and their bytes.

The elements of one document and of the documents in it are one inductive type, so that a proof about
a tree is one induction.

## Main results

* `Leaf.length_bytes_string`, `Leaf.length_bytes_binary`: the number of bytes of a value.
* `Elements.bytes_append`: the bytes of elements one behind another.
* `lookup_perm`: with distinct keys, the order of the elements does not matter.
-/

open Bytes

namespace Bson

/-- The value of an element that is not a container. Numbers are kept as their bits. -/
inductive Leaf where
  | bool (b : Bool)
  | double (bits : BitVec 64)
  | i32 (v : BitVec 32)
  | i64 (v : BitVec 64)
  | null
  | string (s : List UInt8)
  | binary (data : List UInt8) (subtype : UInt8)
  deriving DecidableEq, Repr

namespace Leaf

/-- The type byte of an element with this value. -/
def typeByte : Leaf → UInt8
  | bool _ => 0x08
  | double _ => 0x01
  | i32 _ => 0x10
  | i64 _ => 0x12
  | null => 0x0A
  | string _ => 0x02
  | binary _ _ => 0x05

/-- The bytes of the value. -/
def bytes : Leaf → List UInt8
  | bool b => [if b then 1 else 0]
  | double bits => toLe 8 bits.toNat
  | i32 v => toLe 4 v.toNat
  | i64 v => toLe 8 v.toNat
  | null => []
  | string s => toLe 4 (s.length + 1) ++ s ++ [0]
  | binary data subtype => toLe 4 data.length ++ subtype :: data

theorem length_bytes_double (bits : BitVec 64) : (double bits).bytes.length = 8 :=
  length_toLe _ _

theorem length_bytes_i32 (v : BitVec 32) : (i32 v).bytes.length = 4 :=
  length_toLe _ _

theorem length_bytes_i64 (v : BitVec 64) : (i64 v).bytes.length = 8 :=
  length_toLe _ _

theorem length_bytes_string (s : List UInt8) : (string s).bytes.length = s.length + 5 := by
  rw [bytes, List.length_append, List.length_append, length_toLe, List.length_singleton]
  omega

theorem length_bytes_binary (data : List UInt8) (subtype : UInt8) :
    (binary data subtype).bytes.length = data.length + 5 := by
  rw [bytes, List.length_append, length_toLe, List.length_cons]
  omega

end Leaf

/-- The containers. -/
inductive Kind where
  | doc
  | array
  deriving DecidableEq, Repr

/-- The type byte of an element that is a container. -/
def Kind.typeByte : Kind → UInt8
  | doc => 0x03
  | array => 0x04

/-- The elements of a document. -/
inductive Elements where
  | nil
  | leaf (key : List UInt8) (v : Leaf) (rest : Elements)
  | sub (kind : Kind) (key : List UInt8) (body rest : Elements)
  deriving DecidableEq, Repr

/-- What is in front of the value of an element. -/
def header (typeByte : UInt8) (key : List UInt8) : List UInt8 :=
  typeByte :: (key ++ [0])

@[simp] theorem length_header (typeByte : UInt8) (key : List UInt8) :
    (header typeByte key).length = key.length + 2 := by
  simp [header]

/-- A document with the given bytes for its elements. -/
def document (body : List UInt8) : List UInt8 :=
  toLe 4 (body.length + 5) ++ body ++ [0]

@[simp] theorem length_document (body : List UInt8) :
    (document body).length = body.length + 5 := by
  rw [document, List.length_append, List.length_append, length_toLe, List.length_singleton]
  omega

/-- **The size of a document** is read from its first four bytes. -/
theorem toI32_take_document {body : List UInt8} (h : (document body).length < 2147483648) :
    toI32 ((document body).take 4) = (document body).length := by
  have htake : (document body).take 4 = toLe 4 (document body).length := by
    rw [length_document, document, List.append_assoc, List.take_left' (length_toLe _ _)]
  have hpow : (document body).length < 256 ^ 4 := h.trans (by norm_num)
  rw [htake, toI32, ofLe_toLe_of_lt hpow]
  exact wrap32_of_range (by omega) (by omega)

/-- The elements of a document lie between its size and its last byte. -/
theorem take_drop_document (body : List UInt8) :
    ((document body).drop 4).take ((document body).length - 5) = body := by
  rw [length_document, document, List.append_assoc, List.drop_left' (length_toLe _ _),
    Nat.add_sub_cancel, List.take_left]

namespace Elements

/-- The bytes of some elements. -/
def bytes : Elements → List UInt8
  | nil => []
  | leaf key v rest => header v.typeByte key ++ v.bytes ++ rest.bytes
  | sub kind key body rest => header kind.typeByte key ++ document body.bytes ++ rest.bytes

/-- Elements one behind another. -/
def append : Elements → Elements → Elements
  | nil, t => t
  | leaf key v rest, t => leaf key v (rest.append t)
  | sub kind key body rest, t => sub kind key body (rest.append t)

/-- **The bytes of elements one behind another.** -/
@[simp] theorem bytes_append (s t : Elements) : (s.append t).bytes = s.bytes ++ t.bytes := by
  induction s with
  | nil => rfl
  | leaf key v rest ih => simp only [append, bytes, ih, List.append_assoc]
  | sub kind key body rest _ ih => simp only [append, bytes, ih, List.append_assoc]

@[simp] theorem append_nil (s : Elements) : s.append nil = s := by
  induction s with
  | nil => rfl
  | leaf key v rest ih => rw [append, ih]
  | sub kind key body rest _ ih => rw [append, ih]

theorem append_assoc (s t u : Elements) : (s.append t).append u = s.append (t.append u) := by
  induction s with
  | nil => rfl
  | leaf key v rest ih => rw [append, append, append, ih]
  | sub kind key body rest _ ih => rw [append, append, append, ih]

/-- The number of elements. -/
def length : Elements → ℕ
  | nil => 0
  | leaf _ _ rest => rest.length + 1
  | sub _ _ _ rest => rest.length + 1

/-- No key has a NUL byte in it. -/
def CleanKeys : Elements → Prop
  | nil => True
  | leaf key _ rest => 0 ∉ key ∧ rest.CleanKeys
  | sub _ key body rest => 0 ∉ key ∧ body.CleanKeys ∧ rest.CleanKeys

theorem CleanKeys.append {s t : Elements} (hs : s.CleanKeys) (ht : t.CleanKeys) :
    (s.append t).CleanKeys := by
  induction s with
  | nil => exact ht
  | leaf key v rest ih => exact ⟨hs.1, ih hs.2⟩
  | sub kind key body rest _ ih => exact ⟨hs.1, hs.2.1, ih hs.2.2⟩

/-- There is no array among the elements. -/
def DocumentsOnly : Elements → Prop
  | nil => True
  | leaf _ _ rest => rest.DocumentsOnly
  | sub kind _ body rest => kind = .doc ∧ body.DocumentsOnly ∧ rest.DocumentsOnly

/-- How deep documents are nested in each other. -/
def depth : Elements → ℕ
  | nil => 0
  | leaf _ _ rest => rest.depth
  | sub _ _ body rest => max (body.depth + 1) rest.depth

theorem depth_append (s t : Elements) : (s.append t).depth = max s.depth t.depth := by
  induction s with
  | nil => exact (Nat.zero_max _).symm
  | leaf key v rest ih => exact ih
  | sub kind key body rest _ ih => rw [append, depth, depth, ih, max_assoc]

end Elements

/-! ### The elements of a document as a list -/

/-- The value of an element. -/
inductive Value where
  | leaf (v : Leaf)
  | sub (kind : Kind) (body : Elements)
  deriving DecidableEq, Repr

namespace Value

/-- The type byte of an element with this value. -/
def typeByte : Value → UInt8
  | leaf v => v.typeByte
  | sub kind _ => kind.typeByte

/-- The bytes of the value. -/
def bytes : Value → List UInt8
  | leaf v => v.bytes
  | sub _ body => document body.bytes

/-- The 32-bit integer, if the value is one. -/
def i32? : Value → Option ℤ
  | leaf (.i32 v) => some v.toInt
  | _ => none

/-- The string, if the value is one. -/
def string? : Value → Option (List UInt8)
  | leaf (.string s) => some s
  | _ => none

/-- The first element of a document, if both are documents. -/
def firstDocument? : Value → Option Elements
  | sub .doc (.sub .doc _ body _) => some body
  | _ => none

/-- No key in the value has a NUL byte in it. -/
def CleanKeys : Value → Prop
  | leaf _ => True
  | sub _ body => body.CleanKeys

end Value

/-- An element: its key and its value. -/
abbrev Entry := List UInt8 × Value

/-- The bytes of an element. -/
def Entry.bytes (e : Entry) : List UInt8 :=
  header e.2.typeByte e.1 ++ e.2.bytes

@[simp] theorem Entry.length_bytes (e : Entry) :
    (Entry.bytes e).length = e.1.length + 2 + e.2.bytes.length := by
  rw [Entry.bytes, List.length_append, length_header]

/-- The elements as a list. -/
def Elements.entries : Elements → List Entry
  | .nil => []
  | .leaf key v rest => (key, .leaf v) :: rest.entries
  | .sub kind key body rest => (key, .sub kind body) :: rest.entries

@[simp] theorem Elements.flatMap_entries (els : Elements) :
    els.entries.flatMap Entry.bytes = els.bytes := by
  induction els with
  | nil => rfl
  | leaf key v rest ih =>
      rw [entries, List.flatMap_cons, ih]
      rfl
  | sub kind key body rest _ ih =>
      rw [entries, List.flatMap_cons, ih]
      rfl

theorem Elements.entries_append (s t : Elements) :
    (s.append t).entries = s.entries ++ t.entries := by
  induction s with
  | nil => rfl
  | leaf key v rest ih => rw [append, entries, ih, entries, List.cons_append]
  | sub kind key body rest _ ih => rw [append, entries, ih, entries, List.cons_append]

theorem Elements.CleanKeys.entries {els : Elements} (h : els.CleanKeys) :
    ∀ e ∈ els.entries, 0 ∉ e.1 ∧ e.2.CleanKeys := by
  induction els with
  | nil => simp [Elements.entries]
  | leaf key v rest ih =>
      rintro e (_ | ⟨_, hmem⟩)
      · exact ⟨h.1, trivial⟩
      · exact ih h.2 e hmem
  | sub kind key body rest _ ih =>
      rintro e (_ | ⟨_, hmem⟩)
      · exact ⟨h.1, h.2.1⟩
      · exact ih h.2.2 e hmem

/-- **With distinct keys, what is found under a key** is what is stored under it. -/
theorem lookup_eq_some_iff_mem {entries : List Entry} {key : List UInt8} {v : Value}
    (h : (entries.map Prod.fst).Nodup) : entries.lookup key = some v ↔ (key, v) ∈ entries := by
  induction entries with
  | nil => simp
  | cons e entries ih =>
      obtain ⟨hnew, hrest⟩ := List.nodup_cons.mp h
      rw [List.lookup_cons, List.mem_cons]
      by_cases hkey : key = e.1
      · have habsent : (key, v) ∉ entries := fun hmem =>
          hnew (hkey ▸ List.mem_map_of_mem (f := Prod.fst) hmem)
        subst hkey
        simp [habsent, Prod.ext_iff, eq_comm]
      · have hne : (key, v) ≠ e := fun heq => hkey (congrArg Prod.fst heq)
        rw [beq_eq_false_iff_ne.mpr hkey]
        simp [hne, ih hrest]

/-- **The order of the elements does not matter** for what is found. -/
theorem lookup_perm {entries entries' : List Entry} (h : (entries.map Prod.fst).Nodup)
    (hperm : entries'.Perm entries) (key : List UInt8) :
    entries'.lookup key = entries.lookup key := by
  have h' : (entries'.map Prod.fst).Nodup := ((hperm.map Prod.fst).nodup_iff).mpr h
  refine Option.ext fun v => ?_
  rw [lookup_eq_some_iff_mem h, lookup_eq_some_iff_mem h', hperm.mem_iff]

end Bson
