import Mathlib.Data.Option.Basic
import ScApi.BsonReading
import ScApi.CommandResults
import ScApi.Lib.BsonFields

/-!
# Well-formed responses

A response as a list of elements with distinct keys behind `00type`, in any order, and its bytes. What
`parsePacket` makes of the bytes is what the response says, up to the text of an error.

## Main results

* `fieldsFrom_bytes`: the elements that the reader finds are those that were written.
* `rel_lastOf`: what is read from the last field with a key, and what is found under the key.
* `isResponse_bytes`, `tells_iff`: a well-formed response, and when its callback gets what it says.
-/

open Bytes BoundedRead Bson

namespace ScApi

open ElementType BsonReader

/-- The elements are in the memory, between other bytes. -/
structure Located (mem pre post : List UInt8) (entries : List Entry) : Prop where
  mem_eq : mem = pre ++ entries.flatMap Entry.bytes ++ post
  small : pre.length + (entries.flatMap Entry.bytes).length < 2147483647
  clean : ∀ e ∈ entries, 0 ∉ e.1 ∧ e.2.CleanKeys

/-- The elements, as the reader finds them from `start` on. -/
def fieldsOf (start : ℕ) : List Entry → List Field
  | [] => []
  | e :: entries =>
      ⟨ElementType.ofByte e.2.typeByte, e.1, (start + e.1.length + 2 : ℕ)⟩
        :: fieldsOf (start + (Entry.bytes e).length) entries

section

variable {mem pre post : List UInt8} {e : Entry} {entries : List Entry} {v : Value}

/-- Behind the last element is the end of the document. -/
theorem Located.atEnd (h : Located mem pre (0 :: post) []) : byteAt mem pre.length = .ok 0 := by
  rw [h.mem_eq, List.flatMap_nil, List.append_nil]
  exact byteAt_append pre 0 post

theorem Located.tail (h : Located mem pre post (e :: entries)) :
    Located mem (pre ++ Entry.bytes e) post entries where
  mem_eq := by
    rw [h.mem_eq, List.flatMap_cons]
    simp only [List.append_assoc]
  small := by
    have hsmall := h.small
    rw [List.flatMap_cons, List.length_append] at hsmall
    rw [List.length_append]
    omega
  clean := fun f hf => h.clean f (List.mem_cons_of_mem e hf)

/-- The first of the elements. -/
theorem Located.head (h : Located mem pre post (e :: entries)) :
    Located mem pre (entries.flatMap Entry.bytes ++ post) [e] where
  mem_eq := by
    rw [h.mem_eq, List.flatMap_cons, List.flatMap_singleton]
    simp only [List.append_assoc]
  small := by
    have hsmall := h.small
    rw [List.flatMap_cons, List.length_append] at hsmall
    rw [List.flatMap_singleton]
    omega
  clean := fun f hf => h.clean f (by simp_all)

/-- The elements from one of them on. -/
theorem located_from {front back : List Entry}
    (h : Located mem pre post (front ++ e :: back)) :
    Located mem (pre ++ front.flatMap Entry.bytes) post (e :: back) where
  mem_eq := by
    rw [h.mem_eq, List.flatMap_append]
    simp only [List.append_assoc]
  small := by
    have hsmall := h.small
    rw [List.flatMap_append, List.length_append] at hsmall
    rw [List.length_append]
    omega
  clean := fun f hf => h.clean f (List.mem_append_right front hf)

/-- The bytes of a value, with the number of bytes in front of it. -/
theorem Located.value (h : Located mem pre post [e]) :
    mem = pre ++ header e.2.typeByte e.1 ++ e.2.bytes ++ post ∧
      (pre ++ header e.2.typeByte e.1).length = pre.length + e.1.length + 2 ∧
      pre.length + e.1.length + 2 + e.2.bytes.length < 2147483647 := by
  have hsmall := h.small
  rw [List.flatMap_singleton, Entry.length_bytes] at hsmall
  refine ⟨?_, ?_, by omega⟩
  · rw [h.mem_eq, List.flatMap_singleton, Entry.bytes]
    simp only [List.append_assoc]
  · rw [List.length_append, length_header, Nat.add_assoc]

/-- The size and the bytes of a string in an element. -/
theorem Located.string {key s : List UInt8} (h : Located mem pre post [(key, .leaf (.string s))]) :
    i32At mem (pre.length + key.length + 2 : ℕ) = .ok ((s.length + 1 : ℕ) : ℤ) ∧
      toSizeT (wrap32 (((s.length + 1 : ℕ) : ℤ) - 1)) = s.length ∧
      bytesAt mem (pre.length + key.length + 2 + 4 : ℕ) s.length = .ok s := by
  obtain ⟨hmem, hpre, hsmall⟩ := h.value
  have hlen : (Value.leaf (.string s)).bytes.length = s.length + 5 := Leaf.length_bytes_string s
  rw [hlen] at hsmall
  dsimp only at hpre
  generalize hp : pre ++ header (Value.leaf (.string s)).typeByte key = p at hmem hpre
  have hsplit : mem = p ++ toLe 4 (s.length + 1) ++ s ++ 0 :: post := by
    rw [hmem, Value.bytes, Leaf.bytes]
    simp only [List.append_assoc, List.cons_append, List.nil_append]
  rw [← hpre]
  refine ⟨?_, ?_, ?_⟩
  · rw [hsplit, List.append_assoc (p ++ toLe 4 _)]
    exact i32At_append p (by omega) _
  · have hpred : ((s.length + 1 : ℕ) : ℤ) - 1 = s.length := by omega
    rw [hpred, wrap32_of_range (by omega) (by omega), toSizeT_natCast (by omega)]
  · have hread := bytesAt_append (p ++ toLe 4 (s.length + 1)) s (0 :: post)
    rw [← hsplit, List.length_append, length_toLe] at hread
    exact hread

/-- The size of a container in an element. -/
theorem Located.size {key : List UInt8} {kind : Kind} {body : Elements}
    (h : Located mem pre post [(key, .sub kind body)]) :
    i32At mem (pre.length + key.length + 2 : ℕ) = .ok ((body.bytes.length + 5 : ℕ) : ℤ) := by
  obtain ⟨hmem, hpre, hsmall⟩ := h.value
  have hbytes : (Value.sub kind body).bytes = document body.bytes := rfl
  rw [hbytes] at hmem
  rw [hbytes, length_document] at hsmall
  dsimp only at hpre
  have hsplit : mem = pre ++ header (Value.sub kind body).typeByte key
      ++ toLe 4 (body.bytes.length + 5) ++ (body.bytes ++ 0 :: post) := by
    rw [hmem, document]
    simp only [List.append_assoc, List.cons_append, List.nil_append]
  rw [← hpre, hsplit]
  exact i32At_append _ (by omega) _

/-- The elements of a container in an element. -/
theorem Located.sub {key : List UInt8} {kind : Kind} {body : Elements}
    (h : Located mem pre post [(key, .sub kind body)]) :
    ∃ pre', pre'.length = pre.length + key.length + 6 ∧
      Located mem pre' (0 :: post) body.entries := by
  obtain ⟨hmem, hpre, hsmall⟩ := h.value
  have hclean : body.CleanKeys := (h.clean _ List.mem_cons_self).2
  have hbytes : (Value.sub kind body).bytes = document body.bytes := rfl
  rw [hbytes] at hmem hsmall
  rw [length_document] at hsmall
  have hlength : (pre ++ header (Value.sub kind body).typeByte key
      ++ toLe 4 (body.bytes.length + 5)).length = pre.length + key.length + 6 := by
    rw [List.length_append, hpre, length_toLe]
  refine ⟨_, hlength, ?_, ?_, hclean.entries⟩
  · rw [hmem, Elements.flatMap_entries, document]
    simp only [List.append_assoc, List.cons_append, List.nil_append]
  · rw [Elements.flatMap_entries, hlength]
    dsimp only at hsmall
    omega

/-- The number of bytes of a value, for the reader. -/
theorem value_sizes (hmem : mem = pre ++ v.bytes ++ post) (hlen : v.bytes.length < 2147483648) :
    (∃ need, valueSize mem pre.length (ElementType.ofByte v.typeByte) = .ok need ∧ 0 ≤ need ∧
      need ≤ v.bytes.length + 1) ∧
    storedSize mem pre.length (ElementType.ofByte v.typeByte) = .ok v.bytes.length := by
  cases v with
  | leaf v => exact leaf_sizes hmem hlen
  | sub kind body =>
      have hbytes : (Value.sub kind body).bytes = document body.bytes := rfl
      rw [hbytes, length_document] at hlen
      rw [hbytes] at hmem
      have hsize : i32At mem pre.length = .ok ((body.bytes.length + 5 : ℕ) : ℤ) := by
        have hsplit : mem = pre ++ toLe 4 (body.bytes.length + 5) ++ (body.bytes ++ [0] ++ post) := by
          rw [hmem, document]
          simp only [List.append_assoc]
        rw [hsplit]
        exact i32At_append pre hlen _
      rw [hbytes, length_document]
      cases kind <;> exact ⟨⟨_, hsize, by omega, by omega⟩, hsize⟩

/-- An element in a document that does not end with it, as the reader finds it. -/
theorem Located.elementAt (h : Located mem pre post [e]) {docEnd : ℤ}
    (hend : ((pre.length + (Entry.bytes e).length : ℕ) : ℤ) < docEnd) :
    (∃ need, ElementAt mem docEnd pre.length (ElementType.ofByte e.2.typeByte) e.1
      (pre.length + e.1.length + 2 : ℕ) need) ∧
    storedSize mem (pre.length + e.1.length + 2 : ℕ) (ElementType.ofByte e.2.typeByte)
      = .ok e.2.bytes.length := by
  obtain ⟨hmem, hpre, hsmall⟩ := h.value
  obtain ⟨⟨need, hneed, h0, hle⟩, hstored⟩ := value_sizes hmem (by omega)
  rw [hpre] at hneed hstored
  rw [Entry.length_bytes] at hend
  have hsplit : mem = pre ++ (header e.2.typeByte e.1 ++ e.2.bytes) ++ post := by
    rw [hmem, List.append_assoc pre]
  exact ⟨⟨need, elementAt_bytes hsplit (h.clean e List.mem_cons_self).1 hneed h0
    (by push_cast at hend ⊢; omega)⟩, hstored⟩

/-- **The elements that the reader finds** are those that were written. -/
theorem fieldsFrom_bytes {docEnd : ℤ} (h : Located mem pre (0 :: post) entries)
    (hend : docEnd = (pre.length + (entries.flatMap Entry.bytes).length + 1 : ℕ)) :
    FieldsFrom mem docEnd pre.length (fieldsOf pre.length entries) := by
  induction entries generalizing pre with
  | nil => exact FieldsFrom.docEnd h.atEnd
  | cons e entries ih =>
      rw [List.flatMap_cons, List.length_append, ← Nat.add_assoc] at hend
      have hlt : ((pre.length + (Entry.bytes e).length : ℕ) : ℤ) < docEnd := by omega
      obtain ⟨⟨need, helem⟩, hstored⟩ := h.head.elementAt hlt
      have hrest := ih h.tail (by rw [hend, List.length_append])
      have hnext : ((pre.length + e.1.length + 2 : ℕ) : ℤ) + e.2.bytes.length
          = (pre ++ Entry.bytes e).length := by
        rw [List.length_append, Entry.length_bytes]
        omega
      rw [← hnext, List.length_append] at hrest
      exact FieldsFrom.field helem hstored hrest

/-- **What is read from the last field with a key** is related to what is found under the key, if the
values are. -/
theorem rel_lastOf {α β : Type} {R : α → β → Prop} {select : Field → Option α} {key : List UInt8}
    {g : Value → Option β} (hother : ∀ f : Field, f.key ≠ key → select f = none)
    (hthis : ∀ pre post v, Located mem pre post [(key, v)] →
      Option.Rel R (select ⟨ElementType.ofByte v.typeByte, key, (pre.length + key.length + 2 : ℕ)⟩)
        (g v))
    (h : Located mem pre post entries) (hkeys : (entries.map Prod.fst).Nodup) :
    Option.Rel R (lastOf select (fieldsOf pre.length entries)) ((entries.lookup key).bind g) := by
  induction entries generalizing pre with
  | nil => exact Option.Rel.none
  | cons e entries ih =>
      obtain ⟨hnew, hrest⟩ := List.nodup_cons.mp hkeys
      have htail := ih h.tail hrest
      rw [List.length_append] at htail
      rw [fieldsOf, lastOf_cons, List.lookup_cons]
      by_cases hkey : e.1 = key
      · subst hkey
        have habsent : entries.lookup e.1 = none := lookup_eq_none_of_notMem hnew
        have hnone : lastOf select (fieldsOf (pre.length + (Entry.bytes e).length) entries) = none := by
          rw [habsent, Option.bind_none] at htail
          generalize lastOf select (fieldsOf _ entries) = last at htail
          cases htail
          rfl
        rw [hnone, Option.none_or, beq_self_eq_true]
        exact hthis pre _ e.2 h.head
      · rw [hother _ hkey, Option.or_none, beq_eq_false_iff_ne.mpr (Ne.symm hkey)]
        exact htail

/-! ### The values that are read -/

theorem eq_i32 (h : ElementType.ofByte v.typeByte = elementI32) : ∃ n, v = .leaf (.i32 n) := by
  cases v with
  | leaf v => cases v <;> first | exact ⟨_, rfl⟩ | exact ElementType.noConfusion h
  | sub kind body => cases kind <;> exact ElementType.noConfusion h

theorem eq_string (h : ElementType.ofByte v.typeByte = elementStr) : ∃ s, v = .leaf (.string s) := by
  cases v with
  | leaf v => cases v <;> first | exact ⟨_, rfl⟩ | exact ElementType.noConfusion h
  | sub kind body => cases kind <;> exact ElementType.noConfusion h

theorem eq_doc (h : ElementType.ofByte v.typeByte = elementDoc) : ∃ body, v = .sub .doc body := by
  cases v with
  | leaf v => cases v <;> exact ElementType.noConfusion h
  | sub kind body => cases kind <;> first | exact ⟨_, rfl⟩ | exact ElementType.noConfusion h

/-- The signed number of the bytes of a 32-bit integer. -/
theorem toI32_toLe_toNat (n : BitVec 32) : toI32 (toLe 4 n.toNat) = n.toInt := by
  have hlt := n.isLt
  have hpow : n.toNat < 256 ^ 4 := hlt.trans_le (by norm_num)
  rw [toI32, ofLe_toLe_of_lt hpow, wrap32, BitVec.toInt]
  split <;> omega

theorem i32At_located {key : List UInt8} {n : BitVec 32}
    (h : Located mem pre post [(key, .leaf (.i32 n))]) :
    i32At mem (pre.length + key.length + 2 : ℕ) = .ok n.toInt := by
  obtain ⟨hmem, hpre, -⟩ := h.value
  have hread := bytesAt_append (pre ++ header 0x10 key) (toLe 4 n.toNat) post
  have hpre' : (pre ++ header 0x10 key).length = pre.length + key.length + 2 := hpre
  have hmem' : mem = pre ++ header 0x10 key ++ toLe 4 n.toNat ++ post := hmem
  rw [← hmem', hpre', length_toLe] at hread
  rw [i32At, hread, ok_bind, toI32_toLe_toNat, pure_eq_ok]

/-- **A field with a 32-bit integer.** -/
theorem rel_i32 {α : Type} {key : List UInt8} {φ : ℤ → α}
    (h : Located mem pre post [(key, v)]) :
    Option.Rel (fun a n => a = φ n)
      (if (⟨ElementType.ofByte v.typeByte, key, (pre.length + key.length + 2 : ℕ)⟩ : Field).Is key
          elementI32 then
        (i32At mem (pre.length + key.length + 2 : ℕ)).toOption.map φ else none) v.i32? := by
  by_cases ht : ElementType.ofByte v.typeByte = elementI32
  · obtain ⟨n, rfl⟩ := eq_i32 ht
    rw [if_pos ⟨rfl, ht⟩, i32At_located h]
    exact Option.Rel.some rfl
  · rw [if_neg fun his => ht his.2]
    cases v with
    | leaf v => cases v <;> first | exact Option.Rel.none | exact absurd rfl ht
    | sub kind body => exact Option.Rel.none

/-- The text of a string is where its view says, with a NUL byte behind it. -/
structure IsText (mem : List UInt8) (text : Span) (s : List UInt8) : Prop where
  offset : 0 ≤ text.offset
  bytes : (mem.drop text.offset.toNat).take text.length = s
  nul : byteAt mem (text.offset + text.length) = .ok 0

/-- **The field with the text of an error.** -/
theorem rel_errorMessage (h : Located mem pre post [(ascii "error_message", v)]) :
    Option.Rel (IsText mem)
      (Field.errorMessage mem ⟨ElementType.ofByte v.typeByte, ascii "error_message",
        (pre.length + (ascii "error_message").length + 2 : ℕ)⟩) v.string? := by
  by_cases ht : ElementType.ofByte v.typeByte = elementStr
  · obtain ⟨s, rfl⟩ := eq_string ht
    obtain ⟨hsize, hlength, hbytes⟩ := h.string
    obtain ⟨hmem, hpre, -⟩ := h.value
    have hvalue : (Value.leaf (.string s)).bytes = toLe 4 (s.length + 1) ++ s ++ [0] := rfl
    have hnul := byteAt_append (pre ++ header (Value.leaf (.string s)).typeByte (ascii "error_message")
      ++ toLe 4 (s.length + 1) ++ s) 0 post
    have hsplit : mem = pre ++ header (Value.leaf (.string s)).typeByte (ascii "error_message")
        ++ toLe 4 (s.length + 1) ++ s ++ 0 :: post := by
      rw [hmem, hvalue]
      simp only [List.append_assoc, List.cons_append, List.nil_append]
    rw [← hsplit, List.length_append, List.length_append, hpre, length_toLe] at hnul
    rw [Field.errorMessage, if_pos ⟨rfl, ht⟩, hsize]
    refine Option.Rel.some ⟨by dsimp only; omega, ?_, ?_⟩
    · dsimp only
      rw [hlength]
      exact (bytesAt_eq_ok_iff.mp hbytes).2.2.symm
    · dsimp only
      rw [hlength]
      exact hnul
  · rw [Field.errorMessage, if_neg fun his => ht his.2]
    cases v with
    | leaf v => cases v <;> first | exact Option.Rel.none | exact absurd rfl ht
    | sub kind body => exact Option.Rel.none

/-- The first element of a document that is read. -/
theorem firstDocument_located {value need : ℤ} (hsize : i32At mem value = .ok need)
    (h : Located mem pre post [e]) (hpre : (pre.length : ℤ) = value + 4)
    (hfits : pre.length + ((Entry.bytes e).length : ℤ) < value + need)
    (hend : value + need < 2147483648) :
    firstDocument mem value
      = .ok (if ElementType.ofByte e.2.typeByte = elementDoc then
          some ((pre.length + e.1.length + 2 : ℕ) : ℤ) else none) := by
  obtain ⟨⟨n, helem⟩, -⟩ := h.elementAt (by exact_mod_cast hfits)
  have hwrap : wrap32 (value + 4) = pre.length := by
    rw [← hpre]
    exact wrap32_of_range (by omega) (by omega)
  rw [firstDocument, hsize, ok_bind, next_docBegin rfl rfl, hwrap,
    readElement_of_elementAt hend helem]
  rfl

/-- A pointer to a document. -/
structure IsDocument (mem : List UInt8) (p : ℤ) (body : Elements) : Prop where
  bytes : bytesAt mem p (document body.bytes).length = .ok (document body.bytes)

/-- The bytes of a container in an element. -/
theorem Located.document {key : List UInt8} {kind : Kind} {body : Elements}
    (h : Located mem pre post [(key, .sub kind body)]) :
    IsDocument mem (pre.length + key.length + 2 : ℕ) body := by
  obtain ⟨hmem, hpre, -⟩ := h.value
  have hsplit : mem = pre ++ header (Value.sub kind body).typeByte key ++ Bson.document body.bytes
    ++ post := hmem
  have hread := bytesAt_append (pre ++ header (Value.sub kind body).typeByte key)
    (Bson.document body.bytes) post
  rw [← hsplit, hpre] at hread
  exact ⟨hread⟩

/-- **The field `data`.** -/
theorem rel_data (h : Located mem pre post [(ascii "data", v)]) :
    Field.Readable mem ⟨ElementType.ofByte v.typeByte, ascii "data",
      (pre.length + (ascii "data").length + 2 : ℕ)⟩ ∧
    Option.Rel (IsDocument mem)
      (Field.data mem ⟨ElementType.ofByte v.typeByte, ascii "data",
        (pre.length + (ascii "data").length + 2 : ℕ)⟩) v.firstDocument? := by
  by_cases ht : ElementType.ofByte v.typeByte = elementDoc
  swap
  · rw [Field.data, if_neg fun his => ht his.2]
    refine ⟨fun his => absurd his.2 ht, ?_⟩
    cases v with
    | leaf v => exact Option.Rel.none
    | sub kind body =>
        cases kind with
        | doc => exact absurd rfl ht
        | array => exact Option.Rel.none
  obtain ⟨body, rfl⟩ := eq_doc ht
  have hsize := h.size
  obtain ⟨pre', hpre', hloc⟩ := h.sub
  have hsmall := hloc.small
  rw [Elements.flatMap_entries] at hsmall
  obtain ⟨p, hp⟩ : ∃ p, p = pre.length + (ascii "data").length + 2 := ⟨_, rfl⟩
  rw [← hp] at hsize
  rw [Field.data, if_pos ⟨rfl, ht⟩, Field.Readable, ← hp]
  suffices hfirst : ∃ o, firstDocument mem p = .ok o ∧
      Option.Rel (IsDocument mem) o (Value.sub .doc body).firstDocument? by
    obtain ⟨o, ho, hrel⟩ := hfirst
    exact ⟨fun _ => ⟨o, ho⟩, by rw [ho]; exact hrel⟩
  have hfirst : ∀ e rest, body.entries = e :: rest →
      firstDocument mem p = .ok (if ElementType.ofByte e.2.typeByte = elementDoc then
        some ((pre'.length + e.1.length + 2 : ℕ) : ℤ) else none) := by
    intro e rest heq
    have hlen : body.bytes.length = (Entry.bytes e).length + (rest.flatMap Entry.bytes).length := by
      rw [← Elements.flatMap_entries, heq, List.flatMap_cons, List.length_append]
    refine firstDocument_located hsize (heq ▸ hloc).head ?_ ?_ ?_
    · omega
    · push_cast
      omega
    · push_cast
      omega
  cases body with
  | nil =>
      have hbyte : byteAt mem pre'.length = .ok 0 := hloc.atEnd
      have hwrap : wrap32 ((p : ℤ) + 4) = pre'.length := by
        rw [wrap32_of_range (by omega) (by omega)]
        omega
      refine ⟨none, ?_, Option.Rel.none⟩
      rw [firstDocument, hsize, ok_bind, next_docBegin rfl rfl, hwrap, readElement_of_end _ hbyte]
      rfl
  | leaf key v rest =>
      have hne : ElementType.ofByte v.typeByte ≠ elementDoc := by
        intro heq
        obtain ⟨body, hbody⟩ := eq_doc (v := .leaf v) heq
        exact Value.noConfusion hbody
      refine ⟨none, ?_, Option.Rel.none⟩
      rw [hfirst (key, .leaf v) rest.entries rfl]
      exact congrArg Except.ok (if_neg hne)
  | sub kind key b rest =>
      have hread := hfirst (key, .sub kind b) rest.entries rfl
      cases kind with
      | array => exact ⟨none, hread, Option.Rel.none⟩
      | doc => exact ⟨_, hread, Option.Rel.some hloc.head.document⟩

end

/-- The elements of a document at the start of a memory. -/
theorem located_document (entries : List Entry) (tail : List UInt8)
    (hclean : ∀ e ∈ entries, 0 ∉ e.1 ∧ e.2.CleanKeys)
    (hlen : (Bson.document (entries.flatMap Entry.bytes)).length < 2147483648) :
    Located (Bson.document (entries.flatMap Entry.bytes) ++ tail)
      (toLe 4 ((entries.flatMap Entry.bytes).length + 5)) (0 :: tail) entries where
  mem_eq := by
    rw [Bson.document]
    simp only [List.append_assoc, List.cons_append, List.nil_append]
  small := by
    rw [length_document] at hlen
    rw [length_toLe]
    omega
  clean := hclean

/-! ### Responses -/

/-- The bytes of a response with these elements behind `00type`. -/
def responseBytes (entries : List Entry) : List UInt8 :=
  document ((((ascii "00type", .leaf (.i32 1)) : Entry) :: entries).flatMap Entry.bytes)

/-- **A well-formed response** with distinct keys. -/
structure WellFormed (entries : List Entry) : Prop where
  keys : (ascii "00type" :: entries.map Prod.fst).Nodup
  clean : ∀ e ∈ entries, 0 ∉ e.1 ∧ e.2.CleanKeys
  size : (responseBytes entries).length < 2147483648

/-- The id of the command that the response is for. -/
def responseId (entries : List Entry) : Option ℤ :=
  (entries.lookup (ascii "user-data")).bind Value.i32?

/-- The result code of the response. -/
def responseCode (entries : List Entry) : ResultCode :=
  ((entries.lookup (ascii "result")).bind Value.i32?).elim .ok ResultCode.mk

/-- The payload of the response: the document in its `data`. -/
def responsePayload (entries : List Entry) : Option Elements :=
  (entries.lookup (ascii "data")).bind Value.firstDocument?

/-- The text of the error. -/
def responseMessage (entries : List Entry) : Option (List UInt8) :=
  (entries.lookup (ascii "error_message")).bind Value.string?

/-- **The callback gets what the response says**: its result code, after a success its payload, and
after a failure the text of its error. -/
structure Tells (mem : List UInt8) (entries : List Entry) (result : AsyncCommandResult) : Prop where
  code : result.resultCode = responseCode entries
  payload : result.isSuccess = true →
    Option.Rel (IsDocument mem) result.getPayload (responsePayload entries)
  message : result.isSuccess = false →
    result.getErrorMessage mem = .ok ((responseMessage entries).getD [])

/-- The condition on a response: a failure comes with a text, without a NUL byte in it. -/
def HasText (entries : List Entry) : Prop :=
  responseCode entries = .ok ∨ ∃ s, responseMessage entries = some s ∧ 0 ∉ s

section

variable {entries entries' : List Entry}

/-- The fields of a well-formed response. -/
def responseFields (entries : List Entry) : List Field :=
  fieldsOf 16 entries

theorem length_responseBytes (entries : List Entry) :
    (responseBytes entries).length = (entries.flatMap Entry.bytes).length + 17 := by
  have hfirst : (Entry.bytes (ascii "00type", .leaf (.i32 1))).length = 12 := rfl
  rw [responseBytes, length_document, List.flatMap_cons, List.length_append, hfirst]
  omega

theorem located_responseBytes (h : WellFormed entries) (behind : List UInt8) :
    Located (responseBytes entries ++ behind) (toLe 4 (responseBytes entries).length) (0 :: behind)
      ((ascii "00type", .leaf (.i32 1)) :: entries) := by
  have hloc := located_document ((ascii "00type", .leaf (.i32 1)) :: entries) behind
    (List.forall_mem_cons.mpr ⟨⟨by decide, trivial⟩, h.clean⟩) h.size
  rwa [← length_document] at hloc

/-- The elements behind `00type`. -/
theorem located_responseFields (h : WellFormed entries) (behind : List UInt8) :
    ∃ pre, pre.length = 16 ∧ Located (responseBytes entries ++ behind) pre (0 :: behind) entries := by
  refine ⟨_, ?_, (located_responseBytes h behind).tail⟩
  rw [List.length_append, length_toLe]
  rfl

/-- What holds of every element holds of every field. -/
theorem forall_fieldsOf {mem pre post : List UInt8} {P : Field → Prop}
    (hP : ∀ pre post e, Located mem pre post [e] →
      P ⟨ElementType.ofByte e.2.typeByte, e.1, (pre.length + e.1.length + 2 : ℕ)⟩)
    (h : Located mem pre post entries) : ∀ f ∈ fieldsOf pre.length entries, P f := by
  induction entries generalizing pre with
  | nil => simp [fieldsOf]
  | cons e entries ih =>
      have hrest := ih h.tail
      rw [List.length_append] at hrest
      exact List.forall_mem_cons.mpr ⟨hP pre _ e h.head, hrest⟩

/-- **A well-formed response is a response.** -/
theorem isResponse_bytes (h : WellFormed entries) (behind : List UInt8) :
    IsResponse (responseBytes entries ++ behind) (responseBytes entries).length
      (responseFields entries) := by
  have hlen := length_responseBytes entries
  have hloc := located_responseBytes h behind
  have hend : ((responseBytes entries).length : ℤ)
      = ((toLe 4 (responseBytes entries).length).length
        + ((((ascii "00type", .leaf (.i32 1)) : Entry) :: entries).flatMap Entry.bytes).length
        + 1 : ℕ) := by
    nth_rewrite 1 [responseBytes]
    rw [length_document, length_toLe]
    omega
  have hfields := fieldsFrom_bytes hloc hend
  rw [length_toLe] at hfields
  have hsize : i32At (responseBytes entries ++ behind) 0 = .ok (responseBytes entries).length := by
    have hread := i32At_append [] h.size
      ((((ascii "00type", .leaf (.i32 1)) : Entry) :: entries).flatMap Entry.bytes ++ 0 :: behind)
    rw [List.nil_append, ← List.append_assoc, ← hloc.mem_eq] at hread
    exact hread
  have htype := i32At_located hloc.head
  rw [length_toLe] at htype
  refine ⟨by omega, (responseBytes entries).length, 12, hsize, by omega, le_rfl, hfields, htype, ?_⟩
  obtain ⟨pre, hpre, hrest⟩ := located_responseFields h behind
  rw [responseFields, ← hpre]
  refine forall_fieldsOf (fun pre post e he his => ?_) hrest
  obtain ⟨key, v⟩ := e
  obtain rfl : key = ascii "data" := his.1
  exact (rel_data he).1 his

/-- What the fields of a well-formed response say. -/
structure FieldsSay (mem : List UInt8) (entries : List Entry) (fs : List Field) : Prop where
  userData : lastOf (Field.userData mem) fs = responseId entries
  result : (lastOf (Field.result mem) fs).getD .ok = responseCode entries
  data : Option.Rel (IsDocument mem) (lastOf (Field.data mem) fs) (responsePayload entries)
  errorMessage : Option.Rel (IsText mem) (lastOf (Field.errorMessage mem) fs)
    (responseMessage entries)

theorem fieldsSay_responseFields (h : WellFormed entries) (behind : List UInt8) :
    FieldsSay (responseBytes entries ++ behind) entries (responseFields entries) := by
  obtain ⟨pre, hpre, hloc⟩ := located_responseFields h behind
  have hkeys := (List.nodup_cons.mp h.keys).2
  have hother : ∀ {f : Field} {key : List UInt8} {type : ElementType}, f.key ≠ key →
      ¬ f.Is key type := fun hne his => hne his.1
  rw [responseFields, ← hpre]
  refine ⟨?_, ?_, ?_, ?_⟩
  · have hrel : Option.Rel (fun a n => a = id n)
        (lastOf (Field.userData (responseBytes entries ++ behind)) (fieldsOf pre.length entries))
        ((entries.lookup (ascii "user-data")).bind Value.i32?) :=
      rel_lastOf (fun f hf => if_neg (hother hf)) (fun pre post v hv => ?_) hloc hkeys
    · rw [responseId]
      generalize lastOf _ _ = a at hrel ⊢
      generalize Option.bind _ _ = b at hrel ⊢
      cases hrel with
      | some hab => exact congrArg some hab
      | none => rfl
    · have hone := rel_i32 (φ := id) hv
      simp only [Option.map_id_fun, id_eq] at hone
      exact hone
  · have hrel : Option.Rel (fun a n => a = ResultCode.mk n)
        (lastOf (Field.result (responseBytes entries ++ behind)) (fieldsOf pre.length entries))
        ((entries.lookup (ascii "result")).bind Value.i32?) :=
      rel_lastOf (fun f hf => if_neg (hother hf)) (fun pre post v hv => rel_i32 hv) hloc hkeys
    rw [responseCode]
    generalize lastOf _ _ = a at hrel ⊢
    generalize Option.bind _ _ = b at hrel ⊢
    cases hrel with
    | some hab => exact hab
    | none => rfl
  · exact rel_lastOf (fun f hf => if_neg (hother hf)) (fun pre post v hv => (rel_data hv).2) hloc hkeys
  · exact rel_lastOf (fun f hf => if_neg (hother hf)) (fun pre post v hv => rel_errorMessage hv) hloc
      hkeys

/-- **When the callback gets what the response says**: a text that is missing is read through a null
pointer, and a text is read up to its first NUL byte. -/
theorem tells_iff (h : WellFormed entries) {behind : List UInt8} :
    Tells (responseBytes entries ++ behind) entries
      (Response.ofFields (responseBytes entries ++ behind) (responseFields entries)).result ↔
      HasText entries := by
  have hsay := fieldsSay_responseFields h behind
  have hcode : (Response.ofFields (responseBytes entries ++ behind) (responseFields entries)).resultCode
      = responseCode entries := hsay.result
  rw [Response.result, hcode, HasText]
  by_cases hok : responseCode entries = .ok
  · rw [if_pos hok]
    refine iff_of_true ⟨hok.symm, fun _ => hsay.data, fun hfailure => ?_⟩ (Or.inl hok)
    exact Bool.noConfusion hfailure
  rw [if_neg hok, or_iff_right hok]
  have hmessage : (Response.ofFields (responseBytes entries ++ behind)
      (responseFields entries)).errorMessage
      = lastOf (Field.errorMessage (responseBytes entries ++ behind)) (responseFields entries) := rfl
  have hrel := hsay.errorMessage
  rw [hmessage]
  generalize lastOf _ _ = text at hrel ⊢
  have hfailure : (AsyncCommandResult.createFailure (responseCode entries) text).isSuccess = false := by
    simp [AsyncCommandResult.isSuccess, AsyncCommandResult.createFailure, hok]
  have htells : Tells (responseBytes entries ++ behind) entries
      (AsyncCommandResult.createFailure (responseCode entries) text) ↔
      (AsyncCommandResult.createFailure (responseCode entries) text).getErrorMessage
        (responseBytes entries ++ behind) = .ok ((responseMessage entries).getD []) := by
    refine ⟨fun htells => htells.message hfailure, fun hread => ⟨rfl, fun hsuccess => ?_, fun _ => hread⟩⟩
    rw [hfailure] at hsuccess
    exact Bool.noConfusion hsuccess
  rw [htells, AsyncCommandResult.getErrorMessage, hfailure, if_neg (by simp)]
  generalize responseMessage entries = message at hrel ⊢
  cases hrel with
  | none => simp [AsyncCommandResult.createFailure]
  | @some text s htext =>
      have hread : cString (responseBytes entries ++ behind) text.offset
          = .ok (((responseBytes entries ++ behind).drop text.offset.toNat).take text.length) ↔ _ :=
        cString_eq_take_iff htext.offset
      rw [htext.bytes] at hread
      simpa [AsyncCommandResult.createFailure, htext.nul] using hread

/-- What a response says does not depend on the order of its elements. -/
theorem says_perm (h : WellFormed entries) (hperm : entries'.Perm entries) :
    responseId entries' = responseId entries ∧ responseCode entries' = responseCode entries ∧
      responsePayload entries' = responsePayload entries ∧
      responseMessage entries' = responseMessage entries := by
  have hlookup := lookup_perm (List.nodup_cons.mp h.keys).2 hperm
  simp only [responseId, responseCode, responsePayload, responseMessage, hlookup, and_self]

theorem Tells.perm {mem : List UInt8} {result : AsyncCommandResult} (htells : Tells mem entries' result)
    (h : WellFormed entries') (hperm : entries'.Perm entries) : Tells mem entries result := by
  obtain ⟨-, hcode, hpayload, hmessage⟩ := says_perm h hperm.symm
  refine ⟨htells.code.trans hcode.symm, fun hsuccess => ?_, fun hfailure => ?_⟩
  · rw [hpayload]
    exact htells.payload hsuccess
  · rw [hmessage]
    exact htells.message hfailure

end

end ScApi
