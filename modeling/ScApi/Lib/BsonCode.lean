import ScApi.Lib.Bson

/-!
# Binary JSON documents are determined by their bytes

A value is preceded by its type, and it is either of a fixed size for its type or has its size in
front. So the values of a type are a prefix code, and so are the headers of elements, whose keys end
with the first NUL byte. The bytes of some elements can then be taken apart from the left.

## Main results

* `Leaf.bytes_append_inj`, `document_append_inj`: values and documents are prefix codes.
* `Elements.bytes_inj`: elements with the same bytes are the same.
-/

open Bytes

namespace Bson

section Codes

variable {k k' r r' : List UInt8}

/-- A key ends with the first NUL byte. -/
theorem key_append_inj (hk : 0 ∉ k) (hk' : 0 ∉ k') (h : k ++ 0 :: r = k' ++ 0 :: r') :
    k = k' ∧ r = r' := by
  induction k generalizing k' with
  | nil =>
      cases k' with
      | nil => exact ⟨rfl, (List.cons.inj h).2⟩
      | cons b k' => exact absurd (List.mem_cons.mpr (.inl (List.cons.inj h).1)) hk'
  | cons b k ih =>
      cases k' with
      | nil => exact absurd (List.mem_cons.mpr (.inl (List.cons.inj h).1.symm)) hk
      | cons b' k' =>
          obtain ⟨rfl, htail⟩ := List.cons.inj h
          obtain ⟨rfl, rfl⟩ := ih (fun hmem => hk (List.mem_cons_of_mem _ hmem))
            (fun hmem => hk' (List.mem_cons_of_mem _ hmem)) htail
          exact ⟨rfl, rfl⟩

theorem header_append_inj {typeByte typeByte' : UInt8} (hk : 0 ∉ k) (hk' : 0 ∉ k')
    (h : header typeByte k ++ r = header typeByte' k' ++ r') :
    typeByte = typeByte' ∧ k = k' ∧ r = r' := by
  simp only [header, List.cons_append, List.append_assoc, List.nil_append] at h
  obtain ⟨rfl, htail⟩ := List.cons.inj h
  exact ⟨rfl, key_append_inj hk hk' htail⟩

/-- A number of `w` bytes. -/
theorem toLe_append_inj {w n n' : ℕ} (hn : n < 256 ^ w) (hn' : n' < 256 ^ w)
    (h : toLe w n ++ r = toLe w n' ++ r') : n = n' ∧ r = r' := by
  obtain ⟨hbytes, htail⟩ := List.append_inj h ((length_toLe w n).trans (length_toLe w n').symm)
  refine ⟨?_, htail⟩
  rw [← ofLe_toLe_of_lt hn, hbytes, ofLe_toLe_of_lt hn']

/-- Some bytes with their number in front, and with `n` bytes more. -/
theorem sized_append_inj {s s' : List UInt8} {n : ℕ} (hs : s.length + n < 4294967296)
    (hs' : s'.length + n < 4294967296)
    (h : toLe 4 (s.length + n) ++ (s ++ r) = toLe 4 (s'.length + n) ++ (s' ++ r')) :
    s = s' ∧ r = r' := by
  have hpow : 256 ^ 4 = 4294967296 := by norm_num
  obtain ⟨hlength, htail⟩ := toLe_append_inj (hpow ▸ hs) (hpow ▸ hs') h
  exact List.append_inj htail (Nat.add_right_cancel hlength)

/-- **The values of a type are a prefix code.** -/
theorem Leaf.bytes_append_inj {v v' : Leaf} (htype : v.typeByte = v'.typeByte)
    (hv : v.bytes.length < 4294967296) (hv' : v'.bytes.length < 4294967296)
    (h : v.bytes ++ r = v'.bytes ++ r') : v = v' ∧ r = r' := by
  cases v <;> cases v' <;> simp [typeByte] at htype
  case bool.bool b b' =>
      obtain ⟨hbyte, rfl⟩ := List.cons.inj h
      refine ⟨?_, rfl⟩
      cases b <;> cases b' <;> first | rfl | exact absurd hbyte (by decide)
  case double.double bits bits' =>
      obtain ⟨hbits, rfl⟩ := toLe_append_inj bits.isLt bits'.isLt h
      exact ⟨congrArg Leaf.double (BitVec.eq_of_toNat_eq hbits), rfl⟩
  case i32.i32 n n' =>
      obtain ⟨hn, rfl⟩ := toLe_append_inj n.isLt n'.isLt h
      exact ⟨congrArg Leaf.i32 (BitVec.eq_of_toNat_eq hn), rfl⟩
  case i64.i64 n n' =>
      obtain ⟨hn, rfl⟩ := toLe_append_inj n.isLt n'.isLt h
      exact ⟨congrArg Leaf.i64 (BitVec.eq_of_toNat_eq hn), rfl⟩
  case null.null => exact ⟨rfl, h⟩
  case string.string s s' =>
      rw [length_bytes_string] at hv hv'
      simp only [bytes, List.append_assoc] at h
      obtain ⟨rfl, htail⟩ := sized_append_inj (by omega) (by omega) h
      exact ⟨rfl, (List.cons.inj htail).2⟩
  case binary.binary data subtype data' subtype' =>
      rw [length_bytes_binary] at hv hv'
      simp only [bytes, List.append_assoc, List.cons_append] at h
      obtain ⟨hlength, htail⟩ := toLe_append_inj (w := 4) (by norm_num; omega) (by norm_num; omega) h
      obtain ⟨rfl, hdata⟩ := List.cons.inj htail
      obtain ⟨rfl, rfl⟩ := List.append_inj hdata hlength
      exact ⟨rfl, rfl⟩

/-- **Documents are a prefix code.** -/
theorem document_append_inj {body body' : List UInt8} (hbody : (document body).length < 4294967296)
    (hbody' : (document body').length < 4294967296)
    (h : document body ++ r = document body' ++ r') : body = body' ∧ r = r' := by
  rw [length_document] at hbody hbody'
  simp only [document, List.append_assoc] at h
  obtain ⟨rfl, htail⟩ := sized_append_inj hbody hbody' h
  exact ⟨rfl, (List.cons.inj htail).2⟩

end Codes

theorem Leaf.typeByte_ne (v : Leaf) (kind : Kind) : v.typeByte ≠ kind.typeByte := by
  cases v <;> cases kind <;> simp [Leaf.typeByte, Kind.typeByte]

theorem Kind.typeByte_inj {kind kind' : Kind} (h : kind.typeByte = kind'.typeByte) :
    kind = kind' := by
  cases kind <;> cases kind' <;> simp [Kind.typeByte] at h ⊢

/-- **Elements with the same bytes are the same.** -/
theorem Elements.bytes_inj {s t : Elements} (hs : s.CleanKeys) (ht : t.CleanKeys)
    (hsize : s.bytes.length < 4294967296) (h : s.bytes = t.bytes) : s = t := by
  induction s generalizing t with
  | nil =>
      cases t with
      | nil => rfl
      | leaf key v rest => exact absurd h.symm (List.cons_ne_nil _ _)
      | sub kind key body rest => exact absurd h.symm (List.cons_ne_nil _ _)
  | leaf key v rest ih =>
      cases t with
      | nil => exact absurd h (List.cons_ne_nil _ _)
      | leaf key' v' rest' =>
          have hsize' := h ▸ hsize
          simp only [bytes, List.append_assoc] at h
          simp only [bytes, List.length_append] at hsize hsize'
          obtain ⟨htype, rfl, hvalue⟩ := header_append_inj hs.1 ht.1 h
          obtain ⟨rfl, hrest⟩ := Leaf.bytes_append_inj htype (by omega) (by omega) hvalue
          rw [ih hs.2 ht.2 (by omega) hrest]
      | sub kind key' body rest' =>
          simp only [bytes, List.append_assoc] at h
          obtain ⟨htype, -⟩ := header_append_inj hs.1 ht.1 h
          exact absurd htype (Leaf.typeByte_ne v kind)
  | sub kind key body rest ihbody ihrest =>
      cases t with
      | nil => exact absurd h (List.cons_ne_nil _ _)
      | leaf key' v rest' =>
          simp only [bytes, List.append_assoc] at h
          obtain ⟨htype, -⟩ := header_append_inj hs.1 ht.1 h
          exact absurd htype.symm (Leaf.typeByte_ne v kind)
      | sub kind' key' body' rest' =>
          have hsize' := h ▸ hsize
          simp only [bytes, List.append_assoc] at h
          simp only [bytes, List.length_append] at hsize hsize'
          obtain ⟨htype, rfl, hvalue⟩ := header_append_inj hs.1 ht.1 h
          obtain ⟨hbody, hrest⟩ := document_append_inj (by omega) (by omega) hvalue
          rw [length_document] at hsize
          rw [Kind.typeByte_inj htype, ihbody hs.2.1 ht.2.1 (by omega) hbody,
            ihrest hs.2.2 ht.2.2 (by omega) hrest]

end Bson
