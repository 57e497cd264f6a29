import ScApi.BsonElements
import ScApi.Lib.Bson

/-!
# Reading a document back

A reader goes through a document as its users do: `next`, then the accessor for the type that it
reports; into a container with `beginSub`, and out of it with `endSub`. What is collected is a tree of
elements again.

## Main results

* `elementAt_bytes`: the bytes of an element are an element for the reader.
* `AtElements.readElements_eq`: a document is read back, as deep as the reader's layers go.
* `readDocument_bytes`: the same from the constructor on.
-/

open Bytes BoundedRead Bson

namespace ScApi

open ElementType

namespace BsonReader

/-- The value of the current element, with the accessor for its type. -/
def leafValue (mem : List UInt8) (r : BsonReader) : Read (Option Leaf) :=
  match r.curType with
  | elementBool => do
      let v ← r.boolValue mem
      pure (some (.bool v))
  | elementDouble => do
      let bits ← r.doubleValue mem
      pure (some (.double (BitVec.ofNat 64 bits)))
  | elementI32 => do
      let v ← r.int32Value mem
      pure (some (.i32 (BitVec.ofInt 32 v)))
  | elementI64 => do
      let v ← r.int64Value mem
      pure (some (.i64 (BitVec.ofInt 64 v)))
  | elementNull => pure (some .null)
  | elementStr => do
      let span ← r.stringValue mem
      let s ← bytesAt mem span.offset span.length
      pure (some (.string s))
  | elementBinary => do
      let subtype ← r.binaryType mem
      let span ← r.binaryValue mem
      let data ← bytesAt mem span.offset span.length
      pure (some (.binary data subtype))
  | _ => pure none

/-- The kind of the current element, if it is a container. -/
def kind? : ElementType → Option Kind
  | elementDoc => some .doc
  | elementArray => some .array
  | _ => none

/-- The rest of the document that the reader is in; `none` when a sub document cannot be entered or
an element cannot be read. -/
def readElements (mem : List UInt8) : ℕ → BsonReader → Read (Option Elements × BsonReader)
  | 0, _ => throw .outOfFuel
  | n + 1, r => do
      let (t, r) ← r.next mem
      if t = elementEnd then
        pure (some .nil, r)
      else
        match kind? t with
        | some kind => do
            let (begun, sub) ← r.beginSub mem
            if begun then do
              let (body, sub) ← readElements mem n sub
              match body with
              | none => pure (none, sub)
              | some body => do
                  let (rest, r') ← readElements mem n sub.endSub.2
                  pure (rest.map (.sub kind r.key body), r')
            else
              pure (none, sub)
        | none => do
            match ← r.leafValue mem with
            | none => pure (none, r)
            | some v => do
                let (rest, r') ← readElements mem n r
                pure (rest.map (.leaf r.key v), r')

/-! ### The bytes of an element -/

theorem toSizeT_natCast {n : ℕ} (h : n < 2147483648) : toSizeT n = n :=
  Int.ofNat_inj.mp (toSizeT_of_nonneg (by omega) (by omega))

section Located

variable {mem pre post key : List UInt8} {docEnd : ℤ}

/-- **The bytes of an element** are an element for the reader. -/
theorem elementAt_bytes {typeByte : UInt8} {value : List UInt8} {need : ℤ}
    (hmem : mem = pre ++ (header typeByte key ++ value) ++ post) (hkey : 0 ∉ key)
    (hneed : valueSize mem (pre.length + key.length + 2 : ℕ) (ElementType.ofByte typeByte)
      = .ok need)
    (h0 : 0 ≤ need) (hfits : (pre.length + key.length + 2 : ℕ) + need ≤ docEnd) :
    ElementAt mem docEnd pre.length (ElementType.ofByte typeByte) key
      (pre.length + key.length + 2 : ℕ) need := by
  have hbytes : mem = pre ++ [typeByte] ++ key ++ 0 :: (value ++ post) := by
    rw [hmem, header]
    simp only [List.append_assoc, List.cons_append, List.nil_append]
  have hlen : (pre ++ [typeByte]).length = pre.length + 1 := by
    rw [List.length_append, List.length_singleton]
  have hnul : FirstNul mem (pre.length + 1 : ℕ) docEnd (pre.length + 1 + key.length : ℕ) := by
    have hfirst := firstNul_append (pre ++ [typeByte]) hkey (value ++ post) (e := docEnd)
      (by rw [hlen]; omega)
    rwa [hlen, ← hbytes] at hfirst
  refine ⟨⟨typeByte, ?_, rfl⟩, ?_, ?_, hneed, h0, hfits⟩
  · rw [hbytes, List.append_assoc, List.append_assoc]
    exact byteAt_append pre typeByte _
  · have hend : ((pre.length : ℤ) + 1) + ((docEnd - (pre.length + 1)).toNat : ℤ) = docEnd := by
      omega
    have hvalue : ((pre.length + key.length + 2 : ℕ) : ℤ) - 1
        = (pre.length + 1 + key.length : ℕ) := by
      omega
    refine findNul_eq_some_iff.mpr ?_
    rw [hend, hvalue]
    exact_mod_cast hnul
  · have hlo : ((pre.length : ℤ) + 1).toNat = (pre ++ [typeByte]).length := by
      omega
    have hhi : (((pre.length + key.length + 2 : ℕ) : ℤ) - 1 - (pre.length + 1)).toNat
        = key.length := by
      omega
    rw [slice, hlo, hhi, hbytes, List.append_assoc (pre ++ [typeByte]), List.drop_left,
      List.take_left]

/-- The number of bytes of a leaf, for the reader. -/
theorem leaf_sizes {v : Leaf} (hmem : mem = pre ++ v.bytes ++ post)
    (hlen : v.bytes.length < 2147483648) :
    (∃ need, valueSize mem pre.length (ElementType.ofByte v.typeByte) = .ok need ∧ 0 ≤ need ∧
      need ≤ v.bytes.length + 1) ∧
    storedSize mem pre.length (ElementType.ofByte v.typeByte) = .ok v.bytes.length := by
  cases v with
  | bool b => exact ⟨⟨1, rfl, by decide, show (1 : ℤ) ≤ 1 + 1 by decide⟩, rfl⟩
  | double bits =>
      rw [Leaf.length_bytes_double]
      exact ⟨⟨9, rfl, by decide, by decide⟩, rfl⟩
  | i32 v =>
      rw [Leaf.length_bytes_i32]
      exact ⟨⟨4, rfl, by decide, by decide⟩, rfl⟩
  | i64 v =>
      rw [Leaf.length_bytes_i64]
      exact ⟨⟨9, rfl, by decide, by decide⟩, rfl⟩
  | null => exact ⟨⟨0, rfl, by decide, by decide⟩, rfl⟩
  | string s =>
      rw [Leaf.length_bytes_string] at hlen ⊢
      have hsize : i32At mem pre.length = .ok ((s.length + 1 : ℕ) : ℤ) := by
        rw [hmem, Leaf.bytes, List.append_assoc (toLe 4 _), ← List.append_assoc pre,
          List.append_assoc (pre ++ toLe 4 _)]
        exact i32At_append pre (by omega) _
      have hwrap : wrap32 (((s.length + 1 : ℕ) : ℤ) + 4) = (s.length + 5 : ℕ) := by
        rw [wrap32_of_range (by omega) (by omega)]
        omega
      have hstored : (do
          let byteCount ← i32At mem pre.length
          pure (wrap32 (byteCount + 4)) : Read ℤ) = .ok (s.length + 5 : ℕ) := by
        rw [hsize, ok_bind, hwrap, pure_eq_ok]
      exact ⟨⟨_, hstored, by omega, by omega⟩, hstored⟩
  | binary data subtype =>
      rw [Leaf.length_bytes_binary] at hlen ⊢
      have hsize : i32At mem pre.length = .ok ((data.length : ℕ) : ℤ) := by
        rw [hmem, Leaf.bytes, ← List.append_assoc pre, List.append_assoc (pre ++ toLe 4 _)]
        exact i32At_append pre (by omega) _
      have hwrap : wrap32 ((data.length : ℤ) + 5) = (data.length + 5 : ℕ) := by
        rw [wrap32_of_range (by omega) (by omega)]
        omega
      have hstored : (do
          let byteCount ← i32At mem pre.length
          pure (wrap32 (byteCount + 5)) : Read ℤ) = .ok (data.length + 5 : ℕ) := by
        rw [hsize, ok_bind, hwrap, pure_eq_ok]
      exact ⟨⟨_, hstored, by omega, by omega⟩, hstored⟩

/-- The bytes of a 32-bit number give its bits back. -/
theorem ofInt_toI32 (v : BitVec 32) : BitVec.ofInt 32 (toI32 (toLe 4 v.toNat)) = v := by
  have hlt := v.isLt
  have hpow : v.toNat < 256 ^ 4 := hlt.trans_le (by norm_num)
  rw [toI32, ofLe_toLe_of_lt hpow]
  apply BitVec.eq_of_toNat_eq
  rw [BitVec.toNat_ofInt, wrap32]
  omega

/-- The bytes of a 64-bit number give its bits back. -/
theorem ofInt_toI64 (v : BitVec 64) : BitVec.ofInt 64 (toI64 (toLe 8 v.toNat)) = v := by
  have hlt := v.isLt
  have hpow : v.toNat < 256 ^ 8 := hlt.trans_le (by norm_num)
  rw [toI64, ofLe_toLe_of_lt hpow]
  apply BitVec.eq_of_toNat_eq
  rw [BitVec.toNat_ofInt]
  omega

/-- **A leaf is read back** with the accessor for its type. -/
theorem leafValue_bytes {v : Leaf} {r : BsonReader} (hmem : mem = pre ++ v.bytes ++ post)
    (hlen : v.bytes.length < 2147483648) (htype : r.curType = ElementType.ofByte v.typeByte)
    (hoff : r.bufOffset = pre.length) : r.leafValue mem = .ok (some v) := by
  have hvalue := bytesAt_append pre v.bytes post
  rw [← hmem, ← hoff] at hvalue
  cases v with
  | bool b =>
      have hb : byteAt mem r.bufOffset = .ok (if b then 1 else 0) := by
        rw [hoff, hmem, List.append_assoc]
        exact byteAt_append pre _ post
      have ht : r.curType = elementBool := htype
      rw [leafValue, ht]
      dsimp only
      rw [boolValue, hb]
      cases b <;> rfl
  | double bits =>
      have ht : r.curType = elementDouble := htype
      rw [Leaf.length_bytes_double] at hvalue
      have hpow : bits.toNat < 256 ^ 8 := bits.isLt.trans_le (by norm_num)
      rw [leafValue, ht]
      dsimp only
      rw [doubleValue, hvalue, ok_bind, pure_eq_ok, ok_bind, Leaf.bytes, ofLe_toLe_of_lt hpow,
        BitVec.ofNat_toNat, BitVec.setWidth_eq]
      rfl
  | i32 v =>
      have ht : r.curType = elementI32 := htype
      rw [Leaf.length_bytes_i32] at hvalue
      rw [leafValue, ht]
      dsimp only
      rw [int32Value, i32At, hvalue, ok_bind, pure_eq_ok, ok_bind, Leaf.bytes, ofInt_toI32]
      rfl
  | i64 v =>
      have ht : r.curType = elementI64 := htype
      rw [Leaf.length_bytes_i64] at hvalue
      rw [leafValue, ht]
      dsimp only
      rw [int64Value, hvalue, ok_bind, pure_eq_ok, ok_bind, Leaf.bytes, ofInt_toI64]
      rfl
  | null =>
      have ht : r.curType = elementNull := htype
      rw [leafValue, ht]
      rfl
  | string s =>
      have ht : r.curType = elementStr := htype
      rw [Leaf.length_bytes_string] at hlen
      have hsplit : mem = pre ++ toLe 4 (s.length + 1) ++ s ++ (0 :: post) := by
        rw [hmem, Leaf.bytes]
        simp only [List.append_assoc, List.cons_append, List.nil_append]
      have hsize : i32At mem r.bufOffset = .ok ((s.length + 1 : ℕ) : ℤ) := by
        rw [hoff, hsplit, List.append_assoc (pre ++ toLe 4 _)]
        exact i32At_append pre (by omega) _
      have hoff' : r.bufOffset + 4 = (pre ++ toLe 4 (s.length + 1)).length := by
        rw [hoff, List.length_append, length_toLe, Nat.cast_add]
        rfl
      have hread : bytesAt mem (r.bufOffset + 4) s.length = .ok s := by
        rw [hoff', hsplit]
        exact bytesAt_append _ s _
      have hlength : toSizeT (wrap32 (((s.length + 1 : ℕ) : ℤ) - 1)) = s.length := by
        have hpred : ((s.length + 1 : ℕ) : ℤ) - 1 = s.length := by omega
        rw [hpred, wrap32_of_range (by omega) (by omega), toSizeT_natCast (by omega)]
      rw [leafValue, ht]
      dsimp only
      rw [stringValue, hsize, ok_bind, pure_eq_ok, ok_bind, hlength, hread, ok_bind]
      rfl
  | binary data subtype =>
      have ht : r.curType = elementBinary := htype
      rw [Leaf.length_bytes_binary] at hlen
      have hsplit : mem = pre ++ toLe 4 data.length ++ subtype :: (data ++ post) := by
        rw [hmem, Leaf.bytes]
        simp only [List.append_assoc, List.cons_append]
      have hsize : i32At mem r.bufOffset = .ok ((data.length : ℕ) : ℤ) := by
        rw [hoff, hsplit]
        exact i32At_append pre (by omega) _
      have hoff4 : r.bufOffset + 4 = (pre ++ toLe 4 data.length).length := by
        rw [hoff, List.length_append, length_toLe, Nat.cast_add]
        rfl
      have hsubtype : byteAt mem (r.bufOffset + 4) = .ok subtype := by
        rw [hoff4, hsplit]
        exact byteAt_append _ subtype _
      have hsplit' : mem = pre ++ toLe 4 data.length ++ [subtype] ++ data ++ post := by
        rw [hsplit]
        simp only [List.append_assoc, List.cons_append, List.nil_append]
      have hoff5 : r.bufOffset + 5 = (pre ++ toLe 4 data.length ++ [subtype]).length := by
        rw [List.length_append, Nat.cast_add, ← hoff4, List.length_singleton]
        omega
      have hread : bytesAt mem (r.bufOffset + 5) data.length = .ok data := by
        rw [hoff5, hsplit']
        exact bytesAt_append _ data _
      have hlength : toSizeT (data.length : ℤ) = data.length := toSizeT_natCast (by omega)
      rw [leafValue, ht]
      dsimp only
      rw [binaryType, hsubtype, ok_bind, binaryValue, hsize, ok_bind, pure_eq_ok, ok_bind, hlength,
        hread, ok_bind]
      rfl

/-! ### One element -/

/-- The reader is before the rest of the document it is in: some elements, and the byte that ends the
document. -/
structure AtElements (mem pre post : List UInt8) (els : Elements) (r : BsonReader) : Prop where
  mem_eq : mem = pre ++ els.bytes ++ 0 :: post
  before : Before mem r pre.length
  docEnd : r.curDocEnd = (pre.length + els.bytes.length + 1 : ℕ)

variable {els rest body : Elements} {r : BsonReader} {n : ℕ}

/-- The end of a document. -/
theorem AtElements.readElements_nil (h : AtElements mem pre post .nil r) :
    readElements mem (n + 1) r = .ok (some .nil, r.atDocEnd pre.length) := by
  have hbyte : byteAt mem pre.length = .ok 0 := by
    rw [h.mem_eq, Elements.bytes, List.append_nil]
    exact byteAt_append pre 0 post
  rw [readElements, h.before.next_end hbyte]
  rfl

theorem kind?_leaf (v : Leaf) : kind? (ElementType.ofByte v.typeByte) = none := by
  cases v <;> rfl

theorem ofByte_leaf_ne_end (v : Leaf) : ElementType.ofByte v.typeByte ≠ elementEnd := by
  cases v <;> simp [Leaf.typeByte, ElementType.ofByte_eq_end]

/-- **A leaf is read**, and the reader is behind it. -/
theorem AtElements.next_leaf {v : Leaf} (h : AtElements mem pre post (.leaf key v rest) r)
    (hkey : 0 ∉ key) :
    ∃ r₁, r.next mem = .ok (ElementType.ofByte v.typeByte, r₁) ∧ r₁.leafValue mem = .ok (some v) ∧
      r₁.key = key ∧ r₁.arrIndex = nextArrIndex r.arrIndex ∧ r₁.docLayers = r.docLayers ∧
      r₁.curDocEnd = r.curDocEnd ∧
      AtElements mem (pre ++ (header v.typeByte key ++ v.bytes)) post rest r₁ := by
  have hdocEnd := h.docEnd
  have hlt := h.before.inside.docEnd_lt
  have hbytes : (Elements.leaf key v rest).bytes.length
      = key.length + 2 + v.bytes.length + rest.bytes.length := by
    rw [Elements.bytes, List.length_append, List.length_append, length_header]
  have hmem : mem = pre ++ (header v.typeByte key ++ v.bytes) ++ (rest.bytes ++ 0 :: post) := by
    rw [h.mem_eq, Elements.bytes]
    simp only [List.append_assoc]
  have hmem' : mem = pre ++ header v.typeByte key ++ v.bytes ++ (rest.bytes ++ 0 :: post) := by
    rw [hmem]
    simp only [List.append_assoc]
  have hpre : (pre ++ header v.typeByte key).length = pre.length + key.length + 2 := by
    rw [List.length_append, length_header, Nat.add_assoc]
  obtain ⟨⟨need, hneed, h0, hle⟩, hstored⟩ := leaf_sizes hmem' (by omega)
  rw [hpre] at hneed hstored
  have helem : ElementAt mem r.curDocEnd pre.length (ElementType.ofByte v.typeByte) key
      (pre.length + key.length + 2 : ℕ) need :=
    elementAt_bytes hmem hkey hneed h0 (by omega)
  have hvalue : (r.atElement pre.length (ElementType.ofByte v.typeByte) key
      (pre.length + key.length + 2 : ℕ)).leafValue mem = .ok (some v) :=
    leafValue_bytes hmem' (by omega) rfl (by rw [hpre]; rfl)
  have hnext := h.before.atElement helem hstored
  have hlen : ((pre.length + key.length + 2 : ℕ) : ℤ) + v.bytes.length
      = (pre ++ (header v.typeByte key ++ v.bytes)).length := by
    rw [List.length_append, List.length_append, length_header]
    omega
  rw [hlen] at hnext
  refine ⟨r.atElement pre.length (ElementType.ofByte v.typeByte) key
    (pre.length + key.length + 2 : ℕ), h.before.next_element helem, hvalue, rfl, rfl, rfl, rfl,
    ?_, hnext, ?_⟩
  · rw [hmem, List.append_assoc _ rest.bytes]
  · show r.curDocEnd = _
    omega

/-- A leaf in front of what `readElements` reads. -/
theorem AtElements.leaf {v : Leaf} (h : AtElements mem pre post (.leaf key v rest) r)
    (hkey : 0 ∉ key) :
    ∃ r₁, r₁.docLayers = r.docLayers ∧ r₁.curDocEnd = r.curDocEnd ∧
      AtElements mem (pre ++ (header v.typeByte key ++ v.bytes)) post rest r₁ ∧
      ∀ n, readElements mem (n + 1) r = (do
        let (els, r') ← readElements mem n r₁
        pure (els.map (.leaf key v), r')) := by
  obtain ⟨r₁, hnext, hvalue, hkey₁, -, hlayers, hend, hrest⟩ := h.next_leaf hkey
  refine ⟨r₁, hlayers, hend, hrest, fun n => ?_⟩
  rw [readElements, hnext]
  simp only [ok_bind, if_neg (ofByte_leaf_ne_end v), kind?_leaf, hvalue, hkey₁]

theorem kind?_sub (kind : Kind) : kind? (ElementType.ofByte kind.typeByte) = some kind := by
  cases kind <;> rfl

theorem ofByte_sub_ne_end (kind : Kind) : ElementType.ofByte kind.typeByte ≠ elementEnd := by
  cases kind <;> decide

theorem isContainer_sub (kind : Kind) :
    (ElementType.ofByte kind.typeByte).isContainer = true := by
  cases kind <;> rfl

/-- The element of a container, and the reader at it. -/
theorem AtElements.elementAt_sub {kind : Kind} (h : AtElements mem pre post (.sub kind key body rest) r)
    (hkey : 0 ∉ key) :
    ElementAt mem r.curDocEnd pre.length (ElementType.ofByte kind.typeByte) key
      (pre.length + key.length + 2 : ℕ) (body.bytes.length + 5 : ℕ) := by
  have hdocEnd := h.docEnd
  have hlt := h.before.inside.docEnd_lt
  have hbytes : (Elements.sub kind key body rest).bytes.length
      = key.length + 2 + (body.bytes.length + 5) + rest.bytes.length := by
    rw [Elements.bytes, List.length_append, List.length_append, length_header, length_document]
  have hmem : mem = pre ++ (header kind.typeByte key ++ document body.bytes)
      ++ (rest.bytes ++ 0 :: post) := by
    rw [h.mem_eq, Elements.bytes]
    simp only [List.append_assoc]
  have hpre : (pre ++ header kind.typeByte key).length = pre.length + key.length + 2 := by
    rw [List.length_append, length_header, Nat.add_assoc]
  have hsize : i32At mem (pre.length + key.length + 2 : ℕ) = .ok (body.bytes.length + 5 : ℕ) := by
    have hsplit : mem = pre ++ header kind.typeByte key ++ toLe 4 (body.bytes.length + 5)
        ++ (body.bytes ++ [0] ++ (rest.bytes ++ 0 :: post)) := by
      rw [hmem, document]
      simp only [List.append_assoc]
    rw [hsplit, ← hpre]
    exact i32At_append _ (by omega) _
  have hneed : valueSize mem (pre.length + key.length + 2 : ℕ) (ElementType.ofByte kind.typeByte)
      = .ok (body.bytes.length + 5 : ℕ) := by
    cases kind <;> exact hsize
  exact elementAt_bytes hmem hkey hneed (by omega) (by omega)

/-- **A container is entered**, when there is a layer for it. Behind it the reader goes on with the
rest, at the index where it was. -/
theorem AtElements.next_sub {kind : Kind} (h : AtElements mem pre post (.sub kind key body rest) r)
    (hkey : 0 ∉ key) (hlayers : r.docLayers.length ≠ kMaxSubdocs) :
    ∃ r₁ r₂, r.next mem = .ok (ElementType.ofByte kind.typeByte, r₁) ∧ r₁.key = key ∧
      r₁.arrIndex = nextArrIndex r.arrIndex ∧ r₁.beginSub mem = .ok (true, r₂) ∧
      r₂.docLayers.length = r.docLayers.length + 1 ∧
      r₂.arrIndex = (if kind = .array then -1 else -2) ∧
      AtElements mem (pre ++ header kind.typeByte key ++ toLe 4 (body.bytes.length + 5))
        (rest.bytes ++ 0 :: post) body r₂ ∧
      ∀ r₃, Inside mem r₃ → r₃.docLayers = r₂.docLayers → r₃.curDocEnd = r₂.curDocEnd →
        r₃.endSub.1 = true ∧ r₃.endSub.2.docLayers = r.docLayers ∧
        r₃.endSub.2.curDocEnd = r.curDocEnd ∧ r₃.endSub.2.arrIndex = nextArrIndex r.arrIndex ∧
        AtElements mem (pre ++ (header kind.typeByte key ++ document body.bytes)) post rest
          r₃.endSub.2 := by
  have helem := h.elementAt_sub hkey
  have hdocEnd := h.docEnd
  have hlt := h.before.inside.docEnd_lt
  obtain ⟨r₁, hr₁⟩ : ∃ r₁, r₁ = r.atElement pre.length (ElementType.ofByte kind.typeByte) key
      (pre.length + key.length + 2 : ℕ) := ⟨_, rfl⟩
  obtain ⟨hbegin, hin⟩ := h.before.beginSub helem (isContainer_sub kind) hlayers
  rw [← hr₁] at hbegin hin
  obtain ⟨r₂, hr₂⟩ : ∃ r₂, r₂ = r₁.inSub (body.bytes.length + 5 : ℕ) := ⟨_, rfl⟩
  rw [← hr₂] at hbegin hin
  have hbytes : (Elements.sub kind key body rest).bytes.length
      = key.length + 2 + (body.bytes.length + 5) + rest.bytes.length := by
    rw [Elements.bytes, List.length_append, List.length_append, length_header, length_document]
  have hpre : (pre ++ header kind.typeByte key ++ toLe 4 (body.bytes.length + 5)).length
      = pre.length + key.length + 2 + 4 := by
    rw [List.length_append, List.length_append, length_header, length_toLe]
    omega
  have hpre' : (pre ++ (header kind.typeByte key ++ document body.bytes)).length
      = pre.length + key.length + 2 + (body.bytes.length + 5) := by
    rw [List.length_append, List.length_append, length_header, length_document]
    omega
  have hstart : wrap32 (((pre.length + key.length + 2 : ℕ) : ℤ) + 4)
      = (pre ++ header kind.typeByte key ++ toLe 4 (body.bytes.length + 5)).length := by
    rw [hpre, wrap32_of_range (by omega) (by omega)]
    omega
  have hend₂ : r₂.curDocEnd = (pre.length + key.length + 2 + (body.bytes.length + 5) : ℕ) := by
    rw [hr₂, hr₁, Nat.cast_add _ (body.bytes.length + 5)]
    rfl
  obtain ⟨d, hd, hindex, hlayers₂⟩ : ∃ d : DocState, d.endOffset = r.curDocEnd ∧
      d.arrIndex = nextArrIndex r.arrIndex ∧ r₂.docLayers = d :: r.docLayers := by
    rw [hr₂, hr₁]
    exact ⟨_, rfl, rfl, rfl⟩
  rw [hstart] at hin
  refine ⟨r₁, r₂, ?_, ?_, ?_, hbegin, by rw [hlayers₂, List.length_cons], ?_, ⟨?_, hin, ?_⟩, ?_⟩
  · rw [hr₁]
    exact h.before.next_element helem
  · rw [hr₁]
    rfl
  · rw [hr₁]
    rfl
  · rw [hr₂, hr₁]
    cases kind <;> rfl
  · rw [h.mem_eq, Elements.bytes, document]
    simp only [List.append_assoc, List.cons_append, List.nil_append]
  · rw [hend₂, hpre]
    omega
  · intro r₃ hin₃ hl₃ he₃
    have hl := hl₃.trans hlayers₂
    obtain ⟨hended, hrest, hend, hbefore⟩ := Before.endSub hin₃ hl
    have hindex₃ : r₃.endSub.2.arrIndex = d.arrIndex := by rw [BsonReader.endSub, hl]
    rw [he₃, hend₂, ← hpre'] at hbefore
    refine ⟨hended, hrest, hend.trans hd, hindex₃.trans hindex, ⟨?_, hbefore, ?_⟩⟩
    · rw [h.mem_eq, Elements.bytes]
      simp only [List.append_assoc]
    · rw [hend, hd, hdocEnd, hpre', hbytes]
      omega

/-- A container in front of what `readElements` reads. -/
theorem AtElements.sub {kind : Kind} (h : AtElements mem pre post (.sub kind key body rest) r)
    (hkey : 0 ∉ key) (hlayers : r.docLayers.length ≠ kMaxSubdocs) :
    ∃ r₁, r₁.docLayers.length = r.docLayers.length + 1 ∧
      AtElements mem (pre ++ header kind.typeByte key ++ toLe 4 (body.bytes.length + 5))
        (rest.bytes ++ 0 :: post) body r₁ ∧
      (∀ r₂, Inside mem r₂ → r₂.docLayers = r₁.docLayers → r₂.curDocEnd = r₁.curDocEnd →
        r₂.endSub.2.docLayers = r.docLayers ∧ r₂.endSub.2.curDocEnd = r.curDocEnd ∧
        AtElements mem (pre ++ (header kind.typeByte key ++ document body.bytes)) post rest
          r₂.endSub.2) ∧
      ∀ n, readElements mem (n + 1) r = (do
        let (els, r₂) ← readElements mem n r₁
        match els with
        | none => pure (none, r₂)
        | some els => do
            let (rest, r') ← readElements mem n r₂.endSub.2
            pure (rest.map (.sub kind key els), r')) := by
  obtain ⟨r₁, r₂, hnext, hkey₁, -, hbegin, hlayers₂, -, hbody, hback⟩ := h.next_sub hkey hlayers
  refine ⟨r₂, hlayers₂, hbody, fun r₃ hin hl he => ?_, fun n => ?_⟩
  · obtain ⟨-, hl₃, he₃, -, hrest⟩ := hback r₃ hin hl he
    exact ⟨hl₃, he₃, hrest⟩
  · rw [readElements, hnext]
    simp only [ok_bind, if_neg (ofByte_sub_ne_end kind), kind?_sub, hbegin, if_pos, hkey₁]

/-- A container that there is no layer for. -/
theorem AtElements.sub_full {kind : Kind} (h : AtElements mem pre post (.sub kind key body rest) r)
    (hkey : 0 ∉ key) (hlayers : r.docLayers.length = kMaxSubdocs) (n : ℕ) :
    ∃ r', readElements mem (n + 1) r = .ok (none, r') := by
  have helem := h.elementAt_sub hkey
  refine ⟨r.atElement pre.length (ElementType.ofByte kind.typeByte) key
    (pre.length + key.length + 2 : ℕ), ?_⟩
  have hcont : (r.atElement pre.length (ElementType.ofByte kind.typeByte) key
      (pre.length + key.length + 2 : ℕ)).curType.isContainer = true := isContainer_sub kind
  have hfull : (r.atElement pre.length (ElementType.ofByte kind.typeByte) key
      (pre.length + key.length + 2 : ℕ)).docLayers.length = kMaxSubdocs := hlayers
  rw [readElements, h.before.next_element helem]
  simp only [ok_bind, if_neg (ofByte_sub_ne_end kind), kind?_sub]
  rw [BsonReader.beginSub, if_neg (not_not_intro hcont), if_pos hfull]
  rfl

/-! ### Documents -/

/-- **A document is read back**, when it is not nested deeper than the reader's layers go. -/
theorem AtElements.readElements_eq (h : AtElements mem pre post els r) (hclean : els.CleanKeys)
    (hdepth : r.docLayers.length + els.depth ≤ kMaxSubdocs) (hn : els.bytes.length < n) :
    ∃ r', readElements mem n r = .ok (some els, r') ∧ Inside mem r' ∧
      r'.docLayers = r.docLayers ∧ r'.curDocEnd = r.curDocEnd := by
  induction els generalizing pre post r n with
  | nil =>
      obtain ⟨n, rfl⟩ := Nat.exists_eq_add_one_of_ne_zero (Nat.ne_of_gt (Nat.zero_lt_of_lt hn))
      have hbyte : byteAt mem pre.length = .ok 0 := by
        rw [h.mem_eq, Elements.bytes, List.append_nil]
        exact byteAt_append pre 0 post
      exact ⟨_, h.readElements_nil, h.before.inside.readAt (.docEnd hbyte), rfl, rfl⟩
  | leaf key v rest ih =>
      obtain ⟨n, rfl⟩ := Nat.exists_eq_add_one_of_ne_zero (Nat.ne_of_gt (Nat.zero_lt_of_lt hn))
      obtain ⟨hkey, hclean⟩ := hclean
      obtain ⟨r₁, hlayers, hend, h₁, hread⟩ := h.leaf hkey
      rw [Elements.bytes, List.length_append, List.length_append, length_header] at hn
      obtain ⟨r', hr', hin, hlayers', hend'⟩ :=
        ih h₁ hclean (by rw [hlayers]; exact hdepth) (n := n) (by omega)
      refine ⟨r', ?_, hin, hlayers'.trans hlayers, hend'.trans hend⟩
      rw [hread, hr']
      rfl
  | sub kind key body rest ihbody ihrest =>
      obtain ⟨n, rfl⟩ := Nat.exists_eq_add_one_of_ne_zero (Nat.ne_of_gt (Nat.zero_lt_of_lt hn))
      obtain ⟨hkey, hbody, hrest⟩ := hclean
      rw [Elements.depth] at hdepth
      rw [Elements.bytes, List.length_append, List.length_append, length_header, length_document] at hn
      obtain ⟨r₁, hlayers, h₁, hback, hread⟩ := h.sub hkey (by omega)
      obtain ⟨r₂, hr₂, hin₂, hlayers₂, hend₂⟩ := ihbody h₁ hbody (by omega) (n := n) (by omega)
      obtain ⟨hlayers₃, hend₃, h₃⟩ := hback r₂ hin₂ hlayers₂ hend₂
      obtain ⟨r', hr', hin', hlayers', hend'⟩ :=
        ihrest h₃ hrest (by rw [hlayers₃]; omega) (n := n) (by omega)
      refine ⟨r', ?_, hin', hlayers'.trans hlayers₃, hend'.trans hend₃⟩
      rw [hread, hr₂, ok_bind]
      dsimp only
      rw [hr']
      rfl

/-- **A document that is nested too deep** is not read back. -/
theorem AtElements.readElements_none (h : AtElements mem pre post els r) (hclean : els.CleanKeys)
    (hlayers : r.docLayers.length ≤ kMaxSubdocs)
    (hdepth : kMaxSubdocs < r.docLayers.length + els.depth) (hn : els.bytes.length < n) :
    ∃ r', readElements mem n r = .ok (none, r') := by
  induction els generalizing pre post r n with
  | nil =>
      rw [Elements.depth] at hdepth
      omega
  | leaf key v rest ih =>
      obtain ⟨n, rfl⟩ := Nat.exists_eq_add_one_of_ne_zero (Nat.ne_of_gt (Nat.zero_lt_of_lt hn))
      obtain ⟨hkey, hclean⟩ := hclean
      obtain ⟨r₁, hlayers₁, -, h₁, hread⟩ := h.leaf hkey
      rw [Elements.bytes, List.length_append, List.length_append, length_header] at hn
      obtain ⟨r', hr'⟩ := ih h₁ hclean (by rw [hlayers₁]; exact hlayers)
        (by rw [hlayers₁]; exact hdepth) (n := n) (by omega)
      refine ⟨r', ?_⟩
      rw [hread, hr']
      rfl
  | sub kind key body rest ihbody ihrest =>
      obtain ⟨n, rfl⟩ := Nat.exists_eq_add_one_of_ne_zero (Nat.ne_of_gt (Nat.zero_lt_of_lt hn))
      obtain ⟨hkey, hbody, hrest⟩ := hclean
      by_cases hfull : r.docLayers.length = kMaxSubdocs
      · exact h.sub_full hkey hfull n
      rw [Elements.depth] at hdepth
      rw [Elements.bytes, List.length_append, List.length_append, length_header, length_document] at hn
      obtain ⟨r₁, hlayers₁, h₁, hback, hread⟩ := h.sub hkey hfull
      by_cases hdeep : kMaxSubdocs < r₁.docLayers.length + body.depth
      · obtain ⟨r₂, hr₂⟩ := ihbody h₁ hbody (by omega) hdeep (n := n) (by omega)
        refine ⟨r₂, ?_⟩
        rw [hread, hr₂]
        rfl
      · obtain ⟨r₂, hr₂, hin₂, hlayers₂, hend₂⟩ :=
          h₁.readElements_eq hbody (by omega) (n := n) (by omega)
        obtain ⟨hlayers₃, hend₃, h₃⟩ := hback r₂ hin₂ hlayers₂ hend₂
        obtain ⟨r', hr'⟩ := ihrest h₃ hrest (by rw [hlayers₃]; exact hlayers)
          (by rw [hlayers₃]; omega) (n := n) (by omega)
        refine ⟨r', ?_⟩
        rw [hread, hr₂, ok_bind]
        dsimp only
        rw [hr']
        rfl

end Located

/-- The size in a document at the front of a memory. -/
theorem getTotalDocumentSize_document {body : List UInt8} (h : (document body).length < 2147483648)
    (tail : List UInt8) :
    getTotalDocumentSize (document body ++ tail) = .ok ((document body).length : ℤ) := by
  have hread := i32At_append [] h (body ++ [0] ++ tail)
  have hsplit : document body ++ tail
      = [] ++ toLe 4 (document body).length ++ (body ++ [0] ++ tail) := by
    rw [length_document, document]
    simp only [List.append_assoc, List.nil_append]
  rw [getTotalDocumentSize, hsplit]
  exact hread

theorem ofBufferSize_document {body : List UInt8} (h : (document body).length < 2147483648)
    (tail : List UInt8) {size : ℕ} (hsize : (document body).length ≤ size) :
    ofBufferSize (some (document body ++ tail)) size = .ok (accepted size (document body).length) := by
  have hfive : ¬ size < 5 := by
    rw [length_document] at hsize
    omega
  have hfits : ¬ (((document body).length : ℤ) < 0 ∨ size < toSizeT (document body).length) := by
    rw [toSizeT_natCast h]
    omega
  have hread : i32At (document body ++ tail) 0 = .ok ((document body).length : ℤ) :=
    getTotalDocumentSize_document h tail
  rw [ofBufferSize, if_neg hfive, hread, ok_bind, if_neg hfits, pure_eq_ok]

/-- The reader of a document at the front of a memory. -/
theorem atElements_ofBufferSize {els : Elements} (tail : List UInt8)
    (hlen : (document els.bytes).length < 2147483648) {size : ℕ}
    (hsize : (document els.bytes).length ≤ size) :
    getTotalDocumentSize (document els.bytes ++ tail) = .ok (document els.bytes).length ∧
      ofBufferSize (some (document els.bytes ++ tail)) size
        = .ok (accepted size (document els.bytes).length) ∧
      AtElements (document els.bytes ++ tail) (toLe 4 (document els.bytes).length) tail els
        (accepted size (document els.bytes).length) := by
  refine ⟨getTotalDocumentSize_document hlen tail, ofBufferSize_document hlen tail hsize, ?_⟩
  obtain ⟨n, hn⟩ : ∃ n, n = (document els.bytes).length := ⟨_, rfl⟩
  have hn' : n = els.bytes.length + 5 := by rw [hn, length_document]
  have hsplit : document els.bytes ++ tail = toLe 4 n ++ els.bytes ++ 0 :: tail := by
    rw [document, hn']
    simp only [List.append_assoc, List.cons_append, List.nil_append]
  have hle : (n : ℤ) ≤ (document els.bytes ++ tail).length := by
    rw [List.length_append, ← hn]
    omega
  rw [← hn] at hlen hsize ⊢
  have hin : Inside (document els.bytes ++ tail) (accepted size n) :=
    inside_accepted (by omega) (by omega) hle
  refine ⟨hsplit, ?_, ?_⟩
  · rw [length_toLe]
    exact hin.before rfl
  · rw [length_toLe]
    show (n : ℤ) = _
    omega

end BsonReader

/-- The document of some size at the start of a memory is read. -/
def readDocument (mem : List UInt8) (size : ℕ) : Read (Option Elements) := do
  let r ← BsonReader.ofBufferSize (some mem) size
  let (els, _) ← r.readElements mem (size + 1)
  pure els

/-- **A document is read back** from the constructor on, up to the depth that the reader has layers
for. -/
theorem readDocument_bytes {els : Elements} (tail : List UInt8) (hclean : els.CleanKeys)
    (hlen : (document els.bytes).length < 2147483648) :
    readDocument (document els.bytes ++ tail) (document els.bytes).length
      = .ok (if els.depth ≤ kMaxSubdocs then some els else none) := by
  obtain ⟨-, hctor, hat⟩ := BsonReader.atElements_ofBufferSize tail hlen le_rfl
  have hn : els.bytes.length < (document els.bytes).length + 1 := by
    rw [length_document]
    omega
  rw [readDocument, hctor, ok_bind]
  by_cases hdepth : els.depth ≤ kMaxSubdocs
  · obtain ⟨r', hr', -⟩ := hat.readElements_eq hclean
      (show 0 + els.depth ≤ kMaxSubdocs by omega) hn
    rw [hr', if_pos hdepth]
    rfl
  · obtain ⟨r', hr'⟩ := hat.readElements_none hclean (Nat.zero_le _)
      (show kMaxSubdocs < 0 + els.depth by omega) hn
    rw [hr', if_neg hdepth]
    rfl

end ScApi
