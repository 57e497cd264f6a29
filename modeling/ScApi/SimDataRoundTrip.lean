import ScApi.SimDataBuilder
import ScApi.SimDataSections

/-!
# Lists of participants and tires

A program appends items with numbers to a list, and removals, finishes the list and puts it into a
document. What `parseFromRaw` finds in the document are the items, and not the removals: both sides meet
at the elements of the list, where an item is a document and a removal is a null, and where the key is
the number in four hexadecimal digits.

## Main results

* `hexNumber_hex16Key`: the key that is written is the number that is read.
* `exec_calls`: what a list holds after some calls, and the documents that were built.
* `parse_list`: the items that are read are those that were added.
-/

open Bytes BoundedRead Bson

namespace ScApi

open SimBuilders

/-! ### The calls on a list -/

/-- A call on a list of items with numbers. The fields are set on a builder of items, which is then
added. -/
inductive ListCall where
  | add (id : ℤ) (item : ℕ) (fields : List (List UInt8 × Leaf))
  | remove (id : ℤ)
  deriving DecidableEq, Repr

/-- Fields as elements. -/
def fieldElements : List (List UInt8 × Leaf) → Elements
  | [] => .nil
  | f :: fields => .leaf f.1 f.2 (fieldElements fields)

namespace ListCall

/-- The number of the item. -/
def id : ListCall → ℤ
  | add id _ _ => id
  | remove id => id

/-- The member functions that the program calls. -/
def steps (c : SimClass) (l : ℕ) : ListCall → List SimStep
  | add id item fields =>
      fields.map (fun f => .set (.item c item) f.1 f.2) ++ [.buildAndAdd c l (.number id) item]
  | remove id => [.addRemoval c l (.number id)]

/-- The element of the list. -/
def element : ListCall → Elements
  | add id _ fields => .sub .doc (hex16Key id) (fieldElements fields) .nil
  | remove id => .leaf (hex16Key id) .null .nil

/-- The item that is added, with its fields. -/
def added : ListCall → Option (ℤ × Elements)
  | add id _ fields => some (id, fieldElements fields)
  | remove _ => none

end ListCall

/-- The elements of a list. -/
def listOf : List ListCall → Elements
  | [] => .nil
  | call :: calls => call.element.append (listOf calls)

/-! ### Keys -/

theorem hexDigit_kHex (d : Fin 16) : hexDigit (kHex.getD d 0) = some (d : ℤ) := by
  revert d
  decide

theorem hexDigit_getD {n : ℤ} (h0 : 0 ≤ n) (h : n < 16) :
    hexDigit (kHex.getD n.toNat 0) = some n := by
  have hdigit := hexDigit_kHex ⟨n.toNat, by omega⟩
  rwa [Int.toNat_of_nonneg h0] at hdigit

/-- **The key that is written is the number that is read.** -/
theorem hexNumber_hex16Key {id : ℤ} (h0 : 0 ≤ id) (h : id < 65536) :
    hexNumber (hex16Key id) = some id := by
  have hkey : hex16Key id = [kHex.getD (id / 4096 % 16).toNat 0, kHex.getD (id / 256 % 16).toNat 0,
      kHex.getD (id / 16 % 16).toNat 0, kHex.getD (id / 1 % 16).toNat 0] := rfl
  rw [hkey, hexNumber, hexDigit_getD (by omega) (by omega), hexDigit_getD (by omega) (by omega),
    hexDigit_getD (by omega) (by omega), hexDigit_getD (by omega) (by omega)]
  show some _ = some id
  congr 1
  omega

/-! ### The elements of the list -/

theorem documentsIn_append (s t : Elements) :
    documentsIn (s.append t) = documentsIn s ++ documentsIn t := by
  rw [documentsIn, Elements.entries_append, List.filterMap_append]
  rfl

/-- **The items with numbers in a list** are those that were added. -/
theorem numbered_listOf {calls : List ListCall}
    (h : ∀ call ∈ calls, 1 ≤ call.id ∧ call.id ≤ 0xfffe) :
    numbered (documentsIn (listOf calls)) = calls.filterMap ListCall.added := by
  induction calls with
  | nil => rfl
  | cons call calls ih =>
      have hrest := ih fun k hk => h k (List.mem_cons_of_mem _ hk)
      obtain ⟨hlo, hhi⟩ := h call List.mem_cons_self
      rw [listOf, documentsIn_append, numbered, List.filterMap_append]
      cases call with
      | add id item fields =>
          have hnumber : hexNumber (hex16Key id) = some id :=
            hexNumber_hex16Key (Int.le_of_lt hlo) (lt_of_le_of_lt hhi (by decide))
          have hone : documentsIn (ListCall.add id item fields).element
              = [(hex16Key id, fieldElements fields)] := rfl
          rw [hone, List.filterMap_cons, hnumber]
          exact congrArg ((id, fieldElements fields) :: ·) hrest
      | remove id => exact hrest

/-! ### The run of the builders -/

/-- **Between two calls on a list**: it holds some elements, and the builders of items are empty. -/
structure Listing (c : SimClass) (l : ℕ) (e : Elements) (s : SimBuilders) : Prop where
  invariant : Invariant s
  list : s.fields (.list c l) = e
  items : ∀ i, s.consumed (.item c i) = false ∧ s.fields (.item c i) = .nil

section Runs

variable {platform : Platform} {bound : ℕ} {s : SimBuilders} {c : SimClass} {l i : ℕ} {e : Elements}

/-- What a field adds to the size of a document. -/
theorem length_document_append (e e' : Elements) :
    (document (e.append e').bytes).length = (document e.bytes).length + e'.bytes.length := by
  rw [length_document, length_document, Elements.bytes_append, List.length_append]
  omega

/-- The elements that a builder that was not consumed holds take the room that is used. -/
theorem SimBuilders.Invariant.usage (h : Invariant s) {r : BuilderRef} (hr : s.consumed r = false) :
    (s.builders r).currentUsage = (document (s.fields r).bytes).length := by
  obtain ⟨hole, hb⟩ := h.building hr
  exact usage_holds hb

section Grow

variable (hgrow : platform.GrowsWithin bound) (hbound : bound < 2147483648)

include hgrow hbound

/-- **A leaf is added to a builder.** -/
theorem addField_fits (h : Invariant s) {r : BuilderRef} (hr : s.consumed r = false)
    (name : List UInt8) (v : Leaf)
    (hn : (document ((s.fields r).append (.leaf name v .nil)).bytes).length ≤ bound) :
    ∃ b, s.addField platform r name v = .ok (s.used r b (.leaf name v .nil)) ∧
      Invariant (s.used r b (.leaf name v .nil)) := by
  have hroom : (s.builders r).currentUsage + (v.bytes.length + (name.length + 2) : ℕ) ≤ bound := by
    rw [length_document_append, Elements.bytes, Elements.bytes, List.append_nil, List.length_append,
      length_header] at hn
    rw [h.usage hr]
    omega
  obtain ⟨t, ht, hinv⟩ := addField_guarded hgrow hbound h hr name v hroom
  obtain ⟨⟨ok, b⟩, -, hb⟩ := bind_eq_ok.mp ht
  obtain rfl := Except.ok.inj hb
  exact ⟨b, ht, hinv⟩

/-- **Fields are set on a builder of items.** -/
theorem exec_fields (h : Invariant s) (hi : s.consumed (.item c i) = false)
    (fields : List (List UInt8 × Leaf))
    (hn : (document ((s.fields (.item c i)).append (fieldElements fields)).bytes).length ≤ bound) :
    ∃ t, Runs.exec (step platform) s (fields.map fun f => .set (.item c i) f.1 f.2) = some t ∧
      Invariant t ∧ t.consumed = s.consumed ∧ t.added = s.added ∧
      t.fields = Function.update s.fields (.item c i)
        ((s.fields (.item c i)).append (fieldElements fields)) := by
  induction fields generalizing s with
  | nil =>
      refine ⟨s, rfl, h, rfl, rfl, ?_⟩
      rw [fieldElements, Elements.append_nil, Function.update_eq_self]
  | cons f fields ih =>
      have hsplit : (s.fields (.item c i)).append (fieldElements (f :: fields))
          = ((s.fields (.item c i)).append (.leaf f.1 f.2 .nil)).append (fieldElements fields) := by
        rw [Elements.append_assoc]
        rfl
      rw [hsplit] at hn ⊢
      have hfirst : (document ((s.fields (.item c i)).append (.leaf f.1 f.2 .nil)).bytes).length
          ≤ bound := by
        rw [length_document_append] at hn
        omega
      obtain ⟨b, hadd, hinv⟩ := addField_fits hgrow hbound h hi f.1 f.2 hfirst
      have hfields : (s.used (.item c i) b (.leaf f.1 f.2 .nil)).fields (.item c i)
          = (s.fields (.item c i)).append (.leaf f.1 f.2 .nil) := Function.update_self _ _ _
      rw [← hfields] at hn ⊢
      obtain ⟨t, hrun, hinv', hconsumed, hadded, hupdate⟩ := ih hinv hi hn
      refine ⟨t, Runs.exec_cons.mpr ⟨_, ?_, hrun⟩, hinv', hconsumed, hadded, ?_⟩
      · rw [step, perform, hadd]
        rfl
      · rw [hupdate]
        exact Function.update_idem _ _ _

/-- **One call on a list.** -/
theorem exec_call (hten : 10 ≤ bound) (h : Listing c l e s) (call : ListCall)
    (hn : (document (e.append call.element).bytes).length ≤ bound) :
    ∃ t, Runs.exec (step platform) s (call.steps c l) = some t ∧
      Listing c l (e.append call.element) t ∧
      t.added = s.added ++ (call.added.map fun x => (document x.2.bytes, x.2)).toList := by
  obtain ⟨hinv, hlist, hitems⟩ := h
  have hopen : s.consumed (.list c l) = false := hinv.not_taken nofun
  cases call with
  | remove id =>
      have hlen : (document ((s.fields (.list c l)).append (.leaf (hex16Key id) .null .nil)).bytes).length
          ≤ bound := by
        rw [hlist]
        exact hn
      obtain ⟨b, hadd, hinv'⟩ := addField_fits hgrow hbound hinv hopen (hex16Key id) .null hlen
      refine ⟨_, Runs.exec_singleton.mpr ?_, ⟨hinv', ?_, fun i => ?_⟩, ?_⟩
      · exact congrArg Except.toOption hadd
      · rw [← hlist]
        exact Function.update_self _ _ _
      · obtain ⟨hconsumed, hnil⟩ := hitems i
        have hne : BuilderRef.item c i ≠ .list c l := nofun
        simp only [SimBuilders.used]
        rw [Function.update_of_ne hne]
        exact ⟨hconsumed, hnil⟩
      · exact (List.append_nil _).symm
  | add id i fields =>
      obtain ⟨hi, hnil⟩ := hitems i
      have hbytes : (ListCall.add id i fields).element.bytes
          = header Kind.doc.typeByte (hex16Key id) ++ document (fieldElements fields).bytes := by
        rw [ListCall.element, Elements.bytes, Elements.bytes, List.append_nil]
      rw [length_document_append, hbytes, List.length_append, length_header] at hn
      have hset : (document ((s.fields (.item c i)).append (fieldElements fields)).bytes).length
          ≤ bound := by
        rw [hnil, Elements.append]
        omega
      obtain ⟨s₁, hrun, hinv₁, hconsumed, hadded, hfields⟩ :=
        exec_fields hgrow hbound hinv hi fields hset
      have hi₁ : s₁.consumed (.item c i) = false := by rw [hconsumed, hi]
      have hitem₁ : s₁.fields (.item c i) = fieldElements fields := by
        rw [hfields, Function.update_self, hnil, Elements.append]
      have hlist₁ : s₁.fields (.list c l) = e := by
        rw [hfields, Function.update_of_ne (by simp), hlist]
      have hopen₁ : s₁.consumed (.list c l) = false := by rw [hconsumed, hopen]
      have hroom : (s₁.builders (.list c l)).currentUsage + ((s₁.builders (.item c i)).currentUsage
          + ((ItemId.number id).key.length + 2 : ℕ)) ≤ bound := by
        rw [hinv₁.usage hopen₁, hinv₁.usage hi₁, hlist₁, hitem₁, ItemId.key]
        omega
      obtain ⟨t, ht, hinv'⟩ := buildAndAdd_guarded hgrow hbound hten hinv₁ hi₁ (.number id) hroom
      have hstep : step platform s₁ (.buildAndAdd c l (.number id) i) = some t :=
        congrArg Except.toOption ht
      obtain ⟨⟨sub, item⟩, -, ht⟩ := bind_eq_ok.mp ht
      obtain ⟨⟨ok, list⟩, -, ht⟩ := bind_eq_ok.mp ht
      obtain rfl := Except.ok.inj ht
      have hreceived : received (hex16Key id) (s₁.builders (.list c l)) list
          = document (fieldElements fields).bytes := by
        have hlast := hinv'.added (received (hex16Key id) (s₁.builders (.list c l)) list,
          s₁.fields (.item c i)) (List.mem_append_right s₁.added List.mem_cons_self)
        dsimp only at hlast
        rw [hlast, hitem₁]
      refine ⟨_, Runs.exec_append.mpr ⟨s₁, hrun, Runs.exec_singleton.mpr hstep⟩,
        ⟨hinv', ?_, fun i' => ?_⟩, ?_⟩
      · simp only [SimBuilders.emptied, SimBuilders.used, SimBuilders.logged]
        rw [Function.update_of_ne (by simp), Function.update_self, hlist₁, hitem₁]
        rfl
      · obtain ⟨hconsumed', hnil'⟩ := hitems i'
        simp only [SimBuilders.emptied, SimBuilders.used, SimBuilders.logged]
        by_cases heq : i' = i
        · rw [heq, Function.update_self, Function.update_self]
          exact ⟨rfl, rfl⟩
        · have hne : BuilderRef.item c i' ≠ .item c i := by simp [heq]
          rw [Function.update_of_ne hne, Function.update_of_ne hne,
            Function.update_of_ne (by simp), hconsumed, hfields, Function.update_of_ne hne]
          exact ⟨hconsumed', hnil'⟩
      · simp only [SimBuilders.emptied, SimBuilders.used, SimBuilders.logged]
        rw [ItemId.key, hreceived, hitem₁, hadded]
        rfl

/-- **What a list holds after some calls**, and the documents that were built. -/
theorem exec_calls (hten : 10 ≤ bound) (h : Listing c l e s) (calls : List ListCall)
    (hn : (document (e.append (listOf calls)).bytes).length ≤ bound) :
    ∃ t, Runs.exec (step platform) s (calls.flatMap (ListCall.steps c l)) = some t ∧
      Listing c l (e.append (listOf calls)) t ∧
      t.added = s.added ++ (calls.filterMap ListCall.added).map fun x => (document x.2.bytes, x.2) := by
  induction calls generalizing s e with
  | nil =>
      refine ⟨s, rfl, ?_, (List.append_nil _).symm⟩
      rw [listOf, Elements.append_nil]
      exact h
  | cons call calls ih =>
      rw [listOf, ← Elements.append_assoc] at hn ⊢
      have hfirst : (document (e.append call.element).bytes).length ≤ bound := by
        rw [length_document_append] at hn
        omega
      obtain ⟨s₁, hrun₁, h₁, hadded₁⟩ := exec_call hgrow hbound hten h call hfirst
      obtain ⟨t, hrun, ht, hadded⟩ := ih h₁ hn
      refine ⟨t, ?_, ht, ?_⟩
      · rw [List.flatMap_cons]
        exact Runs.exec_append.mpr ⟨s₁, hrun₁, hrun⟩
      · rw [hadded, hadded₁, List.append_assoc, List.filterMap_cons]
        cases call.added <;> rfl

omit hgrow in
/-- The list is finished. -/
theorem Listing.finish (h : Listing c l e s) (hn : (document e.bytes).length ≤ bound) :
    ∃ sub b, finishFirst (s.builders (.list c l)) = .ok (sub, b) ∧ copied sub = document e.bytes := by
  obtain ⟨hole, hb⟩ := h.invariant.building (r := .list c l) (h.invariant.not_taken nofun)
  rw [h.list] at hb
  obtain ⟨tail, b, hfinish, -, -⟩ := hb.finishFirst rfl rfl
  exact ⟨_, b, hfinish, copied_document (lt_of_le_of_lt hn hbound) tail⟩

end Grow

end Runs

/-! ### The round trip -/

/-- The items of a class with numbers. -/
def RawData.itemsOf (raw : RawData) : SimClass → List (SubSection ℤ)
  | .participant => raw.participants
  | .tire => raw.tires
  | _ => []

theorem RawData.Yields.itemsOf {mem : List UInt8} {entries : List Entry} {raw : RawData} {c : SimClass}
    (h : raw.Yields mem entries) (hc : c = .participant ∨ c = .tire) :
    List.Forall₂ (SubSection.Holds mem) (raw.itemsOf c) (numbered (sectionIn entries c.listName)) := by
  rcases hc with rfl | rfl
  · exact h.participants
  · exact h.tires

/-- **The items that are read are those that were added**, in order, each with its number and with the
document that was built, and nothing is read for a removal. -/
theorem parse_list {platform : Platform} {bound : ℕ} (hgrow : platform.GrowsWithin bound)
    (hten : 10 ≤ bound) (hbound : bound < 2147483648) {c : SimClass}
    (hc : c = .participant ∨ c = .tire) (l : ℕ) {calls : List ListCall}
    (hids : ∀ call ∈ calls, 1 ≤ call.id ∧ call.id ≤ 0xfffe)
    (hsize : (document (listOf calls).bytes).length ≤ bound) {front back : List Entry}
    (hdoc : SimDataDocument (front ++ (c.listName, .sub .doc (listOf calls)) :: back))
    (tail : List UInt8) (revision : ℕ) :
    ∃ t sub b mem fuel raw,
      Runs.exec (step platform) (start platform) (calls.flatMap (ListCall.steps c l)) = some t ∧
      t.added = (calls.filterMap ListCall.added).map (fun x => (document x.2.bytes, x.2)) ∧
      finishFirst (t.builders (.list c l)) = .ok (sub, b) ∧
      mem = document (front.flatMap Entry.bytes ++ (header Kind.doc.typeByte c.listName ++ copied sub)
        ++ back.flatMap Entry.bytes) ++ tail ∧
      parseFromRaw (some mem) revision fuel = .ok (some raw) ∧
      List.Forall₂ (SubSection.Holds mem) (raw.itemsOf c) (calls.filterMap ListCall.added) := by
  have hstart : Listing c l .nil (start platform) :=
    ⟨invariant_start hgrow hbound hten, rfl, fun _ => ⟨rfl, rfl⟩⟩
  obtain ⟨t, hrun, hlisting, hadded⟩ := exec_calls hgrow hbound hten hstart calls hsize
  obtain ⟨sub, b, hfinish, hcopied⟩ := hlisting.finish hbound hsize
  obtain ⟨fuel, raw, hparse, hyields⟩ := parseFromRaw_document hdoc tail revision
  have hlookup : (front ++ (c.listName, Value.sub .doc (listOf calls)) :: back).lookup c.listName
      = some (.sub .doc (listOf calls)) :=
    (lookup_eq_some_iff_mem hdoc.keys).mpr (by simp)
  have hitems := hyields.itemsOf hc
  rw [sectionIn, hlookup] at hitems
  dsimp only at hitems
  rw [numbered_listOf hids] at hitems
  have hbytes : (front ++ (c.listName, Value.sub .doc (listOf calls)) :: back).flatMap Entry.bytes
      = front.flatMap Entry.bytes ++ (header Kind.doc.typeByte c.listName ++ copied sub)
        ++ back.flatMap Entry.bytes := by
    rw [hcopied, List.flatMap_append, List.flatMap_cons, List.append_assoc]
    rfl
  rw [hbytes] at hparse hitems
  exact ⟨t, sub, b, _, fuel, raw, hrun, hadded, hfinish, rfl, hparse, hitems⟩

/-- Two participants and a removal. -/
def threeCalls : List ListCall :=
  [.add 1 0 [([97], .i32 7)], .remove 2, .add 0xfffe 1 []]

theorem parse_list_three :
    ∃ t sub b mem fuel raw,
      Runs.exec (step .tight) (start .tight) (threeCalls.flatMap (ListCall.steps .participant 0))
        = some t ∧
      t.added = (threeCalls.filterMap ListCall.added).map (fun x => (document x.2.bytes, x.2)) ∧
      finishFirst (t.builders (.list .participant 0)) = .ok (sub, b) ∧
      mem = document (List.flatMap Entry.bytes [] ++ (header Kind.doc.typeByte
        SimClass.participant.listName ++ copied sub) ++ List.flatMap Entry.bytes []) ++ [] ∧
      parseFromRaw (some mem) 0 fuel = .ok (some raw) ∧
      List.Forall₂ (SubSection.Holds mem) (raw.itemsOf .participant)
        (threeCalls.filterMap ListCall.added) :=
  parse_list (Platform.growsWithin_tight (show 1000 < 2147483648 by decide)) (by decide) (by decide)
    (.inl rfl) 0 (by decide) (by decide +kernel)
    ⟨by
      rintro e (_ | ⟨_, ⟨⟩⟩)
      exact ⟨by decide, by decide, ⟨by decide, trivial⟩, by decide, by decide, trivial, trivial⟩,
      by decide +kernel, by decide⟩ [] 0

end ScApi
