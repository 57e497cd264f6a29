import ScApi.CommandRequest

/-!
# Documents that go on from another one

A document can be copied into another one as it is, or without its size and its last byte, so that
more fields can be added behind those that it has. `AddsFields` says which calls add which fields, up to
what is to be said of the elements of arrays. However the document is copied, what comes to lie in the
buffer is the encoding of its fields and of those that were added.

## Main results

* `AddsFields.exec`: the calls for some fields succeed and add them to the draft.
* `Writing.subDocument_appends`: copying, going on at once, and going on with more fields.
* `closeCommand_opened`, `finalized_eq`: requests to which fields are added.
-/

open Bytes Buffer Bson

namespace ScApi

/-- **Calls that add some fields to a document**: values, bytes with their number, documents that are
copied, begun, or gone on from, and arrays. `holds` says what an array holds to which some elements are
added. -/
inductive AddsFields (holds : Elements → Elements → Prop) : List BuilderCall → Elements → Prop where
  | done : AddsFields holds [] .nil
  | value {calls : List BuilderCall} {fields : Elements} (name : List UInt8) (v : Leaf)
      (rest : AddsFields holds calls fields) :
      AddsFields holds (.add (.name name) v :: calls) (.leaf name v fields)
  | bytes {calls : List BuilderCall} {fields : Elements} (name : List UInt8) {data : List UInt8}
      {n : ℕ} (subtype : UInt8) (hn : n ≤ data.length) (rest : AddsFields holds calls fields) :
      AddsFields holds (.addBytes (.name name) data n subtype :: calls)
        (.leaf name (.binary (data.take n) subtype) fields)
  | copied {calls : List BuilderCall} {fields : Elements} (name : List UInt8) (content : Elements)
      (more : List UInt8) (rest : AddsFields holds calls fields) :
      AddsFields holds (.addSubDoc name (document content.bytes ++ more) :: calls)
        (.sub .doc name content fields)
  | document {inner calls : List BuilderCall} {body fields : Elements} (name : List UInt8)
      (inside : AddsFields holds inner body) (rest : AddsFields holds calls fields) :
      AddsFields holds (.begin (.name name) .doc :: (inner ++ .close .doc :: calls))
        (.sub .doc name body fields)
  | continued {inner calls : List BuilderCall} {body fields : Elements} (name : List UInt8)
      (content : Elements) (more : List UInt8) (inside : AddsFields holds inner body)
      (rest : AddsFields holds calls fields) :
      AddsFields holds
        (.beginFrom name (document content.bytes ++ more) :: (inner ++ .close .doc :: calls))
        (.sub .doc name (content.append body) fields)
  | array {calls : List BuilderCall} {fields els body : Elements} (name : List UInt8)
      (inside : holds els body) (rest : AddsFields holds calls fields) :
      AddsFields holds (.begin (.name name) .array :: (callsOf .array els ++ .close .array :: calls))
        (.sub .array name body fields)

theorem AddsFields.mono {holds holds' : Elements → Elements → Prop} {calls : List BuilderCall}
    {fields : Elements} (h : AddsFields holds calls fields)
    (himp : ∀ els body, holds els body → holds' els body) : AddsFields holds' calls fields := by
  induction h with
  | done => exact .done
  | value name v rest ih => exact .value name v ih
  | bytes name subtype hn rest ih => exact .bytes name subtype hn ih
  | copied name content more rest ih => exact .copied name content more ih
  | document name inside rest ihbody ihrest => exact .document name ihbody ihrest
  | continued name content more inside rest ihbody ihrest =>
      exact .continued name content more ihbody ihrest
  | array name inside rest ih => exact .array name (himp _ _ inside) ih

/-- **What a builder writes** for an array of at most `n` elements, with the keys that the indices
get. -/
structure WrittenArray (key : ℕ → List UInt8) (n : ℕ) (els body : Elements) : Prop where
  within : ArraysWithin n .array 0 els
  body_eq : body = storedBy key .array 0 els

/-- What a builder writes for a short array, whatever its key buffer holds. -/
abbrev StoredArray : Elements → Elements → Prop :=
  WrittenArray arrayKey 100

/-- The calls succeed. They write the bytes behind what is there, and leave that as it is. -/
def Appends (platform : Platform) (b : BsonBuilder) (calls : List BuilderCall) (bytes : List UInt8) :
    Prop :=
  ∃ b' tail, Runs.exec (BuilderRun.step platform) ⟨b, true⟩ calls = some ⟨b', true⟩ ∧
    b'.buffer = b.buffer.take b.offset.toNat ++ bytes ++ tail ∧ b'.offset = b.offset + bytes.length

/-- **Only the document is copied**, whatever lies behind it. -/
theorem BsonBuilder.docBeginSubDocFrom_eq (platform : Platform) (name : List UInt8)
    {body : List UInt8} (hlen : (document body).length < 2147483648) (tail : List UInt8)
    (b : BsonBuilder) :
    b.docBeginSubDocFrom platform name (document body ++ tail)
      = b.docBeginSubDocFrom platform name (document body) := by
  have hsize : (document body ++ tail).take 4 = (document body).take 4 := by
    rw [List.take_append_of_le_length (by rw [length_document]; omega)]
  have hbody : ((document body ++ tail).drop 4).take (((document body).length : ℤ) - 5).toNat
      = ((document body).drop 4).take (((document body).length : ℤ) - 5).toNat := by
    have h4 : 4 ≤ (document body).length := by
      rw [length_document]
      omega
    rw [List.drop_append_of_le_length h4, List.take_append_of_le_length]
    rw [List.length_drop]
    omega
  rw [docBeginSubDocFrom, docBeginSubDocFrom, hsize, toI32_take_document hlen]
  simp only [hbody]

namespace Writing

variable {front : List UInt8} {footer bound : ℕ} {d : Draft} {b : BsonBuilder} {platform : Platform}

/-! ### Single fields -/

/-- What a call makes of a draft for which there is room. -/
def Goes (platform : Platform) (front : List UInt8) (footer bound : ℕ) (b : BsonBuilder)
    (c : BuilderCall) (d : Draft) : Prop :=
  ∃ b', c.perform platform b = .ok (true, b') ∧ Writing front footer d [] 0 b' ∧
    Roomy platform bound b' ∧ b'.errorFlag = b.errorFlag

theorem goes_value (h : Writing front footer d [] 0 b) (hv : Roomy platform bound b)
    (hbound : bound < 2147483648) (name : List UInt8) (v : Leaf)
    (hfits : d.usage front footer + (Elements.leaf name v .nil).bytes.length ≤ bound) :
    Goes platform front footer bound b (.add (.name name) v) (d.add (.leaf name v .nil)) := by
  rw [Elements.bytes, Elements.bytes, List.append_nil, List.length_append] at hfits
  obtain ⟨b₁, hinsert, hw, hv₁, herr₁⟩ := h.insert_field hv hbound name v.typeByte _ hfits
  have hkey : (BuilderKey.name name).insert platform v.typeByte v.bytes.length b = .ok (true, b₁) :=
    hinsert
  obtain ⟨b', hadd, hw', hsame⟩ := hw.addLeaf hkey
  refine ⟨b', ?_, hw', hv₁.same hsame, hsame.errorFlag.trans herr₁⟩
  exact (congrFun (BuilderCall.perform_add platform (.name name) v) b).trans hadd

theorem goes_bytes (h : Writing front footer d [] 0 b) (hv : Roomy platform bound b)
    (hbound : bound < 2147483648) (name : List UInt8) {data : List UInt8} {n : ℕ} (subtype : UInt8)
    (hn : n ≤ data.length)
    (hfits : d.usage front footer
      + (Elements.leaf name (.binary (data.take n) subtype) .nil).bytes.length ≤ bound) :
    Goes platform front footer bound b (.addBytes (.name name) data n subtype)
      (d.add (.leaf name (.binary (data.take n) subtype) .nil)) := by
  have he : (Elements.leaf name (.binary (data.take n) subtype) .nil).bytes
      = header 0x05 name ++ (Leaf.binary (data.take n) subtype).bytes := by
    rw [Elements.bytes, Elements.bytes, List.append_nil]
    rfl
  rw [he, List.length_append, Leaf.length_bytes_binary, List.length_take_of_le hn] at hfits
  obtain ⟨b₁, hinsert, hw, hv₁, herr₁⟩ := h.insert_field hv hbound name 0x05 _ hfits
  have hkey : (BuilderKey.name name).insert platform 0x05 (n + 5 : ℕ) b = .ok (true, b₁) := hinsert
  obtain ⟨b', hadd, hw', hsame⟩ := hw.addBytes hkey hn he
  refine ⟨b', ?_, hw', hv₁.same hsame, hsame.errorFlag.trans herr₁⟩
  rw [BuilderCall.perform_addBytes, hadd]

/-- **A document is copied.** -/
theorem goes_addSubDoc (h : Writing front footer d [] 0 b) (hv : Roomy platform bound b)
    (hbound : bound < 2147483648) (name : List UInt8) (content : Elements) (more : List UInt8)
    (hfits : d.usage front footer + (Elements.sub .doc name content .nil).bytes.length ≤ bound) :
    Goes platform front footer bound b (.addSubDoc name (document content.bytes ++ more))
      (d.add (.sub .doc name content .nil)) := by
  have he : (Elements.sub .doc name content .nil).bytes
      = header Kind.doc.typeByte name ++ document content.bytes := by
    rw [Elements.bytes, Elements.bytes, List.append_nil]
  rw [he, List.length_append] at hfits
  obtain ⟨b₁, hinsert, hw, hv₁, herr₁⟩ := h.insert_field hv hbound name Kind.doc.typeByte _ hfits
  obtain ⟨b', hadd, hw', hsame⟩ := hw.addElement hinsert he
  refine ⟨b', ?_, hw', hv₁.same hsame, hsame.errorFlag.trans herr₁⟩
  have hlen : (document content.bytes).length < 2147483648 := by omega
  have hcall : b.docAddSubDoc platform name (document content.bytes ++ more) = .ok (true, b') :=
    (BsonBuilder.docAddSubDoc_eq platform name hlen more b).trans hadd
  exact hcall

theorem goes_begin (h : Writing front footer d [] 0 b) (hv : Roomy platform bound b)
    (hbound : bound < 2147483648) (name : List UInt8) (kind : Kind)
    (hfits : d.usage front footer + ((header kind.typeByte name).length + 5) ≤ bound) :
    ∃ hole, Goes platform front footer bound b (.begin (.name name) kind)
      (d.push ⟨kind, name, hole, .nil⟩) := by
  obtain ⟨b₁, hinsert, hw, hv₁, herr₁⟩ := h.insert_field hv hbound name kind.typeByte 5 hfits
  have hkey : (BuilderKey.name name).insert platform kind.typeByte 5 b = .ok (true, b₁) := hinsert
  obtain ⟨hole, b', hbegin, hw', hsame⟩ := hw.beginContainer hkey
  refine ⟨hole, b', ?_, hw', hv₁.same hsame, hsame.errorFlag.trans herr₁⟩
  exact (congrFun (BuilderCall.perform_begin platform (.name name) kind) b).trans hbegin

/-- **A document goes on from another one.** -/
theorem goes_beginFrom (h : Writing front footer d [] 0 b) (hv : Roomy platform bound b)
    (hbound : bound < 2147483648) (name : List UInt8) (content : Elements) (more : List UInt8)
    (hfits : d.usage front footer
      + ((header Kind.doc.typeByte name).length + (document content.bytes).length) ≤ bound) :
    ∃ hole, Goes platform front footer bound b (.beginFrom name (document content.bytes ++ more))
      (d.push ⟨.doc, name, hole, content⟩) := by
  have hlen : (document content.bytes).length < 2147483648 := by omega
  obtain ⟨b₁, hinsert, hw, hv₁, herr₁⟩ := h.insert_field hv hbound name Kind.doc.typeByte _ hfits
  obtain ⟨hole, b', hbegin, hw', hsame⟩ := hw.docBeginSubDocFrom hlen hinsert
  refine ⟨hole, b', ?_, hw', hv₁.same hsame, hsame.errorFlag.trans herr₁⟩
  have hcall : b.docBeginSubDocFrom platform name (document content.bytes ++ more) = .ok (true, b') :=
    (BsonBuilder.docBeginSubDocFrom_eq platform name hlen more b).trans hbegin
  exact hcall

theorem goes_close (h : Writing front footer d [] 0 b) (hv : Roomy platform bound b) {l : Layer}
    {outer : List Layer} (hl : d.layers = l :: outer) :
    Goes platform front footer bound b (.close l.kind) d.pop := by
  obtain ⟨b', hclose, hw', hsame⟩ := h.close platform hl
  exact ⟨b', hclose, hw', hv.same hsame, hsame.errorFlag⟩

/-! ### Some fields -/

/-- What some calls make of a draft for which there is room. They take indices that are less than
`n`. -/
def GoesOn (platform : Platform) (front : List UInt8) (footer bound n : ℕ) (b : BsonBuilder)
    (calls : List BuilderCall) (d : Draft) : Prop :=
  ∃ b', Runs.exec (BuilderRun.step platform) ⟨b, true⟩ calls = some ⟨b', true⟩ ∧
    Runs.Meets (BuilderRun.step platform) (BuilderRun.IndexBelow n) ⟨b, true⟩ calls ∧
    Writing front footer d [] 0 b' ∧ Roomy platform bound b' ∧ b'.errorFlag = b.errorFlag

variable {n : ℕ} {c : BuilderCall} {calls calls' : List BuilderCall} {d' : Draft}

theorem Goes.cons (h : Goes platform front footer bound b c d) (hkey : c.key ≠ some .index)
    (hrest : ∀ b', Writing front footer d [] 0 b' → Roomy platform bound b' →
      GoesOn platform front footer bound n b' calls d') :
    GoesOn platform front footer bound n b (c :: calls) d' := by
  obtain ⟨b₁, hperform, hw₁, hv₁, herr₁⟩ := h
  obtain ⟨b₂, hexec, hmeets, hw₂, hv₂, herr₂⟩ := hrest b₁ hw₁ hv₁
  have hstep : BuilderRun.step platform ⟨b, true⟩ c = some ⟨b₁, true⟩ := BuilderRun.step_eq hperform
  exact ⟨b₂, Runs.exec_cons.mpr ⟨_, hstep, hexec⟩, .cons hstep (fun hindex => absurd hindex hkey)
    hmeets, hw₂, hv₂, herr₂.trans herr₁⟩

theorem GoesOn.append (h : GoesOn platform front footer bound n b calls d)
    (hrest : ∀ b', Writing front footer d [] 0 b' → Roomy platform bound b' →
      GoesOn platform front footer bound n b' calls' d') :
    GoesOn platform front footer bound n b (calls ++ calls') d' := by
  obtain ⟨b₁, hexec₁, hmeets₁, hw₁, hv₁, herr₁⟩ := h
  obtain ⟨b₂, hexec₂, hmeets₂, hw₂, hv₂, herr₂⟩ := hrest b₁ hw₁ hv₁
  exact ⟨b₂, Runs.exec_append.mpr ⟨_, hexec₁, hexec₂⟩,
    (Runs.meets_append hexec₁).mpr ⟨hmeets₁, hmeets₂⟩, hw₂, hv₂, herr₂.trans herr₁⟩

theorem goesOn_nil (h : Writing front footer d [] 0 b) (hv : Roomy platform bound b) :
    GoesOn platform front footer bound n b [] d :=
  ⟨b, rfl, trivial, h, hv, rfl⟩

end Writing

/-- **A container that has its elements** becomes an element of the one around it. -/
theorem Draft.pop_push_add (l : Layer) (e : Elements) (n : ℕ) (d : Draft) :
    (((d.push l).add e).tick l.kind n).pop
      = d.add (.sub l.kind l.key (l.elements.append e) .nil) := by
  rcases l with ⟨- | -, key, hole, elements⟩ <;> rfl

theorem Draft.layers_push_add (l : Layer) (e : Elements) (n : ℕ) (d : Draft) :
    (((d.push l).add e).tick l.kind n).layers
      = { l with elements := l.elements.append e } :: d.layers := by
  rcases l with ⟨- | -, key, hole, elements⟩ <;> rfl

/-- What is open has the bytes that are promised to it, without those of the elements to come. -/
theorem Draft.usage_push_le {front : List UInt8} {footer bound : ℕ} {d : Draft} {l : Layer}
    {body : Elements} (hhole : l.hole.length = 4)
    (hfits : d.usage front footer
      + (Elements.sub l.kind l.key (l.elements.append body) .nil).bytes.length ≤ bound) :
    (d.push l).usage front footer + body.bytes.length ≤ bound := by
  rw [Elements.bytes, Elements.bytes, List.append_nil, List.length_append, length_document,
    Elements.bytes_append, List.length_append] at hfits
  rw [usage_push]
  omega

/-- With room for a container there is room to begin it. -/
theorem Draft.usage_begin_le {front name : List UInt8} {footer bound : ℕ} {d : Draft} {kind : Kind}
    (content body : Elements)
    (hfits : d.usage front footer
      + (Elements.sub kind name (content.append body) .nil).bytes.length ≤ bound) :
    d.usage front footer + ((header kind.typeByte name).length + (document content.bytes).length)
      ≤ bound := by
  rw [Elements.bytes, Elements.bytes, List.append_nil, List.length_append, length_document,
    Elements.bytes_append, List.length_append] at hfits
  rw [length_document]
  omega

/-- With room for some elements there is room for the first of them, and behind it for the others. -/
theorem Draft.usage_append_le {front : List UInt8} {footer bound : ℕ} {d : Draft}
    (e e' : Elements) (hfits : d.usage front footer + (e.append e').bytes.length ≤ bound) :
    d.usage front footer + e.bytes.length ≤ bound ∧
      (d.add e).usage front footer + e'.bytes.length ≤ bound := by
  rw [Elements.bytes_append, List.length_append] at hfits
  rw [usage_add]
  omega

/-- **A document that has its elements ends.** -/
theorem Writing.endDocument_added {platform : Platform} {front name hole : List UInt8}
    {footer bound : ℕ} {content e : Elements} {d : Draft} {b : BsonBuilder}
    (h : Writing front footer ((d.push ⟨.doc, name, hole, content⟩).add e) [] 0 b)
    (hv : Roomy platform bound b) :
    ∃ b', b.endDocument = .ok b' ∧
      Writing front footer (d.add (.sub .doc name (content.append e) .nil)) [] 0 b' ∧
      Roomy platform bound b' ∧ b'.errorFlag = b.errorFlag := by
  obtain ⟨b', hclose, hw, hv', herr⟩ :=
    goes_close h hv (d.layers_push_add ⟨.doc, name, hole, content⟩ e 0)
  exact ⟨b', perform_close_iff.mp hclose, d.pop_push_add ⟨.doc, name, hole, content⟩ e 0 ▸ hw, hv', herr⟩

section Fields

open Writing

variable {front : List UInt8} {footer bound n : ℕ} {platform : Platform} {calls : List BuilderCall}
  {fields : Elements} {key : ℕ → List UInt8}

/-- **A container is begun, filled and ended.** -/
theorem Writing.goesOn_container {c : BuilderCall} {inner calls : List BuilderCall} {kind : Kind}
    {name : List UInt8} {content body : Elements} {d d' : Draft} {b : BsonBuilder}
    (hkey : c.key ≠ some .index)
    (hbegin : ∃ hole, Goes platform front footer bound b c (d.push ⟨kind, name, hole, content⟩))
    (hfits : d.usage front footer
      + (Elements.sub kind name (content.append body) .nil).bytes.length ≤ bound)
    (hinside : ∀ (d₁ : Draft) b₁, Writing front footer d₁ [] 0 b₁ → Roomy platform bound b₁ →
      d₁.usage front footer + body.bytes.length ≤ bound →
      (∃ hole, d₁ = d.push ⟨kind, name, hole, content⟩) →
      ∃ m, GoesOn platform front footer bound n b₁ inner ((d₁.add body).tick kind m))
    (hrest : ∀ b', Writing front footer (d.add (.sub kind name (content.append body) .nil)) [] 0 b' →
      Roomy platform bound b' → GoesOn platform front footer bound n b' calls d') :
    GoesOn platform front footer bound n b (c :: (inner ++ .close kind :: calls)) d' := by
  obtain ⟨hole, hbegin⟩ := hbegin
  refine hbegin.cons hkey fun b₁ hw₁ hv₁ => ?_
  have hhole : hole.length = 4 := hw₁.holes.2 _ List.mem_cons_self
  obtain ⟨m, hinner⟩ := hinside _ b₁ hw₁ hv₁ (Draft.usage_push_le hhole hfits) ⟨hole, rfl⟩
  refine hinner.append fun b₂ hw₂ hv₂ => ?_
  have hclose := goes_close hw₂ hv₂ (d.layers_push_add ⟨kind, name, hole, content⟩ body m)
  rw [d.pop_push_add ⟨kind, name, hole, content⟩ body m] at hclose
  exact hclose.cons nofun hrest

/-- **The calls for some fields succeed**, and add them to the draft. -/
theorem AddsFields.exec (h : AddsFields (WrittenArray key n) calls fields)
    (hkey : platform.Fills key n) (hbound : bound < 2147483648) {d : Draft} {b : BsonBuilder}
    (hw : Writing front footer d [] 0 b) (hv : Roomy platform bound b)
    (hfits : d.usage front footer + fields.bytes.length ≤ bound) :
    GoesOn platform front footer bound n b calls (d.add fields) := by
  induction h generalizing d b with
  | done =>
      rw [Draft.add_nil]
      exact goesOn_nil hw hv
  | @value calls fields name v rest ih =>
      obtain ⟨hfirst, hothers⟩ := Draft.usage_append_le (.leaf name v .nil) fields hfits
      refine (goes_value hw hv hbound name v hfirst).cons nofun fun b₁ hw₁ hv₁ => ?_
      have hadd := ih hw₁ hv₁ hothers
      rwa [Draft.add_add] at hadd
  | @bytes calls fields name data n subtype hn rest ih =>
      obtain ⟨hfirst, hothers⟩ := Draft.usage_append_le
        (.leaf name (.binary (data.take n) subtype) .nil) fields hfits
      refine (goes_bytes hw hv hbound name subtype hn hfirst).cons nofun fun b₁ hw₁ hv₁ => ?_
      have hadd := ih hw₁ hv₁ hothers
      rwa [Draft.add_add] at hadd
  | @copied calls fields name content more rest ih =>
      obtain ⟨hfirst, hothers⟩ :=
        Draft.usage_append_le (.sub .doc name content .nil) fields hfits
      refine (goes_addSubDoc hw hv hbound name content more hfirst).cons nofun fun b₁ hw₁ hv₁ => ?_
      have hadd := ih hw₁ hv₁ hothers
      rwa [Draft.add_add] at hadd
  | @document inner calls body fields name inside rest ihbody ihrest =>
      obtain ⟨hfirst, hothers⟩ :=
        Draft.usage_append_le (.sub .doc name body .nil) fields hfits
      have hbegin := goes_begin hw hv hbound name .doc (Draft.usage_begin_le .nil body hfirst)
      refine goesOn_container nofun hbegin hfirst ?_ fun b₂ hw₂ hv₂ => ?_
      · exact fun d₁ b₁ hw₁ hv₁ hfits₁ _ => ⟨0, ihbody hw₁ hv₁ hfits₁⟩
      · have hadd := ihrest hw₂ hv₂ hothers
        rwa [Draft.add_add] at hadd
  | @continued inner calls body fields name content more inside rest ihbody ihrest =>
      obtain ⟨hfirst, hothers⟩ :=
        Draft.usage_append_le (.sub .doc name (content.append body) .nil) fields hfits
      have hbegin := goes_beginFrom hw hv hbound name content more
        (Draft.usage_begin_le content body hfirst)
      refine goesOn_container nofun hbegin hfirst ?_ fun b₂ hw₂ hv₂ => ?_
      · exact fun d₁ b₁ hw₁ hv₁ hfits₁ _ => ⟨0, ihbody hw₁ hv₁ hfits₁⟩
      · have hadd := ihrest hw₂ hv₂ hothers
        rwa [Draft.add_add] at hadd
  | @array calls fields els body name inside rest ih =>
      obtain ⟨hwithin, rfl⟩ := inside
      obtain ⟨hfirst, hothers⟩ :=
        Draft.usage_append_le (.sub .array name (storedBy key .array 0 els) .nil) fields hfits
      have hbegin := goes_begin hw hv hbound name .array
        (Draft.usage_begin_le .nil (storedBy key .array 0 els) hfirst)
      refine goesOn_container nofun hbegin hfirst ?_ fun b₂ hw₂ hv₂ => ?_
      · rintro d₁ b₁ hw₁ hv₁ hfits₁ ⟨hole, rfl⟩
        exact ⟨_, hw₁.exec_callsBy hbound hkey els true hv₁ (fun _ => ⟨_, rfl⟩) hwithin hfits₁⟩
      · have hadd := ih hw₂ hv₂ hothers
        rwa [Draft.add_add] at hadd

/-! ### Three ways to the same bytes -/

/-- What a draft has more is what the builder has written. -/
theorem Writing.appends {d : Draft} {b : BsonBuilder} {e : Elements}
    (h : Writing front footer d [] 0 b)
    (hgoes : GoesOn platform front footer bound n b calls (d.add e)) :
    Appends platform b calls e.bytes := by
  obtain ⟨b', hexec, -, hw, -, -⟩ := hgoes
  obtain ⟨tail, hbuf⟩ := h.buffer
  obtain ⟨tail', hbuf'⟩ := hw.buffer
  have hoff := h.offset
  have hoff' := hw.offset
  rw [List.append_nil] at hbuf hbuf' hoff hoff'
  rw [Draft.spine_add] at hbuf' hoff'
  refine ⟨b', tail', hexec, ?_, ?_⟩
  · rw [hoff, Int.toNat_natCast, hbuf, List.take_left, hbuf']
  · rw [hoff, hoff', List.length_append, Nat.cast_add]

/-- **A document that is copied, one that goes on and ends at once, and one that goes on with more
fields** are the encodings of what they have. -/
theorem Writing.subDocument_appends {d : Draft} {b : BsonBuilder} (hbound : bound < 2147483648)
    (h : Writing front footer d [] 0 b) (hv : Roomy platform bound b) (name : List UInt8)
    (content : Elements) (more : List UInt8) (hkey : platform.Fills key n)
    (hfields : AddsFields (WrittenArray key n) calls fields)
    (hfits : d.usage front footer
      + (Elements.sub .doc name (content.append fields) .nil).bytes.length ≤ bound) :
    Appends platform b [.addSubDoc name (document content.bytes ++ more)]
        (Entry.bytes (name, .sub .doc content)) ∧
      Appends platform b [.beginFrom name (document content.bytes ++ more), .close .doc]
        (Entry.bytes (name, .sub .doc content)) ∧
      Appends platform b
        (.beginFrom name (document content.bytes ++ more) :: (calls ++ [.close .doc]))
        (Entry.bytes (name, .sub .doc (content.append fields))) := by
  have hentry : ∀ e, Entry.bytes (name, .sub .doc e) = (Elements.sub .doc name e .nil).bytes := by
    intro e
    rw [Elements.bytes, Elements.bytes, List.append_nil]
    rfl
  have hless : d.usage front footer + (Elements.sub .doc name content .nil).bytes.length ≤ bound := by
    have hbegin := Draft.usage_begin_le content fields hfits
    rwa [Elements.bytes, Elements.bytes, List.append_nil, List.length_append]
  have hcopied : GoesOn platform front footer bound n b
      [.addSubDoc name (document content.bytes ++ more)] (d.add (.sub .doc name content .nil)) :=
    (goes_addSubDoc h hv hbound name content more hless).cons (by simp [BuilderCall.key]) fun b₁ hw₁ hv₁ =>
      goesOn_nil hw₁ hv₁
  have hended := (AddsFields.continued name content more .done .done).exec hkey hbound h hv
    (by rwa [Elements.append_nil])
  rw [Elements.append_nil] at hended
  have hcontinued := (AddsFields.continued name content more hfields .done).exec hkey hbound h hv hfits
  rw [hentry, hentry]
  exact ⟨h.appends hcopied, h.appends hended, h.appends hcontinued⟩

end Fields

/-! ### Requests -/

namespace CommandRequest

/-- The elements of a request. -/
def encoding (service command : List UInt8) (body : Elements) (cmdId : BitVec 32) : Elements :=
  .leaf (ascii "00type") (.i32 1) (.leaf (ascii "service") (.string service)
    (.sub .doc (ascii "cmd") (.sub .doc command body .nil) (.leaf (ascii "user-data") (.i32 cmdId)
      .nil)))

end CommandRequest

section Requests

open CommandRequest Writing

variable {platform : Platform} {bound n : ℕ} {key : ℕ → List UInt8}

/-- **A request that nothing is left in begins with an empty draft.** -/
theorem writing_restart_idle {b : BsonBuilder} (hb : b.Idle)
    (hcap : b.container.getD 0 < 2147483648) (hgrow : platform.GrowsWithin bound) {size : ℕ}
    (hsize : 5 ≤ size) (hle : size ≤ bound) :
    Writing [] 0 ⟨(resize 0 b.buffer size).take 4, .nil, [], []⟩ [] 0 (restart platform size b) ∧
      Roomy platform bound (restart platform size b) ∧ (restart platform size b).errorFlag = false := by
  have hlen : (resize 0 b.buffer size).length = size := length_resize 0 b.buffer size
  obtain ⟨capacity, hcapacity⟩ : ∃ capacity, capacity =
      if b.container.getD 0 < size then platform.grow (b.container.getD 0) size
        else b.container.getD 0 := ⟨_, rfl⟩
  have hneeded : ¬ (resize 0 b.buffer size).length < (5 + 0 + 0) % 4294967296 := by omega
  have hrestart : restart platform size b
      = { b.initializeBuffer (resize 0 b.buffer size) with
          container := some capacity, reallocate := true } := by
    simp only [restart, resizeBuffer, BsonBuilder.initializeVector, hneeded, if_false, false_and,
      Option.getD_some, hcapacity]
    rfl
  have hcapacity_ge : size ≤ capacity ∧ capacity < 2147483648 := by
    rw [hcapacity]
    by_cases hlt : b.container.getD 0 < size
    · rw [if_pos hlt]
      exact ⟨platform.le_grow _ _, hgrow _ _ hlt hle⟩
    · rw [if_neg hlt]
      omega
  have h := writing_initializeBuffer (hlen.ge.trans' hsize)
  refine ⟨?_, .inl ⟨⟨⟨capacity, ?_, ?_, hcapacity_ge.2⟩, ?_⟩, hgrow⟩, ?_⟩
  · rw [hrestart]
    exact ⟨h.buffer, h.holes, h.offset, h.usage, h.room, h.small, h.capacity, hb.documentSizeOffsets,
      hb.arrayIdxCounters, h.arrays, hb.depth, h.start⟩
  · rw [hrestart]
  · rw [hrestart]
    exact hlen.le.trans hcapacity_ge.1
  · rw [hrestart]
  · rw [hrestart]
    exact hb.errorFlag

/-- What a request holds in front of its command. -/
def CommandRequest.opening (service hole : List UInt8) : Draft :=
  ⟨hole, .leaf (ascii "00type") (.i32 1) (.leaf (ascii "service") (.string service) .nil), [], []⟩

theorem CommandRequest.usage_opening (service : List UInt8) {hole : List UInt8}
    (hhole : hole.length = 4) : (opening service hole).usage [] 0 = service.length + 31 := by
  have htype : (header (Leaf.i32 1).typeByte (ascii "00type") ++ (Leaf.i32 1).bytes).length = 12 := rfl
  have hservice : (header (Leaf.string service).typeByte (ascii "service")
      ++ (Leaf.string service).bytes).length = service.length + 14 := by
    rw [List.length_append, length_header, Leaf.length_bytes_string]
    have hascii : (ascii "service").length = 7 := rfl
    omega
  rw [opening, Draft.usage, Draft.spine, Draft.spineOf, Elements.bytes, Elements.bytes,
    Elements.bytes, List.nil_append, List.append_nil, List.length_append, List.length_append, htype,
    hservice, hhole, List.length_nil]
  omega

theorem CommandRequest.length_encoding (service command : List UInt8) (body : Elements)
    (cmdId : BitVec 32) : (document (encoding service command body cmdId).bytes).length
      = service.length + command.length + body.bytes.length + 63 := by
  have h00 : (ascii "00type").length = 6 := rfl
  have hservice : (ascii "service").length = 7 := rfl
  have hcmd : (ascii "cmd").length = 3 := rfl
  have huser : (ascii "user-data").length = 9 := rfl
  simp only [encoding, Elements.bytes, length_document, List.length_append, length_header,
    Leaf.length_bytes_i32, Leaf.length_bytes_string, List.length_nil, h00, hservice, hcmd, huser]
  omega

/-- The document of a command begins with some elements, if there is room for it. -/
def CommandRequest.Begins (platform : Platform) (bound : ℕ)
    (beginCommand : BsonBuilder → Build (Bool × BsonBuilder)) (command : List UInt8)
    (content : Elements) : Prop :=
  ∀ d b, Writing [] 0 d [] 0 b → Roomy platform bound b →
    d.usage [] 0 + ((header Kind.doc.typeByte command).length + (document content.bytes).length)
      ≤ bound →
    ∃ hole b', beginCommand b = .ok (true, b') ∧
      Writing [] 0 (d.push ⟨.doc, command, hole, content⟩) [] 0 b' ∧ Roomy platform bound b' ∧
      b'.errorFlag = b.errorFlag

/-- **A request begins with its command.** -/
theorem initializeWith_idle {b : BsonBuilder} (hb : b.Idle) (hcap : b.container.getD 0 < 2147483648)
    (hgrow : platform.GrowsWithin bound) (hbound : bound < 2147483648) (service command : List UInt8)
    (content : Elements) {beginCommand : BsonBuilder → Build (Bool × BsonBuilder)} {size : ℕ}
    (hsize : 5 ≤ size) (hle : size ≤ bound)
    (hbegin : CommandRequest.Begins platform bound beginCommand command content)
    (hfits : service.length + command.length + content.bytes.length + 48 ≤ bound) :
    ∃ startHole cmdHole hole b',
      initializeWith platform size service beginCommand b = .ok b' ∧
      Writing [] 0 (((opening service startHole).push ⟨.doc, ascii "cmd", cmdHole, .nil⟩).push
        ⟨.doc, command, hole, content⟩) [] 0 b' ∧
      Roomy platform bound b' ∧ b'.errorFlag = false ∧ startHole.length = 4 := by
  obtain ⟨h₀, hv₀, herr₀⟩ := writing_restart_idle hb hcap hgrow hsize hle
  obtain ⟨b₀, hb₀⟩ : ∃ b₀, b₀ = restart platform size b := ⟨_, rfl⟩
  rw [← hb₀] at h₀ hv₀ herr₀
  obtain ⟨startHole, hstart⟩ : ∃ startHole, startHole = (resize 0 b.buffer size).take 4 := ⟨_, rfl⟩
  rw [← hstart] at h₀
  have hstartHole : startHole.length = 4 := h₀.holes.1
  have husage₀ : (⟨startHole, .nil, [], []⟩ : Draft).usage [] 0 = 5 := by
    rw [Draft.usage, Draft.spine, Draft.spineOf, Elements.bytes, List.nil_append, List.append_nil,
      hstartHole, List.length_nil]
  have htype : (Elements.leaf (ascii "00type") (.i32 1) .nil).bytes.length = 12 := rfl
  have hservice : (Elements.leaf (ascii "service") (.string service) .nil).bytes.length
      = service.length + 14 := by
    have hascii : (ascii "service").length = 7 := rfl
    rw [Elements.bytes, Elements.bytes, List.append_nil, List.length_append, length_header,
      Leaf.length_bytes_string]
    omega
  -- the two elements in front
  obtain ⟨b₁, hadd₁, h₁, hv₁, herr₁⟩ :=
    goes_value h₀ hv₀ hbound (ascii "00type") (.i32 1) (by omega)
  obtain ⟨b₂, hadd₂, h₂, hv₂, herr₂⟩ :=
    goes_value h₁ hv₁ hbound (ascii "service") (.string service) (by rw [Draft.usage_add]; omega)
  have hopening : ((⟨startHole, .nil, [], []⟩ : Draft).add
      (.leaf (ascii "00type") (.i32 1) .nil)).add (.leaf (ascii "service") (.string service) .nil)
      = opening service startHole := rfl
  have husage₂ := usage_opening service hstartHole
  rw [hopening] at h₂
  -- the two documents
  have hcmd : (header Kind.doc.typeByte (ascii "cmd")).length = 5 := rfl
  obtain ⟨cmdHole, b₃, hbegin₃, h₃, hv₃, herr₃⟩ :=
    goes_begin h₂ hv₂ hbound (ascii "cmd") .doc (by omega)
  have husage₃ : ((opening service startHole).push ⟨.doc, ascii "cmd", cmdHole, .nil⟩).usage [] 0
      = service.length + 41 := by
    have hcmdHole : cmdHole.length = 4 := h₃.holes.2 _ List.mem_cons_self
    rw [Draft.usage_push, husage₂, hcmdHole, hcmd, Elements.bytes, List.length_nil]
  obtain ⟨hole, b₄, hbegin₄, h₄, hv₄, herr₄⟩ := hbegin _ b₃ h₃ hv₃ (by
    rw [husage₃, length_header, length_document]
    omega)
  refine ⟨startHole, cmdHole, hole, b₄, ?_, h₄, hv₄, ?_, hstartHole⟩
  · have hcall₁ : b₀.docAddElement platform (ascii "00type") (.i32 1) = .ok (true, b₁) := hadd₁
    have hcall₂ : b₁.docAddElement platform (ascii "service") (.string service) = .ok (true, b₂) :=
      hadd₂
    have hcall₃ : b₂.docBeginSubDoc platform (ascii "cmd") = .ok (true, b₃) := hbegin₃
    rw [initializeWith, ← hb₀]
    simp only [hcall₁, hcall₂, hcall₃, hbegin₄, bind, Except.bind]
    rfl
  · rw [herr₄, herr₃, herr₂, herr₁, herr₀]

/-- A request without anything in its command. -/
theorem initializeCommand_idle {b : BsonBuilder} (hb : b.Idle) (hcap : b.container.getD 0 < 2147483648)
    (hgrow : platform.GrowsWithin bound) (hbound : bound < 2147483648)
    (service command : List UInt8) (hsize : 100 ≤ bound)
    (hfits : service.length + command.length + 48 ≤ bound) :
    ∃ startHole cmdHole hole b', initializeCommand platform service command b = .ok b' ∧
      Writing [] 0 (((opening service startHole).push ⟨.doc, ascii "cmd", cmdHole, .nil⟩).push
        ⟨.doc, command, hole, .nil⟩) [] 0 b' ∧
      Roomy platform bound b' ∧ b'.errorFlag = false ∧ startHole.length = 4 := by
  refine initializeWith_idle hb hcap hgrow hbound service command .nil (by decide) hsize ?_ hfits
  intro d b hw hv hroom
  obtain ⟨hole, b', hbegin, hw', hv', herr⟩ := goes_begin hw hv hbound command .doc hroom
  exact ⟨hole, b', hbegin, hw', hv', herr⟩

/-- **A request goes on from a document.** -/
theorem initializeFrom_idle {b : BsonBuilder} (hb : b.Idle) (hcap : b.container.getD 0 < 2147483648)
    (hgrow : platform.GrowsWithin bound) (hbound : bound < 2147483648)
    (service command : List UInt8) (content : Elements) (more : List UInt8)
    (hsize : 100 + (document content.bytes).length ≤ bound)
    (hfits : service.length + command.length + content.bytes.length + 48 ≤ bound) :
    ∃ startHole cmdHole hole b',
      initializeFrom platform service command (document content.bytes ++ more) b = .ok b' ∧
      Writing [] 0 (((opening service startHole).push ⟨.doc, ascii "cmd", cmdHole, .nil⟩).push
        ⟨.doc, command, hole, content⟩) [] 0 b' ∧
      Roomy platform bound b' ∧ b'.errorFlag = false ∧ startHole.length = 4 := by
  obtain ⟨size, hsize'⟩ : ∃ size, size = 100 + (document content.bytes).length := ⟨_, rfl⟩
  have hlen : (document content.bytes).length < 2147483648 := by omega
  have hcontent : wrap32 (100 + toI32 ((document content.bytes ++ more).take 4)) = size := by
    have htake : (document content.bytes ++ more).take 4 = (document content.bytes).take 4 :=
      List.take_append_of_le_length (by rw [length_document]; omega)
    rw [htake, toI32_take_document hlen, hsize', wrap32_of_range (by omega) (by omega), Nat.cast_add]
    rfl
  simp only [initializeFrom, hcontent]
  rw [if_neg (Int.not_lt.mpr (Int.natCast_nonneg size)), Int.toNat_natCast]
  refine initializeWith_idle hb hcap hgrow hbound service command content (by omega) (by omega) ?_
    hfits
  intro d b hw hv hroom
  obtain ⟨hole, b', hbegin, hw', hv', herr⟩ :=
    goes_beginFrom hw hv hbound command content more hroom
  exact ⟨hole, b', hbegin, hw', hv', herr⟩

/-- The calls that succeed are those that a request makes. -/
theorem performAll_of_exec {calls : List BuilderCall} {s t : BuilderRun}
    (h : Runs.exec (BuilderRun.step platform) s calls = some t) :
    ∃ outputs, performAll platform (calls.map .call) s.builder = .ok (outputs, t.builder) := by
  induction calls generalizing s with
  | nil =>
      obtain rfl : s = t := Option.some.inj h
      exact ⟨[], rfl⟩
  | cons c calls ih =>
      obtain ⟨u, hu, hrest⟩ := Runs.exec_cons.mp h
      rw [BuilderRun.step] at hu
      split at hu
      · rename_i ok builder hperform
        obtain rfl := Option.some.inj hu
        obtain ⟨outputs, hall⟩ := ih hrest
        refine ⟨.succeeded ok :: outputs, ?_⟩
        rw [List.map_cons, performAll, BuilderOperation.perform, hperform]
        exact congrArg (Except.map _) hall
      · simp at hu

/-- **The fields of a request are added, and its documents end.** -/
theorem closeCommand_opened (hbound : bound < 2147483648) {service command startHole cmdHole hole : List UInt8}
    {content fields : Elements} {calls : List BuilderCall} {b : BsonBuilder} (cmdId : BitVec 32)
    (h : Writing [] 0 (((opening service startHole).push ⟨.doc, ascii "cmd", cmdHole, .nil⟩).push
      ⟨.doc, command, hole, content⟩) [] 0 b)
    (hv : Roomy platform bound b) (herr : b.errorFlag = false) (hstart : startHole.length = 4)
    (hkey : platform.Fills key n) (hfields : AddsFields (WrittenArray key n) calls fields)
    (hfits : (document (encoding service command (content.append fields) cmdId).bytes).length
      ≤ bound) :
    ∃ b₁ b₂, Runs.exec (BuilderRun.step platform) ⟨b, true⟩ calls = some ⟨b₁, true⟩ ∧
      Runs.Meets (BuilderRun.step platform) (BuilderRun.IndexBelow n) ⟨b, true⟩ calls ∧
      closeCommand platform cmdId b₁ = .ok b₂ ∧
      Writing [] 0 ⟨startHole, encoding service command (content.append fields) cmdId, [], []⟩ [] 0
        b₂ ∧ b₂.errorFlag = false := by
  have hhole : hole.length = 4 := h.holes.2 _ List.mem_cons_self
  have hcmdHole : cmdHole.length = 4 := h.holes.2 _ (List.mem_cons_of_mem _ List.mem_cons_self)
  have hcmd : (header Kind.doc.typeByte (ascii "cmd")).length = 5 := rfl
  rw [length_encoding, Elements.bytes_append, List.length_append] at hfits
  obtain ⟨d, hd⟩ : ∃ d, d = opening service startHole := ⟨_, rfl⟩
  have husage : d.usage [] 0 = service.length + 31 := by rw [hd, usage_opening service hstart]
  rw [← hd] at h
  obtain ⟨b₁, hexec, hmeets, h₁, hv₁, herr₁⟩ := hfields.exec hkey hbound h hv (by
    rw [Draft.usage_push, Draft.usage_push, husage, hhole, hcmdHole, hcmd, length_header,
      Elements.bytes, List.length_nil]
    dsimp only
    omega)
  -- the two documents end
  obtain ⟨b₂, hend₂, h₂, hv₂, herr₂⟩ := h₁.endDocument_added hv₁
  obtain ⟨b₃, hend₃, h₃, hv₃, herr₃⟩ := h₂.endDocument_added hv₂
  -- the last element is added
  have huser : (Elements.leaf (ascii "user-data") (.i32 cmdId) .nil).bytes.length = 15 := by
    have hascii : (ascii "user-data").length = 9 := rfl
    rw [Elements.bytes, Elements.bytes, List.append_nil, List.length_append, length_header,
      Leaf.length_bytes_i32, hascii]
  have hdocument : (Elements.sub .doc (ascii "cmd") (Elements.nil.append
      (.sub .doc command (content.append fields) .nil)) .nil).bytes.length
      = command.length + content.bytes.length + fields.bytes.length + 17 := by
    have hascii : (ascii "cmd").length = 3 := rfl
    simp only [Elements.append, Elements.bytes, Elements.bytes_append, List.append_nil,
      List.length_append, length_header, length_document, hascii]
    omega
  obtain ⟨b₄, hadd₄, h₄, -, herr₄⟩ := goes_value h₃ hv₃ hbound (ascii "user-data") (.i32 cmdId) (by
    rw [Draft.usage_add, husage, huser, hdocument]
    omega)
  have hcall₄ : b₃.docAddElement platform (ascii "user-data") (.i32 cmdId) = .ok (true, b₄) := hadd₄
  rw [hd] at h₄
  refine ⟨b₁, b₄, hexec, hmeets, ?_, h₄, by rw [herr₄, herr₃, herr₂, herr₁, herr]⟩
  simp only [closeCommand, hend₂, hend₃, hcall₄, bind, Except.bind]
  rfl

/-- **A request whose document is finished is given away.** -/
theorem giveAway_of_finish {body tail : List UInt8} {b b' : BsonBuilder}
    (hfinish : b.finish = .ok (some (0, ((document body).length : ℤ)), b'))
    (hbuf : b'.buffer = document body ++ tail) :
    giveAway b = .ok (document body, { b' with buffer := [], container := some 0 }) := by
  simp only [giveAway, hfinish, bind, Except.bind, Option.map_some, Option.getD_some]
  rw [if_neg (by omega), Int.toNat_natCast, hbuf, resize, List.take_left' rfl, List.length_append,
    Nat.sub_add_eq, Nat.sub_self, Nat.zero_sub, List.replicate_zero, List.append_nil]
  rfl

/-- **The bytes of a request** to which calls add some fields. -/
theorem finalized_eq {calls : List BuilderCall} {fields : Elements}
    (hfields : AddsFields StoredArray calls fields)
    (hgrow : platform.GrowsWithin bound) (hbound : bound < 2147483648) (hsize : 100 ≤ bound)
    (service command : List UInt8) (cmdId : BitVec 32)
    (hfits : (document (encoding service command fields cmdId).bytes).length ≤ bound) :
    finalized platform calls cmdId (initializeCommand platform service command {})
      = .ok (document (encoding service command fields cmdId).bytes) := by
  have hless : service.length + command.length + 48 ≤ bound := by
    rw [length_encoding] at hfits
    omega
  obtain ⟨startHole, cmdHole, hole, b, hinit, hw, hv, herr, hstart⟩ :=
    initializeCommand_idle (b := {}) ⟨rfl, rfl, rfl, rfl⟩ (by decide) hgrow hbound service command
      hsize hless
  obtain ⟨b₁, b₂, hexec, -, hclose, hw₂, herr₂⟩ := closeCommand_opened hbound cmdId hw hv herr hstart
    platform.fills_arrayKey hfields hfits
  obtain ⟨tail, b₃, hfinish, hbuf, -⟩ := hw₂.finish rfl herr₂
  have hfinal : finalize platform cmdId b₁
      = .ok (document (encoding service command fields cmdId).bytes,
        { b₃ with buffer := [], container := some 0 }) := by
    rw [finalize_eq, hclose]
    exact giveAway_of_finish hfinish hbuf
  obtain ⟨outputs, hall⟩ := performAll_of_exec hexec
  rw [finalized, hinit]
  simp only [bind, Except.bind, hall, hfinal, Except.map]

end Requests

end ScApi
