import ScApi.BsonCalls

/-!
# Balanced calls on a fixed buffer

A caller of the builder keeps no results: it begins and ends containers as if every call succeeded.
`follow` is the stack of open containers as the caller sees it. The builder's own stack agrees with
it as long as no call fails that begins a container: a beginning that fails pushes nothing, and the
end that belongs to it takes away the place of the container around it.

`Guarded` is the condition under which a call does what its caller expects.

## Main results

* `Balance.step`: a guarded call keeps the two stacks in agreement.
* `safeRun_of_guarded`: a balanced run of guarded calls goes to its end; the document is whole, or
  there is none.
* `not_safeRun`: without the condition an end takes from an empty stack.
-/

open Bytes Buffer Bson

namespace ScApi

namespace BuilderCall

/-- The containers that are open for the caller after the call; `none` when the call is not meant for
the container it is in. -/
def follow : List Kind → BuilderCall → Option (List Kind)
  | opened, add key _ => if opened.headD .doc = key.kind then some opened else none
  | opened, addBytes key _ _ _ => if opened.headD .doc = key.kind then some opened else none
  | opened, addSubDoc _ _ => if opened.headD .doc = .doc then some opened else none
  | opened, begin key kind => if opened.headD .doc = key.kind then some (kind :: opened) else none
  | opened, beginFrom _ _ => if opened.headD .doc = .doc then some (.doc :: opened) else none
  | kind :: opened, close kind' => if kind = kind' then some opened else none
  | [], close _ => none

/-- Each beginning is followed later by its end. -/
def Balanced (calls : List BuilderCall) : Prop :=
  Runs.exec follow [] calls = some []

/-- The bytes that are asked for the value of the element. -/
def valueSize : BuilderCall → ℕ
  | add _ v => v.bytes.length
  | addBytes _ _ byteCount _ => byteCount.toNat + 5
  | addSubDoc _ subDocument => (toI32 (subDocument.take 4)).toNat
  | begin _ _ => 5
  | beginFrom _ subDocument => (toI32 (subDocument.take 4)).toNat
  | close _ => 0

/-- The call begins a container. -/
def begins : BuilderCall → Bool
  | begin _ _ | beginFrom _ _ => true
  | _ => false

/-- The size in the arguments can be read, and is not negative. -/
def SizeGiven : BuilderCall → Prop
  | addBytes _ _ byteCount _ => 0 ≤ byteCount
  | addSubDoc _ subDocument | beginFrom _ subDocument =>
      4 ≤ subDocument.length ∧ 0 ≤ toI32 (subDocument.take 4)
  | _ => True

/-- What a caller owes for arguments that are copied: as many bytes as it says, and documents that are
ones. -/
def ProperArguments : BuilderCall → Prop
  | addBytes _ bytes byteCount _ => 0 ≤ byteCount ∧ byteCount ≤ bytes.length
  | addSubDoc _ subDocument | beginFrom _ subDocument =>
      ∃ e : Elements, e.CleanKeys ∧ subDocument = document e.bytes ∧
        subDocument.length < 2147483648
  | _ => True

end BuilderCall

/-- The key has a NUL byte at its end and nowhere else, and the index of an array element is one that
`fillArrayDocKey` supports. -/
def BuilderKey.Proper (platform : Platform) (b : BsonBuilder) (key : BuilderKey) : Prop :=
  (key.bytes platform b).dropLast ++ [0] = key.bytes platform b ∧
  0 ∉ (key.bytes platform b).dropLast ∧
  (key = .index → 0 ≤ b.arrayIdxCounters.headD 0 ∧ b.arrayIdxCounters.headD 0 < 1000000)

instance (platform : Platform) (b : BsonBuilder) (key : BuilderKey) :
    Decidable (key.Proper platform b) :=
  inferInstanceAs (Decidable (_ ∧ _ ∧ (key = .index → _ ∧ _)))

/-- The bytes that are in use when there is room for a call. -/
def BuilderCall.usageWith (platform : Platform) (b : BsonBuilder) (key : BuilderKey) (c : BuilderCall) :
    ℤ :=
  b.currentUsage + ((key.bytes platform b).length + 1 + c.valueSize : ℕ)

/-- **The condition on a call**: its size is given and its key is proper, and what it asks for is a 32-bit
number at least. If it begins a container there is room for it, and if there is room its arguments are
proper. -/
structure Guarded (platform : Platform) (s : BuilderRun) (c : BuilderCall) : Prop where
  given : c.SizeGiven
  key : ∀ key ∈ c.key, key.Proper platform s.builder
  small : ∀ key ∈ c.key, c.usageWith platform s.builder key < 2147483648
  room : c.begins = true → ∀ key ∈ c.key, c.usageWith platform s.builder key ≤ s.builder.capacity
  arguments : ∀ key ∈ c.key, c.usageWith platform s.builder key ≤ s.builder.capacity →
    c.ProperArguments

/-! ### One call -/

namespace Draft

/-- No key has a NUL byte in it. -/
structure Clean (d : Draft) : Prop where
  main : d.main.CleanKeys
  layers : ∀ l ∈ d.layers, 0 ∉ l.key ∧ l.elements.CleanKeys

variable {d : Draft}

theorem Clean.add (h : d.Clean) {e : Elements} (he : e.CleanKeys) : (d.add e).Clean := by
  obtain ⟨hmain, hlayers⟩ := h
  rcases d with ⟨hole, main, - | ⟨l, outer⟩, counters⟩
  · exact ⟨hmain.append he, hlayers⟩
  · refine ⟨hmain, fun l' hl' => ?_⟩
    rcases List.mem_cons.mp hl' with rfl | hl'
    · have hl := hlayers l List.mem_cons_self
      exact ⟨hl.1, hl.2.append he⟩
    · exact hlayers l' (List.mem_cons_of_mem _ hl')

theorem Clean.push (h : d.Clean) {l : Layer} (hkey : 0 ∉ l.key) (hl : l.elements.CleanKeys) :
    (d.push l).Clean := by
  refine ⟨h.main, fun l' hl' => ?_⟩
  rcases List.mem_cons.mp hl' with rfl | hl'
  · exact ⟨hkey, hl⟩
  · exact h.layers l' hl'

theorem Clean.pop (h : d.Clean) : d.pop.Clean := by
  obtain ⟨hmain, hlayers⟩ := h
  rcases d with ⟨hole, main, - | ⟨l, outer⟩, counters⟩
  · exact ⟨hmain, hlayers⟩
  · have hl := hlayers l List.mem_cons_self
    have hrest : ((⟨hole, main, l :: outer, counters⟩ : Draft).dropLayer l outer).Clean :=
      ⟨hmain, fun l' hl' => hlayers l' (List.mem_cons_of_mem _ hl')⟩
    exact hrest.add ⟨hl.1, hl.2, trivial⟩

theorem Clean.tick (h : d.Clean) (kind : Kind) (n : ℕ) : (d.tick kind n).Clean :=
  ⟨h.main, h.layers⟩

end Draft

namespace Writing

variable {d : Draft} {b b₁ : BsonBuilder} {platform : Platform}

/-- There is no room in a fixed buffer. -/
theorem verifyEnoughCapacity_of_lt {n : ℕ} (h : Writing [] 0 d [] 0 b) (hre : b.reallocate = false)
    (hn : b.currentUsage + n < 2147483648) (hlt : b.capacity < b.currentUsage + n) :
    b.verifyEnoughCapacity platform n = .ok (false, { b with errorFlag := true }) := by
  have husage := h.usage
  have hwrap : wrap32 (b.currentUsage + n) = b.currentUsage + n :=
    wrap32_of_range (by omega) (by omega)
  have hfixed : ¬ b.reallocate = true := by rw [hre]; exact Bool.false_ne_true
  rw [BsonBuilder.verifyEnoughCapacity, hwrap, if_neg (by omega), if_neg hfixed]
  dsimp only [bind, Except.bind, pure, Except.pure]
  rw [hwrap, if_neg (by omega)]

/-- **A key is written in a fixed buffer**, or there is no room for it. -/
theorem insert_buffer {key : BuilderKey} {k : List UInt8} {typeByte : UInt8} {size : ℕ}
    (h : Writing [] 0 d [] 0 b) (hre : b.reallocate = false) (hk : key.bytes platform b = k ++ [0])
    (hidx : key = .index → ∃ (idx : ℤ) (counters : List ℤ), d.counters = idx :: counters ∧
      0 ≤ idx ∧ idx < 2147483647)
    (hn : b.currentUsage + (size + (header typeByte k).length : ℕ) < 2147483648) :
    (b.currentUsage + (size + (header typeByte k).length : ℕ) ≤ b.capacity ∧
      ∃ b₁, key.insert platform typeByte size b = .ok (true, b₁) ∧
        Writing [] 0 (d.tick key.kind 1) (header typeByte k) size b₁ ∧ b₁.reallocate = false ∧
        b₁.errorFlag = b.errorFlag) ∨
    (b.capacity < b.currentUsage + (size + (header typeByte k).length : ℕ) ∧
      ∃ b₁, key.insert platform typeByte size b = .ok (false, b₁) ∧
        Writing [] 0 (d.tick key.kind 1) [] 0 b₁ ∧ b₁.reallocate = false ∧ b₁.errorFlag = true) := by
  obtain ⟨htaken, husage, hcap⟩ := key.taken_same b
  have hw := h.taken hidx
  have hre' := htaken.reallocate.trans hre
  rw [h.insert_eq typeByte size hk hidx]
  by_cases hle : (key.taken b).currentUsage + (size + (header typeByte k).length : ℕ)
      ≤ (key.taken b).capacity
  · obtain ⟨b₁, hb₁, hw₁, hsame⟩ := hw.insertHeader (hw.verifyEnoughCapacity_of_le hle) hle
    rw [husage, hcap] at hle
    exact .inl ⟨hle, b₁, hb₁, hw₁, hsame.reallocate.trans hre', hsame.errorFlag.trans htaken.errorFlag⟩
  · rw [husage, hcap] at hle
    have hbytes : wrap32 ((size : ℤ) + (header typeByte k).length)
        = (size + (header typeByte k).length : ℕ) := by
      have hu := h.usage
      rw [← Nat.cast_add]
      exact wrap32_natCast (by omega)
    have hfull : (key.taken b).verifyEnoughCapacity platform (size + (header typeByte k).length : ℕ)
        = .ok (false, { key.taken b with errorFlag := true }) :=
      hw.verifyEnoughCapacity_of_lt hre' (husage.symm ▸ hn) (by omega)
    refine .inr ⟨by omega, { key.taken b with errorFlag := true }, ?_, ⟨hw.buffer, hw.holes, hw.offset, hw.usage, hw.room, hw.small,
      hw.capacity, hw.stack, hw.counters, hw.arrays, hw.depth, hw.start⟩, hre', rfl⟩
    rw [BsonBuilder.insertHeader, hbytes, hfull]
    rfl

end Writing

/-- The builder and its caller agree on the containers that are open, and a call has failed if the
builder says so. -/
structure Balance (opened : List Kind) (s : BuilderRun) (d : Draft) : Prop where
  writing : Writing [] 0 d [] 0 s.builder
  fixed : s.builder.reallocate = false
  opened : d.layers.map (·.kind) = opened
  clean : d.Clean
  flag : s.builder.errorFlag = !s.succeeded

namespace Balance

variable {opened : List Kind} {s : BuilderRun} {d : Draft} {platform : Platform} {key : BuilderKey}
  {c : BuilderCall}

/-- An array that is open has a counter. -/
theorem counter (h : Balance opened s d) (hkind : opened.headD .doc = key.kind)
    (hkey : key.Proper platform s.builder) :
    key = .index → ∃ (idx : ℤ) (counters : List ℤ), d.counters = idx :: counters ∧
      0 ≤ idx ∧ idx < 2147483647 := by
  rintro rfl
  obtain ⟨-, -, hrange⟩ := hkey
  have harrays := h.writing.arrays
  have hcounters := h.writing.counters
  obtain ⟨h0, hlt⟩ := hrange rfl
  cases hopened : opened with
  | nil =>
      rw [hopened] at hkind
      exact absurd hkind (by decide)
  | cons kind rest =>
      rw [hopened] at hkind
      obtain rfl : kind = .array := hkind
      rw [Draft.arrays, h.opened, hopened] at harrays
      obtain ⟨idx, counters, hcons⟩ := List.exists_cons_of_length_eq_add_one harrays
      rw [hcounters, hcons, List.headD_cons] at h0 hlt
      exact ⟨idx, counters, hcons, h0, by omega⟩

/-- **A call that adds an element** adds it, or does nothing and fails. -/
theorem adds (h : Balance opened s d) (typeByte : UInt8) (size : ℕ) (e : List UInt8 → Elements)
    (hkind : opened.headD .doc = key.kind) (hkey : key.Proper platform s.builder)
    (hn : s.builder.currentUsage + ((key.bytes platform s.builder).length + 1 + size : ℕ)
      < 2147483648)
    (hclean : ∀ k, 0 ∉ k → (e k).CleanKeys)
    (htrue : s.builder.currentUsage + ((key.bytes platform s.builder).length + 1 + size : ℕ)
        ≤ s.builder.capacity →
      ∀ k b₁, key.insert platform typeByte size s.builder = .ok (true, b₁) →
      Writing [] 0 (d.tick key.kind 1) (header typeByte k) size b₁ →
      ∃ b', c.perform platform s.builder = .ok (true, b') ∧
        Writing [] 0 ((d.tick key.kind 1).add (e k)) [] 0 b' ∧ SameBacking b₁ b')
    (hfalse : ∀ b₁, key.insert platform typeByte size s.builder = .ok (false, b₁) →
      c.perform platform s.builder = .ok (false, b₁)) :
    ∃ t, s.step platform c = some t ∧ ∃ d', Balance opened t d' := by
  obtain ⟨hlast, hnul, -⟩ := id hkey
  obtain ⟨k, hk⟩ : ∃ k, k = (key.bytes platform s.builder).dropLast := ⟨_, rfl⟩
  rw [← hk] at hlast hnul
  have hlen : (size + (header typeByte k).length : ℕ)
      = (key.bytes platform s.builder).length + 1 + size := by
    rw [length_header, ← hlast, List.length_append, List.length_singleton]
    omega
  have hcounter := h.counter hkind hkey
  rcases h.writing.insert_buffer h.fixed hlast.symm hcounter (hlen ▸ hn)
    with ⟨hroom, b₁, hb₁, hw₁, hre₁, herr₁⟩ | ⟨-, b₁, hb₁, hw₁, hre₁, herr₁⟩
  · obtain ⟨b', hb', hw', hsame⟩ := htrue (hlen ▸ hroom) k b₁ hb₁ hw₁
    refine ⟨⟨b', s.succeeded && true⟩, by rw [BuilderRun.step, hb'], _, hw',
      hsame.reallocate.trans hre₁, ?_, (h.clean.tick _ _).add (hclean k hnul), ?_⟩
    · rw [Draft.kinds_add]
      exact h.opened
    · rw [Bool.and_true, ← h.flag, ← herr₁]
      exact hsame.errorFlag
  · refine ⟨⟨b₁, s.succeeded && false⟩, by rw [BuilderRun.step, hfalse b₁ hb₁], _, hw₁, hre₁, h.opened,
      h.clean.tick _ _, ?_⟩
    rw [Bool.and_false]
    exact herr₁

/-- **A container begins**, when there is room for it. -/
theorem begins (h : Balance opened s d) (kind : Kind) (size : ℕ)
    (hkind : opened.headD .doc = key.kind) (hkey : key.Proper platform s.builder)
    (hroom : s.builder.currentUsage + ((key.bytes platform s.builder).length + 1 + size : ℕ)
      ≤ s.builder.capacity)
    (htrue : ∀ k b₁, key.insert platform kind.typeByte size s.builder = .ok (true, b₁) →
      Writing [] 0 (d.tick key.kind 1) (header kind.typeByte k) size b₁ →
      ∃ hole e b', c.perform platform s.builder = .ok (true, b') ∧ e.CleanKeys ∧
        Writing [] 0 ((d.tick key.kind 1).push ⟨kind, k, hole, e⟩) [] 0 b' ∧
        SameBacking b₁ b') :
    ∃ t, s.step platform c = some t ∧ ∃ d', Balance (kind :: opened) t d' := by
  obtain ⟨hlast, hnul, -⟩ := id hkey
  obtain ⟨k, hk⟩ : ∃ k, k = (key.bytes platform s.builder).dropLast := ⟨_, rfl⟩
  rw [← hk] at hlast hnul
  have hlen : (size + (header kind.typeByte k).length : ℕ)
      = (key.bytes platform s.builder).length + 1 + size := by
    rw [length_header, ← hlast, List.length_append, List.length_singleton]
    omega
  have hcapacity := h.writing.capacity
  have hrange := wrap32_range s.builder.buffer.length
  have hsmall : s.builder.currentUsage + (size + (header kind.typeByte k).length : ℕ)
      < 2147483648 := by
    rw [hlen]
    omega
  rcases h.writing.insert_buffer h.fixed hlast.symm (h.counter hkind hkey) hsmall
    with ⟨-, b₁, hb₁, hw₁, hre₁, herr₁⟩ | ⟨hlt, -⟩
  · obtain ⟨hole, e, b', hb', he, hw', hsame⟩ := htrue k b₁ hb₁ hw₁
    refine ⟨⟨b', s.succeeded && true⟩, by rw [BuilderRun.step, hb'], _, hw',
      hsame.reallocate.trans hre₁, ?_, (h.clean.tick _ _).push hnul he, ?_⟩
    · exact congrArg (kind :: ·) h.opened
    · rw [Bool.and_true, ← h.flag, ← herr₁]
      exact hsame.errorFlag
  · rw [hlen] at hlt
    omega

/-- A container ends. -/
theorem closes {kind : Kind} (h : Balance (kind :: opened) s d) :
    ∃ t, s.step platform (.close kind) = some t ∧ ∃ d', Balance opened t d' := by
  obtain ⟨l, outer, hl⟩ := List.exists_cons_of_ne_nil (l := d.layers) fun hnil => by
    have hopened := h.opened
    rw [hnil] at hopened
    exact List.cons_ne_nil _ _ hopened.symm
  have hopened := h.opened
  rw [hl, List.map_cons] at hopened
  obtain ⟨rfl, hrest⟩ := List.cons.inj hopened
  obtain ⟨b', hb', hw', hsame⟩ := h.writing.close platform hl
  refine ⟨⟨b', s.succeeded && true⟩, by rw [BuilderRun.step, hb'], _, hw',
    hsame.reallocate.trans h.fixed, ?_, h.clean.pop, ?_⟩
  · rw [Draft.pop, hl]
    exact (Draft.kinds_add _ _).trans hrest
  · rw [Bool.and_true, ← h.flag]
    exact hsame.errorFlag

/-- **One guarded call.** -/
theorem step {opened' : List Kind} (h : Balance opened s d) (hf : c.follow opened = some opened')
    (hg : Guarded platform s c) :
    ∃ t, s.step platform c = some t ∧ ∃ d', Balance opened' t d' := by
  have husage := h.writing.usage
  cases c with
  | add key v =>
      obtain ⟨hkind, hopened⟩ := Option.ite_none_right_eq_some.mp hf
      obtain rfl := Option.some.inj hopened
      have hn : s.builder.currentUsage + ((key.bytes platform s.builder).length + 1 + v.bytes.length : ℕ)
        < 2147483648 := hg.small key rfl
      have hsize : (key.stored v).bytes.length < 2147483648 := by
        rw [BuilderKey.length_stored]
        omega
      refine h.adds v.typeByte v.bytes.length (fun k => .leaf k (key.stored v) .nil) hkind
        (hg.key key rfl) hn (fun k hk => ⟨hk, trivial⟩) ?_ ?_
      · intro _ k b₁ hins hw
        rw [← key.typeByte_stored v, ← key.length_stored v] at hins hw
        obtain ⟨b', hb', hw', hsame⟩ := hw.addLeaf hins
        exact ⟨b', by rw [BuilderCall.perform_add, hb'], hw', hsame⟩
      · intro b₁ hins
        rw [← key.typeByte_stored v, ← key.length_stored v] at hins
        rw [BuilderCall.perform_add, BsonBuilder.addLeaf_of_full hsize hins]
  | addBytes key bytes byteCount subtype =>
      obtain ⟨hkind, hopened⟩ := Option.ite_none_right_eq_some.mp hf
      obtain rfl := Option.some.inj hopened
      obtain ⟨n, rfl⟩ := Int.eq_ofNat_of_zero_le (show 0 ≤ byteCount from hg.given)
      have hn : s.builder.currentUsage + ((key.bytes platform s.builder).length + 1 + (n + 5) : ℕ)
        < 2147483648 := hg.small key rfl
      refine h.adds 0x05 (n + 5) (fun k => .leaf k (.binary (bytes.take n) subtype) .nil) hkind
        (hg.key key rfl) hn (fun k hk => ⟨hk, trivial⟩) ?_ ?_
      · intro hroom k b₁ hins hw
        have hle : (0 : ℤ) ≤ n ∧ (n : ℤ) ≤ bytes.length := hg.arguments key rfl hroom
        have he : (Elements.leaf k (.binary (bytes.take n) subtype) .nil).bytes
            = header 0x05 k ++ (Leaf.binary (bytes.take n) subtype).bytes := by
          rw [Elements.bytes, Elements.bytes, List.append_nil]
          rfl
        obtain ⟨b', hb', hw', hsame⟩ := hw.addBytes hins (by omega) he
        exact ⟨b', by rw [BuilderCall.perform_addBytes, hb'], hw', hsame⟩
      · intro b₁ hins
        rw [BuilderCall.perform_addBytes, BsonBuilder.addBytes_of_full (by omega) hins]
  | addSubDoc name subDocument =>
      obtain ⟨hkind, hopened⟩ := Option.ite_none_right_eq_some.mp hf
      obtain rfl := Option.some.inj hopened
      have hname : opened.headD .doc = (BuilderKey.name name).kind := hkind
      obtain ⟨-, hsize⟩ : 4 ≤ subDocument.length ∧ 0 ≤ toI32 (subDocument.take 4) := hg.given
      obtain ⟨n, hsize⟩ := Int.eq_ofNat_of_zero_le hsize
      have hvalue : (BuilderCall.addSubDoc name subDocument).valueSize = n := by
        rw [BuilderCall.valueSize, hsize, Int.toNat_natCast]
      have hn := hg.small (.name name) rfl
      rw [BuilderCall.usageWith, hvalue] at hn
      have hperform : (BuilderCall.addSubDoc name subDocument).perform platform s.builder
          = BsonBuilder.addElement ((BuilderKey.name name).insert platform 0x03 n)
            (subDocument.take n) s.builder := by
        rw [BuilderCall.perform, BsonBuilder.docAddSubDoc, hsize, if_neg (by omega), Int.toNat_natCast]
        rfl
      by_cases hroom : s.builder.currentUsage
          + (((BuilderKey.name name).bytes platform s.builder).length + 1 + n : ℕ) ≤ s.builder.capacity
      · obtain ⟨e, he, rfl, hlen⟩ : ∃ e : Elements, e.CleanKeys ∧ subDocument = document e.bytes ∧
          subDocument.length < 2147483648 :=
          hg.arguments (.name name) rfl (by rwa [BuilderCall.usageWith, hvalue])
        obtain rfl : n = (document e.bytes).length := by
          rw [toI32_take_document hlen] at hsize
          exact_mod_cast hsize.symm
        rw [List.take_length] at hperform
        refine h.adds 0x03 (document e.bytes).length (fun k => .sub .doc k e .nil) hname
          (hg.key (.name name) rfl) hn (fun k hk => ⟨hk, he, trivial⟩) ?_ ?_
        · intro _ k b₁ hins hw
          have hbytes : (Elements.sub .doc k e .nil).bytes = header 0x03 k ++ document e.bytes := by
            rw [Elements.bytes, Elements.bytes, List.append_nil]
            rfl
          obtain ⟨b', hb', hw', hsame⟩ := Writing.addElement hins hw hbytes
          exact ⟨b', by rw [hperform, hb'], hw', hsame⟩
        · intro b₁ hins
          rw [hperform, BsonBuilder.addElement_of_full hins]
      · -- without room the bytes are not looked at
        refine h.adds 0x03 n (fun _ => .nil) hname (hg.key (.name name) rfl) hn (fun _ _ => trivial)
          (fun hle => absurd hle hroom) fun b₁ hins => ?_
        rw [hperform, BsonBuilder.addElement_of_full hins]
  | begin key kind =>
      obtain ⟨hkind, hopened⟩ := Option.ite_none_right_eq_some.mp hf
      obtain rfl := Option.some.inj hopened
      refine h.begins kind 5 hkind (hg.key key rfl) (hg.room rfl key rfl) ?_
      intro k b₁ hins hw
      obtain ⟨hole, b', hb', hw', hsame⟩ := hw.beginContainer hins
      exact ⟨hole, .nil, b', by rw [BuilderCall.perform_begin]; exact hb', trivial, hw', hsame⟩
  | beginFrom name subDocument =>
      obtain ⟨hkind, hopened⟩ := Option.ite_none_right_eq_some.mp hf
      obtain rfl := Option.some.inj hopened
      have hroom := hg.room rfl (.name name) rfl
      obtain ⟨e, he, rfl, hlen⟩ : ∃ e : Elements, e.CleanKeys ∧ subDocument = document e.bytes ∧
        subDocument.length < 2147483648 := hg.arguments (.name name) rfl hroom
      rw [BuilderCall.usageWith, BuilderCall.valueSize, toI32_take_document hlen,
        Int.toNat_natCast] at hroom
      have hname : opened.headD .doc = (BuilderKey.name name).kind := hkind
      refine h.begins .doc (document e.bytes).length hname (hg.key (.name name) rfl) hroom ?_
      intro k b₁ hins hw
      obtain ⟨hole, b', hb', hw', hsame⟩ := hw.docBeginSubDocFrom hlen hins
      exact ⟨hole, e, b', hb', he, hw', hsame⟩
  | close kind =>
      cases opened with
      | nil => exact absurd hf (by simp [BuilderCall.follow])
      | cons kind' opened =>
          obtain ⟨rfl, hopened⟩ := Option.ite_none_right_eq_some.mp hf
          obtain rfl := Option.some.inj hopened
          exact h.closes

end Balance

/-! ### Runs -/

/-- A builder that was given a buffer. -/
def BuilderRun.start (buffer : List UInt8) : BuilderRun :=
  ⟨BsonBuilder.initializeBuffer buffer {}, true⟩

theorem balance_start {buffer : List UInt8} (h : 5 ≤ buffer.length) :
    Balance [] (BuilderRun.start buffer) ⟨buffer.take 4, .nil, [], []⟩ :=
  ⟨writing_initializeBuffer h, rfl, rfl, ⟨trivial, fun _ hl => absurd hl List.not_mem_nil⟩, rfl⟩

/-- The run goes to its end: no end takes from an empty stack, and nothing is written outside the
buffer. There is a document if every call has succeeded, and there is none otherwise. -/
def SafeRun (platform : Platform) (buffer : List UInt8) (calls : List BuilderCall) : Prop :=
  ∃ s, Runs.exec (BuilderRun.step platform) (BuilderRun.start buffer) calls = some s ∧
    (s.succeeded = true → ∃ (e : Elements) (b : BsonBuilder), e.CleanKeys ∧
      s.builder.finish = .ok (some (0, ((document e.bytes).length : ℤ)), b) ∧
      b.buffer.take (document e.bytes).length = document e.bytes) ∧
    (s.succeeded = false → s.builder.finish = .ok (none, s.builder))

/-- **A balanced run of guarded calls is safe.** -/
theorem safeRun_of_guarded {platform : Platform} {buffer : List UInt8} (hbuffer : 5 ≤ buffer.length)
    {calls : List BuilderCall} (hbalanced : BuilderCall.Balanced calls)
    (hguarded : Runs.Meets (BuilderRun.step platform) (Guarded platform) (BuilderRun.start buffer)
      calls) : SafeRun platform buffer calls := by
  have hstep : ∀ {opened opened' : List Kind} {s : BuilderRun} {c : BuilderCall},
      (∃ d, Balance opened s d) → BuilderCall.follow opened c = some opened' →
      Guarded platform s c →
      ∃ t, BuilderRun.step platform s c = some t ∧ ∃ d, Balance opened' t d :=
    fun ⟨_, hd⟩ hf hg => hd.step hf hg
  obtain ⟨s, hexec, d, hd⟩ := hguarded.progress hstep ⟨_, balance_start hbuffer⟩ hbalanced
  have hlayers : d.layers = [] := List.map_eq_nil_iff.mp hd.opened
  refine ⟨s, hexec, fun hsucceeded => ?_, fun hfailed => ?_⟩
  · obtain ⟨tail, b, hfinish, hbuf, -⟩ := hd.writing.finish hlayers
      (by rw [hd.flag, hsucceeded]; rfl)
    refine ⟨d.main, b, hd.clean.main, hfinish, ?_⟩
    rw [hbuf, List.nil_append, List.take_left' rfl]
  · exact hd.writing.finish_none (.inr (by rw [hd.flag, hfailed]; rfl))

/-- An array in a buffer of 24 bytes, to which a number is added. There is no room for a string, nor for
twenty bytes, of which one is there. -/
theorem safeRun_array :
    SafeRun Platform.tight (List.replicate 24 0)
      [.begin (.name [97]) .array, .add .index (.i32 7), .add .index (.string [98, 99, 100]),
        .addBytes .index [1] 20 0, .close .array] := by
  have hguarded : ∀ (s : BuilderRun) (c : BuilderCall), c.SizeGiven →
      ((∀ key ∈ c.key, key.Proper .tight s.builder) ∧
        (∀ key ∈ c.key, c.usageWith .tight s.builder key < 2147483648) ∧
        (c.begins = true → ∀ key ∈ c.key, c.usageWith .tight s.builder key ≤ s.builder.capacity)) →
      (∀ key ∈ c.key, c.usageWith .tight s.builder key ≤ s.builder.capacity → c.ProperArguments) →
      Guarded .tight s c := fun _ _ hgiven h hargs => ⟨hgiven, h.1, h.2.1, h.2.2, hargs⟩
  refine safeRun_of_guarded (by decide) rfl ?_
  refine Runs.Meets.cons rfl (hguarded _ _ trivial (by decide +kernel) fun _ _ _ => trivial) ?_
  refine Runs.Meets.cons rfl (hguarded _ _ trivial (by decide +kernel) fun _ _ _ => trivial) ?_
  refine Runs.Meets.cons rfl (hguarded _ _ trivial (by decide +kernel) fun _ _ _ => trivial) ?_
  refine Runs.Meets.cons rfl (hguarded _ _ (show (0 : ℤ) ≤ 20 by decide) (by decide +kernel) ?_) ?_
  · intro key hkey hroom
    obtain rfl : BuilderKey.index = key := Option.some.inj hkey
    exact absurd hroom (by decide +kernel)
  · exact Runs.Meets.cons rfl (hguarded _ _ trivial (by decide +kernel) fun _ _ _ => trivial) trivial

/-- **A beginning without room**: there is none for a document in a buffer of seven bytes. Nothing is
open when its end is called. -/
theorem not_safeRun :
    ¬ ∀ (platform : Platform) (buffer : List UInt8) (calls : List BuilderCall),
      5 ≤ buffer.length → buffer.length < 4294967296 → BuilderCall.Balanced calls →
      SafeRun platform buffer calls := by
  intro h
  obtain ⟨s, hexec, -⟩ := h Platform.tight (List.replicate 7 0)
    [.begin (.name [97]) .doc, .close .doc] (by decide) (by decide) rfl
  have hstop : Runs.exec (BuilderRun.step Platform.tight) (BuilderRun.start (List.replicate 7 0))
      [.begin (.name [97]) .doc, .close .doc] = none := by
    decide +kernel
  rw [hstop] at hexec
  exact absurd hexec (by simp)

end ScApi
