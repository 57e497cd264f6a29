import ScApi.BsonCalls

/-!
# Trees of elements

A tree of elements is built by the calls that go through it from left to right. Each of them finds
room, in a vector that grows or in a buffer that is large enough. What lies there at the end is the
tree again, with the keys of array elements replaced by their indices.

## Main results

* `Writing.verify_roomy`: there is room for what fits into the bound.
* `Writing.exec_callsOf`: the calls for a tree succeed and add the tree to the draft.
* `buildsInVector_of_documentsOnly`: trees of documents are built in a vector.
-/

open Bytes Buffer Bson

namespace ScApi

/-- Room for at most `bound` elements takes a vector to less than 2³¹ of them. -/
def Platform.GrowsWithin (platform : Platform) (bound : ℕ) : Prop :=
  ∀ c n, c < n → n ≤ bound → platform.grow c n < 2147483648

/-- A builder writes into a vector. -/
structure OnVector (b : BsonBuilder) : Prop where
  container : ∃ capacity, b.container = some capacity ∧ b.buffer.length ≤ capacity ∧
    capacity < 2147483648
  reallocate : b.reallocate = true

theorem OnVector.same {b b' : BsonBuilder} (h : OnVector b) (hs : SameBacking b b') :
    OnVector b' := by
  obtain ⟨capacity, hcap, hle, hlt⟩ := h.container
  exact ⟨⟨capacity, hs.container.trans hcap, hs.length.le.trans hle, hlt⟩,
    hs.reallocate.trans h.reallocate⟩

/-- There is room for `bound` bytes: a vector grows, or the buffer has them. -/
def Roomy (platform : Platform) (bound : ℕ) (b : BsonBuilder) : Prop :=
  OnVector b ∧ platform.GrowsWithin bound ∨
    b.reallocate = false ∧ bound ≤ b.buffer.length ∧ b.buffer.length < 2147483648

theorem Roomy.same {platform : Platform} {bound : ℕ} {b b' : BsonBuilder}
    (h : Roomy platform bound b) (hs : SameBacking b b') : Roomy platform bound b' := by
  rcases h with ⟨hv, hgrow⟩ | ⟨hre, hle, hlt⟩
  · exact .inl ⟨hv.same hs, hgrow⟩
  · rw [← hs.length] at hle hlt
    exact .inr ⟨hs.reallocate.trans hre, hle, hlt⟩

namespace Writing

variable {front : List UInt8} {footer bound : ℕ} {d : Draft} {b b₁ : BsonBuilder}
  {platform : Platform}

/-- More room behind what is written changes nothing. -/
theorem extend (h : Writing front footer d [] 0 b) (more : List UInt8) (container : Option ℕ) :
    Writing front footer d [] 0 { b with
      buffer := b.buffer ++ more
      container
      capacity := wrap32 (b.buffer ++ more).length } := by
  obtain ⟨tail, hbuf⟩ := h.buffer
  refine ⟨⟨tail ++ more, ?_⟩, h.holes, h.offset, h.usage, ?_, h.small, rfl, h.stack, h.counters,
    h.arrays, h.depth, h.start⟩
  · show b.buffer ++ more = _
    rw [hbuf, List.append_assoc _ tail]
  · refine h.room.trans ?_
    show b.buffer.length ≤ (b.buffer ++ more).length
    rw [List.length_append]
    exact Nat.le_add_right _ _

/-- A vector with less room than is needed gets it. -/
theorem reallocate_vector {needed : ℕ} (h : Writing front footer d [] 0 b) (hv : OnVector b)
    (hgrow : platform.GrowsWithin bound) (hle : needed ≤ bound) :
    ∃ b₁, b.reallocateTo platform needed = .ok b₁ ∧ Writing front footer d [] 0 b₁ ∧ OnVector b₁ ∧
      needed ≤ b₁.capacity ∧ b₁.currentUsage = b.currentUsage ∧ b₁.errorFlag = b.errorFlag := by
  obtain ⟨capacity, hcap, hlen, hlt⟩ := hv.container
  obtain ⟨capacity', hcap', hge, hneeded, hlt'⟩ : ∃ capacity',
      (if needed ≤ capacity then capacity else platform.grow capacity needed) = capacity' ∧
      capacity ≤ capacity' ∧ needed ≤ capacity' ∧ capacity' < 2147483648 := by
    by_cases hn : needed ≤ capacity
    · exact ⟨capacity, if_pos hn, le_rfl, hn, hlt⟩
    · have hgrown := platform.le_grow capacity needed
      exact ⟨_, if_neg hn, by omega, hgrown, hgrow capacity needed (by omega) hle⟩
  have hresize : resize 0 b.buffer capacity'
      = b.buffer ++ List.replicate (capacity' - b.buffer.length) 0 :=
    resize_of_length_le (hlen.trans hge)
  have hlength : (b.buffer ++ List.replicate (capacity' - b.buffer.length) (0 : UInt8)).length
      = capacity' := by
    rw [← hresize, length_resize]
  have hw := h.extend (List.replicate (capacity' - b.buffer.length) 0) (some capacity')
  rw [hlength, ← hresize] at hw
  refine ⟨_, ?_, hw, ⟨⟨capacity', rfl, (length_resize _ _ _).le, hlt'⟩, hv.reallocate⟩, ?_, rfl, rfl⟩
  · rw [BsonBuilder.reallocateTo, hcap]
    dsimp only
    rw [if_neg (by omega), Int.toNat_natCast, hcap']
    rfl
  · rw [wrap32_natCast hlt']
    exact Int.ofNat_le.mpr hneeded

/-- **There is always room**, for what fits into the bound. -/
theorem verify_roomy {n : ℕ} (h : Writing front footer d [] 0 b) (hv : Roomy platform bound b)
    (hn : b.currentUsage + n ≤ bound) (hbound : bound < 2147483648) :
    ∃ b₁, b.verifyEnoughCapacity platform n = .ok (true, b₁) ∧ Writing front footer d [] 0 b₁ ∧
      Roomy platform bound b₁ ∧ b₁.currentUsage + n ≤ b₁.capacity ∧
      b₁.errorFlag = b.errorFlag := by
  by_cases hle : b.currentUsage + n ≤ b.capacity
  · exact ⟨b, h.verifyEnoughCapacity_of_le hle, h, hv, hle, rfl⟩
  obtain ⟨needed, hneeded⟩ : ∃ needed : ℕ, b.currentUsage + n = needed :=
    ⟨_, by rw [h.usage, ← Nat.cast_add]⟩
  rw [hneeded] at hn hle
  rcases hv with ⟨hv, hgrow⟩ | ⟨-, hlen, hlt⟩
  · obtain ⟨b₁, hre, hw, hv₁, hge, husage, herr⟩ :=
      h.reallocate_vector hv hgrow (Int.ofNat_le.mp hn)
    have hwrap : wrap32 (needed : ℤ) = needed := wrap32_natCast (by omega)
    refine ⟨b₁, ?_, hw, .inl ⟨hv₁, hgrow⟩, by rw [husage, hneeded]; exact hge, herr⟩
    rw [BsonBuilder.verifyEnoughCapacity, hneeded, hwrap, if_neg hle, if_pos hv.reallocate, hre]
    dsimp only [bind, Except.bind]
    rw [husage, hneeded, hwrap, if_pos hge]
    rfl
  · rw [h.capacity, wrap32_natCast hlt] at hle
    omega

/-- **A key is written.** -/
theorem insert_roomy {key : BuilderKey} {k : List UInt8} {typeByte : UInt8} {size : ℕ}
    (h : Writing front footer d [] 0 b) (hv : Roomy platform bound b)
    (hbound : bound < 2147483648) (hk : key.bytes platform b = k ++ [0])
    (hidx : key = .index → ∃ (idx : ℤ) (counters : List ℤ), d.counters = idx :: counters ∧
      0 ≤ idx ∧ idx < 2147483647)
    (hn : b.currentUsage + (size + (header typeByte k).length : ℕ) ≤ bound) :
    ∃ b₁, key.insert platform typeByte size b = .ok (true, b₁) ∧
      Writing front footer (d.tick key.kind 1) (header typeByte k) size b₁ ∧ Roomy platform bound b₁ ∧
      b₁.errorFlag = b.errorFlag := by
  obtain ⟨htaken, husage, -⟩ := key.taken_same b
  obtain ⟨b₁, hverify, hw, hv₁, hcap, herr₁⟩ :=
    (h.taken hidx).verify_roomy (hv.same htaken) (husage.symm ▸ hn) hbound
  obtain ⟨b', hb', hw', hsame⟩ := hw.insertHeader hverify hcap
  refine ⟨b', ?_, hw', hv₁.same hsame,
    hsame.errorFlag.trans (herr₁.trans htaken.errorFlag)⟩
  rw [h.insert_eq typeByte size hk hidx, hb']

end Writing

/-! ### Trees -/

/-- The key with which an element is added to a container. -/
def keyIn (name : List UInt8) : Kind → BuilderKey
  | .doc => .name name
  | .array => .index

/-- The decimal digits of an index. -/
def arrayKey (idx : ℕ) : List UInt8 :=
  (Nat.toDigits 10 idx).map fun c => UInt8.ofNat c.toNat

/-- The calls that add some elements to a container. -/
def callsOf (kind : Kind) : Elements → List BuilderCall
  | .nil => []
  | .leaf name v rest => .add (keyIn name kind) v :: callsOf kind rest
  | .sub kind' name body rest =>
      .begin (keyIn name kind) kind' :: (callsOf kind' body ++ .close kind' :: callsOf kind rest)

/-- The key of an element in a container. -/
def keyFor (name : List UInt8) (idx : ℕ) : Kind → List UInt8
  | .doc => name
  | .array => arrayKey idx

/-- The same where an index has some other key. -/
def keyBy (key : ℕ → List UInt8) (name : List UInt8) (idx : ℕ) : Kind → List UInt8
  | .doc => name
  | .array => key idx

/-- What comes to lie in the buffer for some elements that are added to a container behind `idx`
others. -/
def stored (kind : Kind) : ℕ → Elements → Elements
  | _, .nil => .nil
  | idx, .leaf name v rest =>
      .leaf (keyFor name idx kind) ((keyIn name kind).stored v) (stored kind (idx + 1) rest)
  | idx, .sub kind' name body rest =>
      .sub kind' (keyFor name idx kind) (stored kind' 0 body) (stored kind (idx + 1) rest)

/-- The same with the keys that indices really get. -/
def storedBy (key : ℕ → List UInt8) (kind : Kind) : ℕ → Elements → Elements
  | _, .nil => .nil
  | idx, .leaf name v rest =>
      .leaf (keyBy key name idx kind) ((keyIn name kind).stored v) (storedBy key kind (idx + 1) rest)
  | idx, .sub kind' name body rest =>
      .sub kind' (keyBy key name idx kind) (storedBy key kind' 0 body)
        (storedBy key kind (idx + 1) rest)

theorem storedBy_arrayKey (kind : Kind) (idx : ℕ) (els : Elements) :
    storedBy arrayKey kind idx els = stored kind idx els := by
  induction els generalizing kind idx with
  | nil => rfl
  | leaf name v rest ih =>
      rw [storedBy, stored, ih]
      cases kind <;> rfl
  | sub kind' name body rest ihbody ihrest =>
      rw [storedBy, stored, ihbody, ihrest]
      cases kind <;> rfl

/-- No array has more than `n` elements, counting `idx` in front of these. -/
def ArraysWithin (n : ℕ) (kind : Kind) : ℕ → Elements → Prop
  | _, .nil => True
  | idx, .leaf _ _ rest => (kind = .array → idx < n) ∧ ArraysWithin n kind (idx + 1) rest
  | idx, .sub kind' _ body rest =>
      (kind = .array → idx < n) ∧ ArraysWithin n kind' 0 body ∧ ArraysWithin n kind (idx + 1) rest

/-- No array has more than a hundred elements, counting `idx` in front of these. -/
def ShortArrays (kind : Kind) : ℕ → Elements → Prop
  | _, .nil => True
  | idx, .leaf _ _ rest => (kind = .array → idx < 100) ∧ ShortArrays kind (idx + 1) rest
  | idx, .sub kind' _ body rest =>
      (kind = .array → idx < 100) ∧ ShortArrays kind' 0 body ∧ ShortArrays kind (idx + 1) rest

theorem ShortArrays.within {kind : Kind} {idx : ℕ} {els : Elements} (h : ShortArrays kind idx els) :
    ArraysWithin 100 kind idx els := by
  induction els generalizing kind idx with
  | nil => exact trivial
  | leaf name v rest ih => exact ⟨h.1, ih h.2⟩
  | sub kind' name body rest ihbody ihrest => exact ⟨h.1, ihbody h.2.1, ihrest h.2.2⟩

/-- **The key of an array element** is its index in decimal, up to a hundred elements. -/
theorem fillArrayDocKey_eq {idx : ℕ} (h : idx < 100) (buf : List UInt8) :
    BsonBuilder.fillArrayDocKey buf idx = arrayKey idx ++ [0] := by
  have hdigits : ∀ i : Fin 100,
      (if (i : ℤ) < 10 then [UInt8.ofNat ((48 + (i : ℤ)) % 256).toNat, 0]
        else BsonBuilder.digits2 i ++ [0]) = arrayKey i ++ [0] := by
    decide +kernel
  rw [BsonBuilder.fillArrayDocKey, if_pos (by omega : (idx : ℤ) < 100)]
  exact hdigits ⟨idx, h⟩

/-- Whatever `key_buffer` holds, an index that is less than `n` is filled in as some key. -/
structure Platform.Fills (platform : Platform) (key : ℕ → List UInt8) (n : ℕ) : Prop where
  small : n ≤ 2147483647
  fills : ∀ (b : BsonBuilder) (idx : ℕ), idx < n →
    BsonBuilder.fillArrayDocKey (platform.keyBuffer b) idx = key idx ++ [0]

/-- **The first hundred indices** are filled in as they are. -/
theorem Platform.fills_arrayKey (platform : Platform) : platform.Fills arrayKey 100 :=
  ⟨by decide, fun _ _ h => fillArrayDocKey_eq h _⟩

/-- There is no NUL byte in an index. -/
theorem zero_notMem_arrayKey (idx : ℕ) : 0 ∉ arrayKey idx := by
  intro h
  obtain ⟨c, hc, hzero⟩ := List.mem_map.mp h
  have hdigit := Nat.isDigit_of_mem_toDigits (by omega) (by omega) hc
  rw [Char.isDigit, Bool.and_eq_true, decide_eq_true_eq, decide_eq_true_eq] at hdigit
  have hlo : 48 ≤ c.toNat := UInt32.le_iff_toNat_le.mp hdigit.1
  have hhi : c.toNat ≤ 57 := UInt32.le_iff_toNat_le.mp hdigit.2
  have hmod : c.toNat % 256 = 0 := by
    rw [← UInt8.toNat_ofNat', hzero]
    rfl
  omega

@[simp] theorem kind_keyIn (name : List UInt8) (kind : Kind) : (keyIn name kind).kind = kind := by
  cases kind <;> rfl

/-- The bytes that are promised: for the draft, the terminators and the footer. -/
def Draft.usage (front : List UInt8) (footer : ℕ) (d : Draft) : ℕ :=
  (d.spine front).length + d.layers.length + 1 + footer

namespace Draft

variable (front : List UInt8) (footer n : ℕ) (d : Draft) (e : Elements) (l : Layer) (kind : Kind)

@[simp] theorem usage_add : (d.add e).usage front footer = d.usage front footer + e.bytes.length := by
  rw [usage, usage, spine_add, length_layers_add, List.length_append]
  omega

@[simp] theorem usage_tick : (d.tick kind n).usage front footer = d.usage front footer := rfl

theorem usage_push : (d.push l).usage front footer = d.usage front footer
    + ((header l.kind.typeByte l.key).length + l.hole.length + l.elements.bytes.length + 1) := by
  have hlayers : (d.push l).layers.length = d.layers.length + 1 := rfl
  rw [usage, usage, spine_push, hlayers, List.length_append, List.length_append, List.length_append]
  omega

end Draft

theorem Writing.usage_eq {front : List UInt8} {footer : ℕ} {d : Draft} {b : BsonBuilder}
    (h : Writing front footer d [] 0 b) : b.currentUsage = d.usage front footer := by
  rw [h.usage, List.append_nil]
  rfl

theorem BuilderRun.step_eq {platform : Platform} {c : BuilderCall} {b b' : BsonBuilder} {ok : Bool}
    (h : c.perform platform b = .ok (true, b')) :
    BuilderRun.step platform ⟨b, ok⟩ c = some ⟨b', ok⟩ := by
  rw [step, h]
  simp only [Bool.and_true]

namespace Writing

variable {front : List UInt8} {footer bound n : ℕ} {d : Draft} {b : BsonBuilder}
  {platform : Platform} {key : ℕ → List UInt8}

/-- The key of the next element of a container. -/
theorem bytes_keyIn {kind : Kind} {idx : ℕ} (h : Writing front footer d [] 0 b) (name : List UInt8)
    (hkind : kind = .array → ∃ counters, d.counters = (idx : ℤ) :: counters)
    (hkey : platform.Fills key n) (hidx : kind = .array → idx < n) :
    (keyIn name kind).bytes platform b = keyBy key name idx kind ++ [0] := by
  cases kind with
  | doc => rfl
  | array =>
      obtain ⟨counters, hcons⟩ := hkind rfl
      rw [keyIn, BuilderKey.bytes, h.counters, hcons, List.headD_cons, hkey.fills b idx (hidx rfl)]
      rfl

/-- **The key of the next element is written.** -/
theorem insert_keyIn {kind : Kind} {idx : ℕ} (h : Writing front footer d [] 0 b) (hv : Roomy platform bound b)
    (hbound : bound < 2147483648) (name : List UInt8)
    (hkind : kind = .array → ∃ counters, d.counters = (idx : ℤ) :: counters)
    (hkey : platform.Fills key n) (hidx : kind = .array → idx < n) (typeByte : UInt8) (size : ℕ)
    (hfits : d.usage front footer + ((header typeByte (keyBy key name idx kind)).length + size)
      ≤ bound) :
    ∃ b₁, (keyIn name kind).insert platform typeByte size b = .ok (true, b₁) ∧
      Writing front footer (d.tick kind 1) (header typeByte (keyBy key name idx kind)) size b₁ ∧
      Roomy platform bound b₁ ∧ b₁.errorFlag = b.errorFlag := by
  have hsmall := hkey.small
  have hcounter : keyIn name kind = .index → ∃ (i : ℤ) (counters : List ℤ),
      d.counters = i :: counters ∧ 0 ≤ i ∧ i < 2147483647 := by
    intro hindex
    have harray : kind = .array := by rw [← kind_keyIn name kind, hindex]; rfl
    obtain ⟨counters, hcons⟩ := hkind harray
    have hlt := hidx harray
    exact ⟨idx, counters, hcons, by omega, by omega⟩
  have hroom : b.currentUsage + (size + (header typeByte (keyBy key name idx kind)).length : ℕ)
      ≤ bound := by
    rw [h.usage_eq]
    omega
  have hinsert := h.insert_roomy hv hbound (h.bytes_keyIn name hkind hkey hidx) hcounter hroom
  rwa [kind_keyIn] at hinsert

/-- The index of the next element is less than `n`. -/
theorem indexBelow_keyIn {kind : Kind} {idx : ℕ} {c : BuilderCall} {ok : Bool}
    (h : Writing front footer d [] 0 b)
    (hkind : kind = .array → ∃ counters, d.counters = (idx : ℤ) :: counters)
    (hidx : kind = .array → idx < n) {name : List UInt8} (hc : c.key = some (keyIn name kind)) :
    BuilderRun.IndexBelow n ⟨b, ok⟩ c := by
  intro hindex
  have harray : kind = .array := by
    rw [← kind_keyIn name kind, Option.some.inj (hc.symm.trans hindex)]
    rfl
  obtain ⟨counters, hcons⟩ := hkind harray
  exact ⟨idx, counters, h.counters.trans hcons, hidx harray⟩

/-- **The name of the next field is written.** -/
theorem insert_field (h : Writing front footer d [] 0 b) (hv : Roomy platform bound b)
    (hbound : bound < 2147483648) (name : List UInt8) (typeByte : UInt8) (size : ℕ)
    (hfits : d.usage front footer + ((header typeByte name).length + size) ≤ bound) :
    ∃ b₁, b.verifyCapacityAndInsertKey platform typeByte name size = .ok (true, b₁) ∧
      Writing front footer d (header typeByte name) size b₁ ∧ Roomy platform bound b₁ ∧
      b₁.errorFlag = b.errorFlag := by
  have hkind : Kind.doc = .array → ∃ counters, d.counters = ((0 : ℕ) : ℤ) :: counters := nofun
  exact h.insert_keyIn hv hbound name hkind platform.fills_arrayKey nofun typeByte size hfits

/-- The array goes on with the next index. -/
theorem counters_tick {kind : Kind} {idx : ℕ}
    (hkind : kind = .array → ∃ counters, d.counters = (idx : ℤ) :: counters) :
    kind = .array → ∃ counters, (d.tick kind 1).counters = ((idx + 1 : ℕ) : ℤ) :: counters := by
  rintro rfl
  obtain ⟨counters, hcons⟩ := hkind rfl
  exact ⟨counters, by simp only [Draft.tick, hcons, Nat.cast_add]⟩

/-- **The calls for a tree succeed**, and add the tree to the draft, with the keys that the indices
get. -/
theorem exec_callsBy (hbound : bound < 2147483648) (hkey : platform.Fills key n) (els : Elements)
    (ok : Bool) {kind : Kind} {idx : ℕ} (h : Writing front footer d [] 0 b)
    (hv : Roomy platform bound b) (hkind : kind = .array → ∃ counters, d.counters = (idx : ℤ) :: counters)
    (hwithin : ArraysWithin n kind idx els)
    (hfits : d.usage front footer + (storedBy key kind idx els).bytes.length ≤ bound) :
    ∃ b', Runs.exec (BuilderRun.step platform) ⟨b, ok⟩ (callsOf kind els) = some ⟨b', ok⟩ ∧
      Runs.Meets (BuilderRun.step platform) (BuilderRun.IndexBelow n) ⟨b, ok⟩ (callsOf kind els) ∧
      Writing front footer ((d.add (storedBy key kind idx els)).tick kind els.length) [] 0 b' ∧
      Roomy platform bound b' ∧ b'.errorFlag = b.errorFlag := by
  induction els generalizing kind idx d b with
  | nil =>
      refine ⟨b, rfl, trivial, ?_, hv, rfl⟩
      rw [storedBy, Draft.add_nil, Elements.length, Draft.tick_zero]
      exact h
  | leaf name v rest ih =>
      obtain ⟨hidx, hrest⟩ := hwithin
      obtain ⟨k, hk⟩ : ∃ k, k = keyBy key name idx kind := ⟨_, rfl⟩
      obtain ⟨w, hw⟩ : ∃ w, w = (keyIn name kind).stored v := ⟨_, rfl⟩
      rw [storedBy, ← hk, ← hw] at hfits ⊢
      rw [Elements.bytes, List.length_append, List.length_append] at hfits
      obtain ⟨b₁, hinsert, hw₁, hv₁, herr₁⟩ := h.insert_keyIn hv hbound name hkind hkey hidx
        w.typeByte w.bytes.length (by rw [← hk]; omega)
      rw [← hk] at hw₁
      obtain ⟨b₂, hadd, hw₂, hsame⟩ := addLeaf hinsert hw₁
      have hfits₂ : ((d.tick kind 1).add (.leaf k w .nil)).usage front footer
          + (storedBy key kind (idx + 1) rest).bytes.length ≤ bound := by
        rw [Draft.usage_add, Draft.usage_tick, Elements.bytes, Elements.bytes, List.append_nil,
          List.length_append]
        omega
      have hkind₂ := counters_tick hkind
      rw [← Draft.counters_add (.leaf k w .nil)] at hkind₂
      obtain ⟨b', hexec, hmeets, hw', hv', herr'⟩ := ih hw₂ (hv₁.same hsame) hkind₂ hrest hfits₂
      have hstep : BuilderRun.step platform ⟨b, ok⟩ (.add (keyIn name kind) v) = some ⟨b₂, ok⟩ := by
        refine BuilderRun.step_eq ?_
        rw [BuilderCall.perform_add, ← hw]
        exact hadd
      refine ⟨b', Runs.exec_cons.mpr ⟨_, hstep, hexec⟩,
        .cons hstep (h.indexBelow_keyIn hkind hidx rfl) hmeets, ?_, hv',
        herr'.trans (hsame.errorFlag.trans herr₁)⟩
      rw [Draft.tick_add, Draft.tick_add, Draft.tick_tick, Draft.add_add, Nat.add_comm] at hw'
      exact hw'
  | sub kind' name body rest ihbody ihrest =>
      obtain ⟨hidx, hbodyWithin, hrest⟩ := hwithin
      obtain ⟨k, hk⟩ : ∃ k, k = keyBy key name idx kind := ⟨_, rfl⟩
      obtain ⟨body', hbody⟩ : ∃ body', body' = storedBy key kind' 0 body := ⟨_, rfl⟩
      rw [storedBy, ← hk, ← hbody] at hfits ⊢
      rw [Elements.bytes, List.length_append, List.length_append, length_document] at hfits
      -- the container is opened
      obtain ⟨b₁, hinsert, hw₁, hv₁, herr₁⟩ := h.insert_keyIn hv hbound name hkind hkey hidx
        kind'.typeByte 5 (by rw [← hk]; omega)
      rw [← hk] at hw₁
      obtain ⟨hole, b₂, hbegin, hw₂, hsame₂⟩ := beginContainer hinsert hw₁
      -- its elements are added
      have hhole : hole.length = 4 := hw₂.holes.2 _ List.mem_cons_self
      have hkind₂ : kind' = .array → ∃ counters,
          ((d.tick kind 1).push ⟨kind', k, hole, .nil⟩).counters = ((0 : ℕ) : ℤ) :: counters := by
        rintro rfl
        exact ⟨_, rfl⟩
      have hfits₂ : ((d.tick kind 1).push ⟨kind', k, hole, .nil⟩).usage front footer
          + (storedBy key kind' 0 body).bytes.length ≤ bound := by
        rw [Draft.usage_push, Draft.usage_tick, Elements.bytes, List.length_nil, hhole, ← hbody]
        dsimp only
        omega
      obtain ⟨b₃, hexec₃, hmeets₃, hw₃, hv₃, herr₃⟩ :=
        ihbody hw₂ (hv₁.same hsame₂) hkind₂ hbodyWithin hfits₂
      -- it is closed
      have hlayers : (((d.tick kind 1).push ⟨kind', k, hole, .nil⟩).add body').layers
          = ⟨kind', k, hole, body'⟩ :: d.layers := rfl
      rw [← hbody] at hw₃
      obtain ⟨b₄, hclose, hw₄, hsame₄⟩ := hw₃.close platform hlayers
      rw [Draft.pop_push] at hw₄
      -- the rest is added
      have hfits₄ : ((d.tick kind 1).add (.sub kind' k body' .nil)).usage front footer
          + (storedBy key kind (idx + 1) rest).bytes.length ≤ bound := by
        rw [Draft.usage_add, Draft.usage_tick, Elements.bytes, Elements.bytes, List.append_nil,
          List.length_append, length_document]
        omega
      have hkind₄ := counters_tick hkind
      rw [← Draft.counters_add (.sub kind' k body' .nil)] at hkind₄
      obtain ⟨b', hexec, hmeets, hw', hv', herr'⟩ := ihrest hw₄ (hv₃.same hsame₄) hkind₄ hrest hfits₄
      have hstep : BuilderRun.step platform ⟨b, ok⟩ (.begin (keyIn name kind) kind')
          = some ⟨b₂, ok⟩ := by
        refine BuilderRun.step_eq ?_
        rw [BuilderCall.perform_begin]
        exact hbegin
      have hended : BuilderRun.step platform ⟨_, ok⟩ _ = some ⟨_, ok⟩ := BuilderRun.step_eq hclose
      refine ⟨b', ?_, ?_, ?_, hv', ?_⟩
      · exact Runs.exec_cons.mpr ⟨_, hstep, Runs.exec_append.mpr
          ⟨_, hexec₃, Runs.exec_cons.mpr ⟨_, hended, hexec⟩⟩⟩
      · refine .cons hstep (h.indexBelow_keyIn hkind hidx rfl) ?_
        exact (Runs.meets_append hexec₃).mpr ⟨hmeets₃, .cons hended (.of_key (by simp [BuilderCall.key])) hmeets⟩
      · rw [Draft.tick_add, Draft.tick_add, Draft.tick_tick, Draft.add_add, Nat.add_comm] at hw'
        exact hw'
      · rw [herr', hsame₄.errorFlag, herr₃, hsame₂.errorFlag, herr₁]

/-- **The calls for a tree whose arrays are short.** -/
theorem exec_callsOf (hbound : bound < 2147483648) (els : Elements) (ok : Bool) {kind : Kind}
    {idx : ℕ} (h : Writing front footer d [] 0 b) (hv : Roomy platform bound b)
    (hkind : kind = .array → ∃ counters, d.counters = (idx : ℤ) :: counters)
    (hshort : ShortArrays kind idx els)
    (hfits : d.usage front footer + (stored kind idx els).bytes.length ≤ bound) :
    ∃ b', Runs.exec (BuilderRun.step platform) ⟨b, ok⟩ (callsOf kind els) = some ⟨b', ok⟩ ∧
      Writing front footer ((d.add (stored kind idx els)).tick kind els.length) [] 0 b' ∧
      Roomy platform bound b' ∧ b'.errorFlag = b.errorFlag := by
  rw [← storedBy_arrayKey] at hfits ⊢
  obtain ⟨b', hexec, -, hw⟩ := h.exec_callsBy hbound platform.fills_arrayKey els ok hv hkind
    hshort.within hfits
  exact ⟨b', hexec, hw⟩

/-- **A tree is built and finished** by a builder that holds an empty draft. -/
theorem exec_finish {hole : List UInt8} {els : Elements}
    (h : Writing front footer ⟨hole, .nil, [], []⟩ [] 0 b) (hv : Roomy platform bound b)
    (herr : b.errorFlag = false) (hbound : bound < 2147483648) (hshort : ShortArrays .doc 0 els)
    (hsize : front.length + footer + (document (stored .doc 0 els).bytes).length ≤ bound) :
    ∃ b₁ b₂ tail, Runs.exec (BuilderRun.step platform) ⟨b, true⟩ (callsOf .doc els)
        = some ⟨b₁, true⟩ ∧
      b₁.finish = .ok (some ((front.length : ℤ),
        ((document (stored .doc 0 els).bytes).length : ℤ)), b₂) ∧
      b₂.buffer = front ++ document (stored .doc 0 els).bytes ++ tail ∧ footer ≤ tail.length := by
  have husage : (⟨hole, .nil, [], []⟩ : Draft).usage front footer
      + (stored .doc 0 els).bytes.length ≤ bound := by
    have hhole : hole.length = 4 := h.holes.1
    rw [length_document] at hsize
    rw [Draft.usage, Draft.spine, Draft.spineOf, Elements.bytes, List.append_nil, List.length_append,
      hhole, List.length_nil]
    omega
  obtain ⟨b₁, hexec, hw, -, herr₁⟩ := h.exec_callsOf hbound els true hv
    (fun hk => absurd hk (by decide)) hshort husage
  obtain ⟨tail, b₂, hfinish, hbuf, htail⟩ := hw.finish rfl (herr₁.trans herr)
  exact ⟨b₁, b₂, tail, hexec, hfinish, hbuf, htail⟩

end Writing

/-- A document is built in a vector with some content and capacity by the given calls. All of them
succeed; the document lies at the offset, what was in front of it is unchanged, and the footer is
free. -/
def BuildsInVector (platform : Platform) (content : List UInt8) (capacity startOffset footer : ℕ)
    (calls : List BuilderCall) (doc : List UInt8) : Prop :=
  ∃ b b',
    Runs.exec (BuilderRun.step platform)
      ⟨BsonBuilder.initializeVector content capacity startOffset footer platform {}, true⟩ calls
      = some ⟨b, true⟩ ∧
    b.finish = .ok (some ((startOffset : ℤ), (doc.length : ℤ)), b') ∧
    (b'.buffer.drop startOffset).take doc.length = doc ∧
    b'.buffer.take (min startOffset content.length) = content.take startOffset ∧
    startOffset + doc.length + footer ≤ b'.buffer.length

section Vector

variable {platform : Platform} {content : List UInt8} {capacity startOffset footer bound : ℕ}

/-- The vector has room for an empty document and the footer. -/
theorem initializeVector_buffer (hcap : content.length ≤ capacity) (hlt : capacity < 2147483648)
    (hgrow : platform.GrowsWithin bound) (hfits : startOffset + footer + 10 ≤ bound)
    (hbound : bound < 2147483648) :
    ∃ buffer capacity', BsonBuilder.initializeVector content capacity startOffset footer platform {}
        = { buffer
            offset := (startOffset + 4 : ℕ)
            currentUsage := (startOffset + footer + 5 : ℕ)
            capacity := wrap32 buffer.length
            container := some capacity'
            startOffset := startOffset
            reallocate := true } ∧
      buffer.take (min startOffset content.length) = content.take startOffset ∧
      startOffset + footer + 5 ≤ buffer.length ∧ buffer.length ≤ capacity' ∧
      capacity' < 2147483648 := by
  have hstart : wrap32 (startOffset : ℤ) = startOffset := wrap32_natCast (by omega)
  have hfooter : wrap32 (footer : ℤ) = footer := wrap32_natCast (by omega)
  have husage : wrap32 ((startOffset : ℤ) + footer) = startOffset + footer :=
    wrap32_of_range (by omega) (by omega)
  have hoffset : wrap32 ((startOffset : ℤ) + 4) = (startOffset + 4 : ℕ) := by
    rw [wrap32_of_range (by omega) (by omega)]
    omega
  have husage' : wrap32 ((startOffset : ℤ) + footer + 5) = (startOffset + footer + 5 : ℕ) := by
    rw [wrap32_of_range (by omega) (by omega)]
    omega
  have hneeded : (5 + startOffset + footer) % 4294967296 = 5 + startOffset + footer :=
    Nat.mod_eq_of_lt (by omega)
  have hsize : (10 + startOffset + footer) % 4294967296 = 10 + startOffset + footer :=
    Nat.mod_eq_of_lt (by omega)
  obtain ⟨buffer, capacity', hbuf, hcap', hprefix, hlen, hle, hlt'⟩ : ∃ buffer capacity',
      (if content.length < 5 + startOffset + footer
        then resize 0 content (10 + startOffset + footer) else content) = buffer ∧
      (if content.length < 5 + startOffset + footer ∧ capacity < 10 + startOffset + footer
        then platform.grow capacity (10 + startOffset + footer) else capacity) = capacity' ∧
      buffer.take (min startOffset content.length) = content.take startOffset ∧
      startOffset + footer + 5 ≤ buffer.length ∧ buffer.length ≤ capacity' ∧
      capacity' < 2147483648 := by
    by_cases hsmall : content.length < 5 + startOffset + footer
    · have hprefix : (resize 0 content (10 + startOffset + footer)).take
          (min startOffset content.length) = content.take startOffset := by
        rw [resize_of_length_le (by omega), List.take_append_of_le_length (Nat.min_le_right _ _),
          List.take_eq_take_min (i := startOffset)]
      by_cases hgrown : capacity < 10 + startOffset + footer
      · refine ⟨_, _, if_pos hsmall, if_pos ⟨hsmall, hgrown⟩, hprefix, ?_, ?_,
          hgrow _ _ hgrown (by omega)⟩
        · rw [length_resize]
          omega
        · rw [length_resize]
          exact platform.le_grow _ _
      · refine ⟨_, _, if_pos hsmall, if_neg fun h => hgrown h.2, hprefix, ?_, ?_, hlt⟩
        · rw [length_resize]
          omega
        · rw [length_resize]
          omega
    · exact ⟨_, _, if_neg hsmall, if_neg fun h => hsmall h.1,
        by rw [Nat.min_eq_left (by omega)], by omega, hcap, hlt⟩
  refine ⟨buffer, capacity', ?_, hprefix, hlen, hle, hlt'⟩
  simp only [BsonBuilder.initializeVector, BsonBuilder.reserveMainDocumentHeader, hneeded, hsize,
    hbuf, hcap', hstart, hfooter, husage, hoffset, husage']

/-- **A builder that was given a vector** holds an empty draft. -/
theorem writing_initializeVector (hcap : content.length ≤ capacity) (hlt : capacity < 2147483648)
    (hgrow : platform.GrowsWithin bound) (hfits : startOffset + footer + 10 ≤ bound)
    (hbound : bound < 2147483648) :
    ∃ front hole, front.length = startOffset ∧
      front.take (min startOffset content.length) = content.take startOffset ∧
      Writing front footer ⟨hole, .nil, [], []⟩ [] 0
        (BsonBuilder.initializeVector content capacity startOffset footer platform {}) ∧
      OnVector (BsonBuilder.initializeVector content capacity startOffset footer platform {}) ∧
      (BsonBuilder.initializeVector content capacity startOffset footer platform {}).errorFlag
        = false := by
  obtain ⟨buffer, capacity', hb, hprefix, hlen, hle, hlt'⟩ :=
    initializeVector_buffer hcap hlt hgrow hfits hbound
  have hfront : (buffer.take startOffset).length = startOffset :=
    List.length_take_of_le (by omega)
  have hhole : ((buffer.drop startOffset).take 4).length = 4 := by
    rw [List.length_take, List.length_drop]
    omega
  obtain ⟨d, hd⟩ : ∃ d : Draft, d = ⟨(buffer.drop startOffset).take 4, .nil, [], []⟩ := ⟨_, rfl⟩
  have hspine : d.spine (buffer.take startOffset) ++ []
      = buffer.take startOffset ++ (buffer.drop startOffset).take 4 := by
    rw [hd, Draft.spine, Draft.spineOf, Elements.bytes, List.append_nil, List.append_nil]
  have hspinelen : (d.spine (buffer.take startOffset) ++ []).length = startOffset + 4 := by
    rw [hspine, List.length_append, hfront, hhole]
  have hlayers : d.layers.length = 0 := by rw [hd, List.length_nil]
  refine ⟨buffer.take startOffset, (buffer.drop startOffset).take 4, hfront, ?_, ?_, ?_, ?_⟩
  · rw [List.take_take, Nat.min_eq_left (Nat.min_le_left _ _), hprefix]
  · rw [hb, ← hd]
    refine ⟨⟨buffer.drop (startOffset + 4), ?_⟩, ⟨?_, ?_⟩, ?_, ?_, ?_, ?_, rfl, ?_, ?_, ?_, ?_, ?_⟩
    · rw [hspine, List.append_assoc, ← List.drop_drop, List.take_append_drop,
        List.take_append_drop]
    · rw [hd, hhole]
    · rw [hd]
      exact fun l hl => absurd hl List.not_mem_nil
    · rw [hspinelen]
    · rw [hspinelen, hlayers]
      show ((startOffset + footer + 5 : ℕ) : ℤ) = _
      congr 1
      omega
    · rw [hspinelen, hlayers]
      show _ ≤ buffer.length
      omega
    · rw [hspinelen, hlayers]
      omega
    · rw [hd]
      rfl
    · rw [hd]
    · rw [hd]
      rfl
    · rw [hlayers]
      rfl
    · rw [hfront]
  · rw [hb]
    exact ⟨⟨capacity', rfl, hle, hlt'⟩, rfl⟩
  · rw [hb]

/-- **A tree of elements is built in a vector.** -/
theorem buildsInVector_callsOf (hcap : content.length ≤ capacity) (hlt : capacity < 2147483648)
    (hgrow : platform.GrowsWithin bound) (hfits : startOffset + footer + 10 ≤ bound)
    (hbound : bound < 2147483648) (els : Elements) (hshort : ShortArrays .doc 0 els)
    (hsize : startOffset + footer + (document (stored .doc 0 els).bytes).length ≤ bound) :
    BuildsInVector platform content capacity startOffset footer (callsOf .doc els)
      (document (stored .doc 0 els).bytes) := by
  obtain ⟨front, hole, hfront, hprefix, hw, hv, herr⟩ :=
    writing_initializeVector hcap hlt hgrow hfits hbound
  obtain ⟨b, b', tail, hexec, hfinish, hbuf, htail⟩ :=
    hw.exec_finish (.inl ⟨hv, hgrow⟩) herr hbound hshort (by rw [hfront]; exact hsize)
  rw [hfront] at hfinish
  refine ⟨b, b', hexec, hfinish, ?_, ?_, ?_⟩
  · rw [hbuf, List.append_assoc, List.drop_left' hfront, List.take_left' rfl]
  · rw [hbuf, List.append_assoc, List.take_append_of_le_length
      (by rw [hfront]; exact Nat.min_le_left _ _), hprefix]
  · rw [hbuf, List.length_append, List.length_append, hfront]
    omega

/-! ### Trees without arrays -/

/-- Documents in documents come to lie in the buffer as they are. -/
theorem stored_of_documentsOnly {els : Elements} (h : els.DocumentsOnly) (idx : ℕ) :
    stored .doc idx els = els := by
  induction els generalizing idx with
  | nil => rfl
  | leaf name v rest ih => rw [stored, ih h]; rfl
  | sub kind name body rest ihbody ihrest =>
      obtain ⟨rfl, hbody, hrest⟩ := h
      rw [stored, ihbody hbody, ihrest hrest]
      rfl

theorem shortArrays_of_documentsOnly {els : Elements} (h : els.DocumentsOnly) (idx : ℕ) :
    ShortArrays .doc idx els := by
  induction els generalizing idx with
  | nil => exact trivial
  | leaf name v rest ih => exact ⟨fun hk => absurd hk (by decide), ih h _⟩
  | sub kind name body rest ihbody ihrest =>
      obtain ⟨rfl, hbody, hrest⟩ := h
      exact ⟨fun hk => absurd hk (by decide), ihbody hbody _, ihrest hrest _⟩

/-- **Trees of documents are built in a vector**, in which all positions are 32-bit integers. -/
theorem buildsInVector_of_documentsOnly (hcap : content.length ≤ capacity)
    (hlt : capacity < 2147483648) (hgrow : platform.GrowsWithin bound)
    (hbound : bound < 2147483648) {els : Elements} (hdocs : els.DocumentsOnly)
    (hfits : startOffset + footer + max 10 (document els.bytes).length ≤ bound) :
    BuildsInVector platform content capacity startOffset footer (callsOf .doc els)
      (document els.bytes) := by
  have hsize : startOffset + footer + (document (stored .doc 0 els).bytes).length ≤ bound := by
    rw [stored_of_documentsOnly hdocs]
    omega
  have hbuilt := buildsInVector_callsOf hcap hlt hgrow (by omega) hbound els
    (shortArrays_of_documentsOnly hdocs 0) hsize
  rwa [stored_of_documentsOnly hdocs] at hbuilt

end Vector

theorem Platform.growsWithin_tight {bound : ℕ} (h : bound < 2147483648) :
    Platform.tight.GrowsWithin bound :=
  fun _ _ _ hn => hn.trans_lt h

theorem buildsInVector_nested :
    BuildsInVector Platform.tight [1, 2, 3] 3 2 1
      (callsOf .doc (.sub .doc [97] (.leaf [98] (.i32 7) (.leaf [99] (.string [100]) .nil)) .nil))
      (document (Elements.bytes
        (.sub .doc [97] (.leaf [98] (.i32 7) (.leaf [99] (.string [100]) .nil)) .nil))) :=
  buildsInVector_of_documentsOnly (by decide) (by decide)
    (Platform.growsWithin_tight (show 100 < 2147483648 by decide)) (by decide)
    ⟨rfl, trivial, trivial⟩ (by decide)

/-- **Positions that are no 32-bit integers** are not noticed: the sum of the sizes wraps around to
nothing, the vector is not resized, and the end of the document is written in front of it. -/
theorem not_buildsInVector :
    ¬ ∀ (platform : Platform) (content : List UInt8) (capacity startOffset footer : ℕ)
      (els : Elements), content.length ≤ capacity → startOffset < 4294967296 →
      footer < 4294967296 → els.depth ≤ 63 → els.DocumentsOnly → els.CleanKeys →
      (document els.bytes).length < 2147483648 →
      BuildsInVector platform content capacity startOffset footer (callsOf .doc els)
        (document els.bytes) := by
  intro h
  obtain ⟨b, b', hexec, hfinish, -⟩ := h Platform.tight [] 0 4294967291 0 .nil (by decide) (by decide)
    (by decide) (by decide) trivial trivial (by decide)
  obtain rfl := congrArg BuilderRun.builder (Option.some.inj hexec)
  have hstop : (BsonBuilder.initializeVector [] 0 4294967291 0 Platform.tight {}).finish
      = .error (.outOfBounds (-1)) := by
    decide +kernel
  rw [hstop] at hfinish
  exact absurd hfinish (by simp)

end ScApi
