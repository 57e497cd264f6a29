import Mathlib.Data.List.Induction
import ScApi.BsonBounds

/-!
# Which bytes the reader inspects

A client of a reader makes any sequence of calls; the offsets it seeks to are those it got from
`elementOffset` of the same reader. A run of such calls stops at the first byte it would
inspect outside the buffer.

The reader checks that the value of an element fits into the document only after it has read
the type byte of the element and the size in front of the value. `CutElement` names the
elements for which this is too late: the buffer ends before the type byte, which is what a
document without its terminator comes to, or before the end of the size.

## Main results

* `readElement_ok_iff`: reading an element stays in memory exactly when the element is not cut.
* `run_inside`: every reader a client can reach keeps the invariant.
* `inspected_inside_iff`: all calls a client can make stay inside the buffer exactly when no
  element that it can reach is cut.
-/

open Bytes BoundedRead

namespace ScApi

open ElementType BsonReader

/-! ### Clients -/

/-- A call on a reader. `seek i` seeks to the `i`-th of the offsets taken so far. -/
inductive Call where
  | next
  | beginSub
  | endSub
  | seekBegin
  | seekKey (key : List UInt8)
  | seekNextKey (key : List UInt8)
  | seekIndex (index : ℤ)
  | validate
  | elementOffset
  | seek (i : ℕ)
  deriving DecidableEq, Repr

/-- A client: its reader, and the offsets it has taken from `elementOffset`, the latest first. -/
structure Client where
  reader : BsonReader
  offsets : List ElementOffset
  deriving DecidableEq, Repr

namespace Client

/-- The client after a call that leaves its reader in the second component of `x`. -/
def moved {α : Type} (c : Client) (x : Read (α × BsonReader)) : Read Client := do
  let p ← x
  pure { c with reader := p.2 }

/-- One call of a client. -/
def call (mem : List UInt8) (c : Client) : Call → Read Client
  | .next => c.moved (c.reader.next mem)
  | .beginSub => c.moved (c.reader.beginSub mem)
  | .endSub => c.moved (pure c.reader.endSub)
  | .seekBegin => pure { c with reader := c.reader.seekBegin }
  | .seekKey key => c.moved (c.reader.seekKey mem key)
  | .seekNextKey key => c.moved (c.reader.seekNextKey mem key)
  | .seekIndex index => c.moved (c.reader.seekIndex mem index)
  | .validate => c.moved (c.reader.validateHere mem)
  | .elementOffset => pure { c with offsets := c.reader.elementOffset :: c.offsets }
  | .seek i =>
      match c.offsets[i]? with
      | some o => c.moved (c.reader.seek mem o)
      | none => pure c

theorem moved_eq_ok_iff {α : Type} {c c' : Client} {x : Read (α × BsonReader)} :
    c.moved x = .ok c' ↔ ∃ a r, x = .ok (a, r) ∧ c' = ⟨r, c.offsets⟩ := by
  constructor
  · intro h
    obtain ⟨⟨a, r⟩, hx, h⟩ := bind_eq_ok.mp h
    exact ⟨a, r, hx, (Except.ok.inj h).symm⟩
  · rintro ⟨a, r, rfl, rfl⟩
    rfl

theorem moved_ok {α : Type} {x : Read (α × BsonReader)} (c : Client) (h : ∃ p, x = .ok p) :
    ∃ c', c.moved x = .ok c' := by
  obtain ⟨⟨a, r⟩, rfl⟩ := h
  exact ⟨_, rfl⟩

/-- A client's run on a buffer: the reader is made with the buffer's own size. -/
def run (mem : List UInt8) (calls : List Call) : Read Client := do
  let r ← ofBufferSize (some mem) mem.length
  calls.foldlM (call mem) ⟨r, []⟩

end Client

/-! ### Cut elements -/

/-- The types whose value starts with its size. -/
def ElementType.hasLengthPrefix : ElementType → Bool
  | elementStr | elementBinary | elementDoc | elementArray => true
  | _ => false

/-- **A cut element**: the memory ends before its type byte or before the end of the size of its
value. The third case is the last offset that 32 bits hold, where the key would start at a
negative offset. -/
inductive CutElement (mem : List UInt8) (docEnd start : ℤ) : Prop
  | typeByte (h : start < 0 ∨ mem.length ≤ start)
  | lengthPrefix {b : UInt8} {nul : ℤ} (hb : byteAt mem start = .ok b)
      (ht : (ofByte b).hasLengthPrefix = true) (hnul : FirstNul mem (start + 1) docEnd nul)
      (h : mem.length < nul + 5)
  | keyOffset {b : UInt8} (hb : byteAt mem start = .ok b) (hne : b ≠ 0) (h : start = 2147483647)

namespace BsonReader

variable {mem : List UInt8}

theorem valueSize_ok {o : ℤ} {t : ElementType}
    (h : t.hasLengthPrefix = true → 0 ≤ o ∧ o + 4 ≤ mem.length) :
    ∃ n, valueSize mem o t = .ok n := by
  cases t with
  | elementStr | elementBinary =>
      obtain ⟨h0, h1⟩ := h rfl
      obtain ⟨n, hn⟩ := i32At_ok_of_range h0 h1
      exact ⟨_, by rw [valueSize, hn, ok_bind, pure_eq_ok]⟩
  | elementDoc | elementArray =>
      obtain ⟨h0, h1⟩ := h rfl
      exact i32At_ok_of_range h0 h1
  | _ => exact ⟨_, rfl⟩

theorem range_of_valueSize {o n : ℤ} {t : ElementType} (ht : t.hasLengthPrefix = true)
    (h : valueSize mem o t = .ok n) : o + 4 ≤ mem.length := by
  cases t with
  | elementStr | elementBinary =>
      obtain ⟨m, hm, -⟩ := bind_eq_ok.mp h
      exact (range_of_i32At hm).2
  | elementDoc | elementArray => exact (range_of_i32At h).2
  | _ => exact absurd ht (by decide)

/-- The search for the end of the key, as `readKey` makes it. -/
theorem findNul_key_iff {docEnd start nul : ℤ} (hlt : start + 1 ≤ docEnd) :
    findNul mem (docEnd - (start + 1)).toNat (start + 1) = .ok (some nul) ↔
      FirstNul mem (start + 1) docEnd nul := by
  have hend : start + 1 + ((docEnd - (start + 1)).toNat : ℤ) = docEnd := by omega
  rw [findNul_eq_some_iff, hend]

/-- An element that could be read behind its type byte is not cut inside its size. -/
theorem not_cut_of_readElement {r : BsonReader} {start nul : ℤ} {b : UInt8}
    {x : ElementType × BsonReader} (hend : r.curDocEnd < 2147483648) (hs : 0 ≤ start)
    (hb : byteAt mem start = .ok b) (ht : (ofByte b).hasLengthPrefix = true)
    (hnul : FirstNul mem (start + 1) r.curDocEnd nul) (h : r.readElement mem start = .ok x) :
    nul + 5 ≤ mem.length := by
  have hlo := hnul.lower
  have hhi := hnul.upper
  have hwrap : wrap32 (start + 1) = start + 1 := wrap32_of_range (by omega) (by omega)
  have hfind : findNul mem (r.curDocEnd - (start + 1)).toNat (start + 1) = .ok (some nul) :=
    (findNul_key_iff (by omega)).mpr hnul
  have hne : ofByte b ≠ elementEnd := by
    intro he
    rw [he] at ht
    exact absurd ht (by decide)
  simp only [readElement, hb, ok_bind, if_neg hne, readKey, hwrap, hfind, pure_eq_ok] at h
  obtain ⟨need, hneed, -⟩ := bind_eq_ok.mp h
  have := range_of_valueSize ht hneed
  omega

/-- A key never starts at the offset behind the last one that 32 bits hold. -/
theorem readElement_ne_ok_of_last {r : BsonReader} {b : UInt8} {x : ElementType × BsonReader}
    (hend : 0 ≤ r.curDocEnd) (hb : byteAt mem 2147483647 = .ok b) (hne : b ≠ 0) :
    r.readElement mem 2147483647 ≠ .ok x := by
  intro h
  have hne' : ofByte b ≠ elementEnd := fun he => hne (ofByte_eq_end.mp he)
  have hwrap : wrap32 (2147483647 + 1) = -2147483648 := by decide
  obtain ⟨n, hn⟩ : ∃ n, (r.curDocEnd - -2147483648).toNat = n + 1 :=
    ⟨(r.curDocEnd - -2147483648).toNat - 1, by omega⟩
  simp only [readElement, hb, ok_bind, if_neg hne', readKey, hwrap, hn, findNul] at h
  obtain ⟨p, hp, -⟩ := bind_eq_ok.mp h
  obtain ⟨o, ho, -⟩ := bind_eq_ok.mp hp
  obtain ⟨b', hb', -⟩ := bind_eq_ok.mp ho
  have := (range_of_byteAt hb').1
  omega

/-- **Reading an element stays in memory exactly when the element is not cut.** -/
theorem readElement_ok_iff {r : BsonReader} {start : ℤ} (hr : Inside mem r)
    (hstart : start < 2147483648) :
    (∃ x, r.readElement mem start = .ok x) ↔ ¬ CutElement mem r.curDocEnd start := by
  have hend0 := hr.docEnd_nonneg
  have hend := hr.docEnd_lt
  have hmem := hr.docEnd_le
  constructor
  · rintro ⟨⟨t, r'⟩, h⟩ hcut
    obtain ⟨b', hb', -⟩ := bind_eq_ok.mp h
    have hrange := range_of_byteAt hb'
    cases hcut with
    | typeByte hout => omega
    | lengthPrefix hb ht hnul hout =>
        have := not_cut_of_readElement hend hrange.1 hb ht hnul h
        omega
    | keyOffset hb hne hmax =>
        subst hmax
        exact readElement_ne_ok_of_last hend0 hb hne h
  · intro hcut
    have hlo : 0 ≤ start := by
      by_contra hlt
      exact hcut (.typeByte (Or.inl (by omega)))
    have hhi : start < mem.length := by
      by_contra hle
      exact hcut (.typeByte (Or.inr (by omega)))
    obtain ⟨b, hb⟩ := byteAt_ok_of_range hlo hhi
    by_cases hz : b = 0
    · exact ⟨_, readElement_of_end r (hz ▸ hb)⟩
    have hne : ofByte b ≠ elementEnd := fun he => hz (ofByte_eq_end.mp he)
    have hmax : start ≠ 2147483647 := fun h => hcut (.keyOffset hb hz h)
    have hwrap : wrap32 (start + 1) = start + 1 := wrap32_of_range (by omega) (by omega)
    obtain ⟨o, ho⟩ : ∃ o, findNul mem (r.curDocEnd - (start + 1)).toNat (start + 1) = .ok o :=
      findNul_ok_of_range (by omega) (by omega)
    simp only [readElement, hb, ok_bind, if_neg hne, readKey, hwrap, ho]
    cases o with
    | none => exact ⟨_, rfl⟩
    | some nul =>
        have hnul := findNul_eq_some_iff.mp ho
        have hlower := hnul.lower
        have hupper := hnul.upper
        have hsize : (ofByte b).hasLengthPrefix = true → 0 ≤ nul + 1 ∧ nul + 1 + 4 ≤ mem.length := by
          intro ht
          refine ⟨by omega, ?_⟩
          by_contra hlt
          exact hcut (.lengthPrefix hb ht ((findNul_key_iff (by omega)).mp ho) (by omega))
        obtain ⟨need, hneed⟩ := valueSize_ok hsize
        simp only [pure_eq_ok, ok_bind, hneed]
        split <;> exact ⟨_, rfl⟩

/-- `beginSub` reads the size of the current element, which `next` has read before. -/
theorem beginSub_ok {r : BsonReader} (hr : Inside mem r) : ∃ x, r.beginSub mem = .ok x := by
  rw [BsonReader.beginSub]
  by_cases hc : r.curType.isContainer = true
  · rw [if_neg (by simp [hc])]
    split
    · exact ⟨_, rfl⟩
    · obtain ⟨-, -, need, hneed, -, -⟩ := hr.current (pos_of_container hc)
      have hsize : i32At mem r.bufOffset = .ok need := by
        cases ht : r.curType <;> rw [ht] at hc hneed <;> first
          | exact absurd hc (by decide)
          | exact hneed
      exact ⟨_, by rw [hsize, ok_bind, pure_eq_ok]⟩
  · rw [if_pos (by simp [hc])]
    exact ⟨_, rfl⟩

/-- The offset behind the current element: the end of its `rawElement`. A reader that was moved
stands there already. -/
def behindCurrent (mem : List UInt8) (r : BsonReader) : Read ℤ := do
  match ← r.rawElement mem with
  | some span => pure (span.offset + span.length)
  | none => pure r.bufOffset

/-- `next` starts to read behind the current element. -/
theorem behindCurrent_eq {r : BsonReader} (hr : Inside mem r) (ht : r.curType.ended = false) :
    r.behindCurrent mem = r.skipValue mem := by
  rcases hr.pos_or_begin ht with hpos | hbegin
  · obtain ⟨a, need, hraw, ha, ha0, han, -, hfit⟩ := hr.rawElement_current hpos
    obtain ⟨hs0, hs1, -⟩ := hr.current hpos
    have hend := hr.docEnd_lt
    have hskip := skipValue_eq ha ha0 (by omega) (by omega)
    have hlen : (toSizeT (r.bufOffset + a - r.elementStartOffset) : ℤ)
        = r.bufOffset + a - r.elementStartOffset := toSizeT_of_nonneg (by omega) (by omega)
    rw [behindCurrent, hraw, hskip, ok_bind]
    simp only [pure_eq_ok, hlen, add_sub_cancel]
  · have hraw : r.rawElement mem = .ok none := by
      rw [rawElement, hbegin]
      rfl
    rw [behindCurrent, hr.skipValue_begin hbegin, hraw, ok_bind, pure_eq_ok]

end BsonReader

namespace Client

variable {mem : List UInt8}

/-- **Where the next element is read from**: behind the current element, or at an offset taken
before that lies in the current document. -/
inductive NextStart (mem : List UInt8) (c : Client) : ℤ → Prop
  | behind {start : ℤ} (h : c.reader.curType.ended = false)
      (hs : c.reader.behindCurrent mem = .ok start) : NextStart mem c start
  | seek {o : ElementOffset} (ho : o ∈ c.offsets) (h0 : c.reader.curDocBegin ≤ o.offset)
      (h1 : o.offset < c.reader.curDocEnd) : NextStart mem c o.offset

theorem run_append (calls : List Call) (k : Call) :
    run mem (calls ++ [k]) = run mem calls >>= fun c => c.call mem k := by
  unfold run
  cases ofBufferSize (some mem) mem.length with
  | error e => rfl
  | ok r =>
      rw [ok_bind, ok_bind, List.foldlM_append]
      congr 1
      funext c
      rw [List.foldlM_cons]
      cases c.call mem k <;> rfl

theorem run_concat {calls : List Call} {k : Call} {c c' : Client} (h : run mem calls = .ok c)
    (hk : c.call mem k = .ok c') : run mem (calls ++ [k]) = .ok c' := by
  rw [run_append, h, ok_bind, hk]

end Client

/-! ### Runs keep the invariant -/

namespace BsonReader

section Closed

variable {mem : List UInt8} {P : BsonReader → Prop} {r r' : BsonReader} {t : ElementType}

theorem seek_closed (hnext : ∀ {r t r'}, P r → r.next mem = .ok (t, r') → P r')
    (hjump : ∀ {r} {o : ElementOffset}, P r → r.curDocBegin ≤ o.offset → o.offset < r.curDocEnd →
      P { r with
        curType := elementInternalDocBegin, bufOffset := o.offset, arrIndex := o.arrIndex })
    {o : ElementOffset} (hr : P r) (h : r.seek mem o = .ok (t, r')) : P r' := by
  rw [BsonReader.seek] at h
  split_ifs at h with ho
  · exact hnext (hjump hr ho.1 ho.2) h
  · obtain ⟨-, rfl⟩ := Prod.mk.inj (Except.ok.inj h)
    exact hr

theorem searchFrom_closed (hnext : ∀ {r t r'}, P r → r.next mem = .ok (t, r') → P r')
    (hjump : ∀ {r} {o : ElementOffset}, P r → r.curDocBegin ≤ o.offset → o.offset < r.curDocEnd →
      P { r with
        curType := elementInternalDocBegin, bufOffset := o.offset, arrIndex := o.arrIndex })
    {found : BsonReader → Bool} {o : ElementOffset} (hr : P r)
    (h : searchFrom mem found o r = .ok (t, r')) : P r' := by
  obtain ⟨⟨t₁, r₁⟩, hn, h⟩ := bind_eq_ok.mp h
  obtain ⟨⟨t₂, r₂⟩, hscan, h⟩ := bind_eq_ok.mp h
  have hr₂ : P r₂ := scan_closed hnext (hnext hr hn) hscan
  dsimp only at h
  split_ifs at h
  · obtain ⟨⟨t₃, r₃⟩, hseek, h⟩ := bind_eq_ok.mp h
    obtain ⟨-, rfl⟩ := Prod.mk.inj (Except.ok.inj h)
    exact seek_closed hnext hjump hr₂ hseek
  · obtain ⟨-, rfl⟩ := Prod.mk.inj (Except.ok.inj h)
    exact hr₂

/-- What the moves keep, a call keeps, if it is neither an `endSub` nor a `validate` that does not. -/
theorem call_closed (hnext : ∀ {r t r'}, P r → r.next mem = .ok (t, r') → P r')
    (hbegin : ∀ {r b r'}, P r → r.beginSub mem = .ok (b, r') → P r')
    (hjump : ∀ {r} {o : ElementOffset}, P r → r.curDocBegin ≤ o.offset → o.offset < r.curDocEnd →
      P { r with
        curType := elementInternalDocBegin, bufOffset := o.offset, arrIndex := o.arrIndex })
    (hseekBegin : ∀ {r}, P r → P r.seekBegin) {c c' : Client} {k : Call} (hc : P c.reader)
    (hend : k = .endSub → P c'.reader)
    (hvalidate : ∀ b r', c.reader.validateHere mem = .ok (b, r') → P r')
    (h : c.call mem k = .ok c') : P c'.reader := by
  cases k with
  | next =>
      obtain ⟨t, r, hr, rfl⟩ := Client.moved_eq_ok_iff.mp h
      exact hnext hc hr
  | beginSub =>
      obtain ⟨b, r, hr, rfl⟩ := Client.moved_eq_ok_iff.mp h
      exact hbegin hc hr
  | endSub => exact hend rfl
  | seekBegin =>
      obtain rfl := Except.ok.inj h
      exact hseekBegin hc
  | seekKey key =>
      obtain ⟨t, r, hr, rfl⟩ := Client.moved_eq_ok_iff.mp h
      exact searchFrom_closed hnext hjump (hseekBegin hc) hr
  | seekNextKey key =>
      obtain ⟨t, r, hr, rfl⟩ := Client.moved_eq_ok_iff.mp h
      exact searchFrom_closed hnext hjump hc hr
  | seekIndex index =>
      obtain ⟨t, r, hr, rfl⟩ := Client.moved_eq_ok_iff.mp h
      rw [BsonReader.seekIndex] at hr
      split_ifs at hr
      · obtain ⟨-, rfl⟩ := Prod.mk.inj (Except.ok.inj hr)
        exact hc
      · exact searchFrom_closed hnext hjump (hseekBegin hc) hr
      · exact searchFrom_closed hnext hjump hc hr
  | validate =>
      obtain ⟨b, r, hr, rfl⟩ := Client.moved_eq_ok_iff.mp h
      exact hvalidate b r hr
  | elementOffset =>
      obtain rfl := Except.ok.inj h
      exact hc
  | seek i =>
      rw [Client.call] at h
      split at h
      · obtain ⟨t, r, hr, rfl⟩ := Client.moved_eq_ok_iff.mp h
        exact seek_closed hnext hjump hc hr
      · obtain rfl := Except.ok.inj h
        exact hc

end Closed

theorem Inside.searchFrom {mem : List UInt8} {r r' : BsonReader} {t : ElementType}
    {found : BsonReader → Bool} {o : ElementOffset} (hr : Inside mem r)
    (h : searchFrom mem found o r = .ok (t, r')) : Inside mem r' :=
  searchFrom_closed (P := Inside mem) Inside.next Inside.jump hr h

end BsonReader

namespace Client

variable {mem : List UInt8}

theorem call_inside {c c' : Client} {k : Call} (hc : Inside mem c.reader)
    (h : c.call mem k = .ok c') : Inside mem c'.reader := by
  refine call_closed (P := Inside mem) Inside.next (fun h hbegin => h.beginSub hbegin) Inside.jump
    Inside.seekBegin hc ?_ ?_ h
  · rintro rfl
    obtain rfl := Except.ok.inj h
    exact hc.endSub
  · exact fun b r' hloop => validateLoop_closed (P := Inside mem) Inside.next
      (fun h hbegin => h.beginSub hbegin) Inside.endSub hc hloop

/-- **Every reader that a client can reach keeps the invariant.** -/
theorem run_inside {calls : List Call} {c : Client} (h : run mem calls = .ok c) :
    Inside mem c.reader := by
  induction calls using List.reverseRecOn generalizing c with
  | nil =>
      obtain ⟨r, hr, h⟩ := bind_eq_ok.mp h
      obtain rfl := Except.ok.inj h
      exact inside_ofBufferSize le_rfl hr
  | append_singleton calls k ih =>
      rw [run_append] at h
      obtain ⟨c₁, hc₁, h⟩ := bind_eq_ok.mp h
      exact call_inside (ih hc₁) h

/-! ### Runs that stay inside the buffer -/

/-- The client with these offsets can reach this reader. -/
def Reaches (mem : List UInt8) (offsets : List ElementOffset) (r : BsonReader) : Prop :=
  ∃ calls, run mem calls = .ok ⟨r, offsets⟩

/-- No element that the client can reach is cut. -/
def NothingCut (mem : List UInt8) : Prop :=
  ∀ calls c start, run mem calls = .ok c → c.NextStart mem start →
    ¬ CutElement mem c.reader.curDocEnd start

section Reaches

variable {offsets : List ElementOffset} {r r' : BsonReader} {t : ElementType}

theorem Reaches.inside (h : Reaches mem offsets r) : Inside mem r := by
  obtain ⟨calls, hrun⟩ := h
  exact run_inside hrun

theorem Reaches.next (h : Reaches mem offsets r) (hn : r.next mem = .ok (t, r')) :
    Reaches mem offsets r' := by
  obtain ⟨calls, hrun⟩ := h
  have hcall : call mem ⟨r, offsets⟩ .next = .ok ⟨r', offsets⟩ :=
    moved_eq_ok_iff.mpr ⟨t, r', hn, rfl⟩
  exact ⟨_, run_concat hrun hcall⟩

theorem Reaches.beginSub {b : Bool} (h : Reaches mem offsets r)
    (hb : r.beginSub mem = .ok (b, r')) : Reaches mem offsets r' := by
  obtain ⟨calls, hrun⟩ := h
  have hcall : call mem ⟨r, offsets⟩ .beginSub = .ok ⟨r', offsets⟩ :=
    moved_eq_ok_iff.mpr ⟨b, r', hb, rfl⟩
  exact ⟨_, run_concat hrun hcall⟩

theorem Reaches.endSub (h : Reaches mem offsets r) : Reaches mem offsets r.endSub.2 := by
  obtain ⟨calls, hrun⟩ := h
  have hcall : call mem ⟨r, offsets⟩ .endSub = .ok ⟨r.endSub.2, offsets⟩ := rfl
  exact ⟨_, run_concat hrun hcall⟩

theorem Reaches.seekBegin (h : Reaches mem offsets r) : Reaches mem offsets r.seekBegin := by
  obtain ⟨calls, hrun⟩ := h
  have hcall : call mem ⟨r, offsets⟩ .seekBegin = .ok ⟨r.seekBegin, offsets⟩ := rfl
  exact ⟨_, run_concat hrun hcall⟩

theorem Reaches.elementOffset (h : Reaches mem offsets r) :
    Reaches mem (r.elementOffset :: offsets) r := by
  obtain ⟨calls, hrun⟩ := h
  have hcall : call mem ⟨r, offsets⟩ .elementOffset = .ok ⟨r, r.elementOffset :: offsets⟩ := rfl
  exact ⟨_, run_concat hrun hcall⟩

variable (hcut : NothingCut mem)
include hcut

/-- `next` stays in memory on every reader a client can reach. -/
theorem Reaches.next_ok (h : Reaches mem offsets r) : ∃ x, r.next mem = .ok x := by
  have hr := h.inside
  by_cases ht : r.curType.ended = true
  · exact ⟨_, by rw [BsonReader.next, if_pos ht, pure_eq_ok]⟩
  have hf : r.curType.ended = false := by simpa using ht
  obtain ⟨start, hs, hlt⟩ := hr.exists_skipValue hf
  obtain ⟨calls, hrun⟩ := h
  have hbehind : r.behindCurrent mem = .ok start := by rw [behindCurrent_eq hr hf, hs]
  have hwhole := hcut calls _ start hrun (.behind hf hbehind)
  obtain ⟨x, hx⟩ := (readElement_ok_iff hr hlt).mpr hwhole
  exact ⟨x, by rw [Inside.next_of_skipValue hf hs, hx]⟩

/-- `seek` stays in memory when it goes to an offset taken before. -/
theorem Reaches.seek_ok {o : ElementOffset} (h : Reaches mem offsets r) (ho : o ∈ offsets) :
    ∃ x, r.seek mem o = .ok x := by
  rw [BsonReader.seek]
  by_cases hin : r.curDocBegin ≤ o.offset ∧ o.offset < r.curDocEnd
  · rw [if_pos hin]
    have hr := h.inside
    have hjump := hr.jump (o := o) hin.1 hin.2
    have hend := hr.docEnd_lt
    obtain ⟨calls, hrun⟩ := h
    have hwhole := hcut calls _ o.offset hrun (.seek ho hin.1 hin.2)
    obtain ⟨x, hx⟩ := (readElement_ok_iff hjump (by omega)).mpr hwhole
    exact ⟨x, by rw [Inside.next_of_skipValue rfl (hjump.skipValue_begin rfl), hx]⟩
  · rw [if_neg hin]
    exact ⟨_, rfl⟩

theorem Reaches.searchFrom_ok {found : BsonReader → Bool} {o : ElementOffset}
    (h : Reaches mem offsets r) (ho : o ∈ offsets) :
    ∃ x, searchFrom mem found o r = .ok x := by
  cases hres : searchFrom mem found o r with
  | ok x => exact ⟨x, rfl⟩
  | error e =>
      exfalso
      have hfuel : e ≠ .outOfFuel := by
        rintro rfl
        exact searchFrom_ne_outOfFuel h.inside hres
      rcases bind_eq_error.mp hres with hres | ⟨⟨t₁, r₁⟩, hnext, hres⟩
      · obtain ⟨x, hx⟩ := h.next_ok hcut
        rw [hres] at hx
        exact absurd hx (by simp)
      have h₁ := h.next hnext
      rcases bind_eq_error.mp hres with hres | ⟨⟨t₂, r₂⟩, hscan, hres⟩
      · obtain ⟨r₃, h₃, hstop⟩ := scan_error (fun hP hn => Reaches.next hP hn) h₁ hfuel hres
        obtain ⟨x, hx⟩ := h₃.next_ok hcut
        rw [hstop] at hx
        exact absurd hx (by simp)
      have h₂ := scan_closed (fun hP hn => Reaches.next hP hn) h₁ hscan
      dsimp only at hres
      split at hres
      · obtain ⟨x, hx⟩ := h₂.seek_ok hcut ho
        rw [hx, ok_bind] at hres
        exact absurd hres (by simp)
      · simp at hres

theorem Reaches.validateHere_ok (h : Reaches mem offsets r) :
    ∃ x, r.validateHere mem = .ok x := by
  cases hres : r.validateHere mem with
  | ok x => exact ⟨x, rfl⟩
  | error e =>
      exfalso
      have hfuel : e ≠ .outOfFuel := by
        rintro rfl
        exact validateHere_ne_outOfFuel h.inside hres
      obtain ⟨r₁, h₁, hstop | hstop⟩ := validateLoop_error (fun hP hn => Reaches.next hP hn)
        (fun hP hb => Reaches.beginSub hP hb) (fun hP => Reaches.endSub hP) h hfuel hres
      · obtain ⟨x, hx⟩ := h₁.next_ok hcut
        rw [hstop] at hx
        exact absurd hx (by simp)
      · obtain ⟨x, hx⟩ := beginSub_ok h₁.inside
        rw [hstop] at hx
        exact absurd hx (by simp)

theorem Reaches.seekIndex_ok (h : Reaches mem offsets r) (index : ℤ) :
    ∃ x, r.seekIndex mem index = .ok x := by
  have hhere := h.elementOffset
  rw [BsonReader.seekIndex]
  split
  · exact ⟨_, rfl⟩
  · split
    · exact hhere.seekBegin.searchFrom_ok hcut List.mem_cons_self
    · exact hhere.searchFrom_ok hcut List.mem_cons_self

/-- No call of a client stops. -/
theorem Reaches.call_ok (h : Reaches mem offsets r) (k : Call) :
    ∃ c, call mem ⟨r, offsets⟩ k = .ok c := by
  have hhere := h.elementOffset
  cases k with
  | next => exact moved_ok _ (h.next_ok hcut)
  | beginSub => exact moved_ok _ (beginSub_ok h.inside)
  | endSub => exact ⟨_, rfl⟩
  | seekBegin => exact ⟨_, rfl⟩
  | seekKey key => exact moved_ok _ (hhere.seekBegin.searchFrom_ok hcut List.mem_cons_self)
  | seekNextKey key => exact moved_ok _ (hhere.searchFrom_ok hcut List.mem_cons_self)
  | seekIndex index => exact moved_ok _ (h.seekIndex_ok hcut index)
  | validate => exact moved_ok _ (h.validateHere_ok hcut)
  | elementOffset => exact ⟨_, rfl⟩
  | seek i =>
      rw [call]
      split
      · rename_i o ho
        exact moved_ok _ (h.seek_ok hcut (List.mem_of_getElem? ho))
      · exact ⟨_, rfl⟩

end Reaches

/-- The two-argument constructor reads the size only of a buffer that holds it. -/
theorem ofBufferSize_ok (mem : List UInt8) : ∃ r, ofBufferSize (some mem) mem.length = .ok r := by
  rw [ofBufferSize]
  split
  · exact ⟨_, rfl⟩
  · have hlen : (0 : ℤ) + 4 ≤ mem.length := by omega
    obtain ⟨n, hn⟩ := i32At_ok_of_range le_rfl hlen
    rw [hn, ok_bind]
    split <;> exact ⟨_, rfl⟩

/-- **Every byte that a client's calls inspect lies inside the buffer exactly when no element
that the client can reach is cut**: a run on a buffer of `s` bytes stops at the first index that
is not below `s`. -/
theorem inspected_inside_iff (mem : List UInt8) :
    (∀ calls, ∃ c, run mem calls = .ok c) ↔ NothingCut mem := by
  constructor
  · intro hall calls c start hrun hstart
    have hr := run_inside hrun
    have hend := hr.docEnd_lt
    cases hstart with
    | behind ht hs =>
        obtain ⟨c', hc'⟩ := hall (calls ++ [.next])
        rw [run_append, hrun, ok_bind, call] at hc'
        obtain ⟨t, r, hx, -⟩ := moved_eq_ok_iff.mp hc'
        rw [behindCurrent_eq hr ht] at hs
        obtain ⟨start', hs', hlt⟩ := hr.exists_skipValue ht
        rw [hs] at hs'
        obtain rfl := Except.ok.inj hs'
        rw [Inside.next_of_skipValue ht hs] at hx
        exact (readElement_ok_iff hr hlt).mp ⟨_, hx⟩
    | @seek o ho h0 h1 =>
        obtain ⟨i, hi⟩ := List.getElem?_of_mem ho
        obtain ⟨c', hc'⟩ := hall (calls ++ [.seek i])
        rw [run_append, hrun, ok_bind, call, hi] at hc'
        obtain ⟨t, r, hx, -⟩ := moved_eq_ok_iff.mp hc'
        have hjump := hr.jump (o := o) h0 h1
        rw [BsonReader.seek, if_pos ⟨h0, h1⟩,
          Inside.next_of_skipValue rfl (hjump.skipValue_begin rfl)] at hx
        exact (readElement_ok_iff hjump (by omega)).mp ⟨_, hx⟩
  · intro hcut calls
    induction calls using List.reverseRecOn with
    | nil =>
        obtain ⟨r, hr⟩ := ofBufferSize_ok mem
        exact ⟨⟨r, []⟩, by rw [run, hr, ok_bind]; rfl⟩
    | append_singleton calls k ih =>
        obtain ⟨⟨r, offsets⟩, hc⟩ := ih
        rw [run_append, hc, ok_bind]
        exact Reaches.call_ok hcut ⟨calls, hc⟩ k

/-- A document of one boolean without a terminator: the second `next` reads behind the buffer. -/
theorem run_unterminated :
    ¬ ∀ (mem : List UInt8) (calls : List Call), ∃ c, run mem calls = .ok c := by
  intro h
  obtain ⟨c, hc⟩ := h [7, 0, 0, 0, 8, 0, 1] [.next, .next]
  have hstop : run [7, 0, 0, 0, 8, 0, 1] [.next, .next] = .error (.outOfBounds 7) := by decide
  rw [hstop] at hc
  exact absurd hc (by simp)

end Client

end ScApi
