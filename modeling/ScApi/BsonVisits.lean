import ScApi.BsonReads
import ScApi.BsonSeeking

/-!
# What a visit of a sub document leaves behind

`beginSub` saves the begin and the end of the enclosing document and its index; `endSub` brings the end
and the index back, and reading goes on behind the sub document. The begin stays that of the last sub
document that was entered.

Forward iteration does not use the begin, so `next` yields the element behind the sub document. A
`seekBegin` goes to the begin, and so do the searches for a key and for a smaller index.

## Main results

* `Kept.call`: the calls inside a sub document keep the layers around it.
* `Past.call`: once a sub document is entered, no call goes back in front of its elements.
* `Visited.next_behind`: `next` goes on behind the sub document.
* `not_backIn`: `seekBegin` does not lead to the first element of the enclosing document.
-/

open Bytes BoundedRead Bson

namespace ScApi

open ElementType

/-- The calls of a client inside a sub document that is the layer `depth`. None of them leaves it. -/
inductive Visits (mem : List UInt8) (depth : ℕ) (c : Client) : Client → Prop
  | refl : Visits mem depth c c
  | call {c₁ c₂ : Client} {k : Call} (h : Visits mem depth c c₁) (hcall : c₁.call mem k = .ok c₂)
      (hdepth : depth ≤ c₂.reader.docLayers.length) : Visits mem depth c c₂

/-- **A visit of a sub document**: a `beginSub`, any calls inside, and the matching `endSub`. -/
inductive Visited (mem : List UInt8) (c : Client) : BsonReader → Prop
  | visit {r₁ r' : BsonReader} {c₂ : Client} (hbegin : c.reader.beginSub mem = .ok (true, r₁))
      (hinside : Visits mem r₁.docLayers.length { c with reader := r₁ } c₂)
      (hlevel : c₂.reader.docLayers.length = r₁.docLayers.length)
      (hend : c₂.reader.endSub = (true, r')) : Visited mem c r'

namespace BsonReader

/-! ### The layers -/

/-- The ends of the document of the reader and of those around it, the innermost first. -/
def ends (r : BsonReader) : List ℤ :=
  r.curDocEnd :: r.docLayers.map DocState.endOffset

/-- **The layers around a document are kept**: the reader is in it, or in a document that was entered
inside it. -/
structure Kept (mem : List UInt8) (r₁ r : BsonReader) : Prop where
  inside : Inside mem r
  layers : r₁.docLayers <:+ r.docLayers
  ends : r₁.ends <:+ r.ends

section Kept

variable {mem : List UInt8} {r₁ r r' : BsonReader} {t : ElementType} {b : Bool}

theorem Kept.refl (h : Inside mem r) : Kept mem r r :=
  ⟨h, List.suffix_rfl, List.suffix_rfl⟩

/-- What leaves the layers and the end of the document alone, keeps them. -/
theorem Kept.of_frame (h : Kept mem r₁ r) (hin : Inside mem r') (hlayers : r'.docLayers = r.docLayers)
    (hend : r'.curDocEnd = r.curDocEnd) : Kept mem r₁ r' := by
  refine ⟨hin, hlayers ▸ h.layers, ?_⟩
  have hends : r'.ends = r.ends := by rw [BsonReader.ends, BsonReader.ends, hlayers, hend]
  exact hends ▸ h.ends

theorem Kept.next (h : Kept mem r₁ r) (hnext : r.next mem = .ok (t, r')) : Kept mem r₁ r' := by
  have hin := h.inside.next hnext
  rcases h.inside.next_cases hnext with ⟨-, -, rfl⟩ | ⟨_, -, -, -, hread⟩
  · exact h
  · obtain ⟨-, hend, hlayers, -⟩ := hread.frame
    exact h.of_frame hin hlayers hend

theorem Kept.beginSub (h : Kept mem r₁ r) (hbegin : r.beginSub mem = .ok (b, r')) :
    Kept mem r₁ r' := by
  have hin := h.inside.beginSub hbegin
  rcases h.inside.beginSub_cases hbegin with ⟨-, rfl⟩ | ⟨docSize, -, -, -, -, -, -, rfl⟩
  · exact h
  · exact ⟨hin, h.layers.trans (List.suffix_cons _ _), h.ends.trans (List.suffix_cons _ _)⟩

/-- An `endSub` that stays inside the document keeps what is around it. -/
theorem Kept.endSub (h : Kept mem r₁ r)
    (hdepth : r₁.docLayers.length ≤ r.endSub.2.docLayers.length) : Kept mem r₁ r.endSub.2 := by
  have hin := h.inside.endSub
  have hlayers := h.layers
  have hends := h.ends
  rw [BsonReader.endSub] at hdepth hin ⊢
  cases hl : r.docLayers with
  | nil => exact h
  | cons state layers =>
      rw [hl] at hlayers hdepth hin
      dsimp only at hdepth hin ⊢
      rw [BsonReader.ends, BsonReader.ends, hl, List.map_cons] at hends
      refine ⟨hin, ?_, ?_⟩
      · rcases List.suffix_cons_iff.mp hlayers with heq | hsuffix
        · rw [heq, List.length_cons] at hdepth
          exact absurd hdepth (Nat.not_succ_le_self _)
        · exact hsuffix
      · rcases List.suffix_cons_iff.mp hends with heq | hsuffix
        · have hlen := congrArg List.length heq
          rw [List.length_cons, List.length_cons, List.length_cons, List.length_map,
            List.length_map] at hlen
          omega
        · exact hsuffix

/-- A validation goes back only out of the documents that it has entered. -/
theorem Kept.validateLoop {n depth : ℕ} (h : Kept mem r₁ r)
    (hdepth : r₁.docLayers.length + depth ≤ r.docLayers.length)
    (hloop : validateLoop mem n depth r = .ok (b, r')) : Kept mem r₁ r' := by
  induction n generalizing depth r with
  | zero => cases hloop
  | succ n ih =>
      obtain ⟨⟨turn, r₂⟩, hturn, hloop⟩ := bind_eq_ok.mp hloop
      have hnextLayers : ∀ {t r₂}, r.next mem = .ok (t, r₂) → r₂.docLayers = r.docLayers := by
        intro t r₂ hnext
        rcases h.inside.next_cases hnext with ⟨-, -, rfl⟩ | ⟨_, -, -, -, hread⟩
        · rfl
        · exact hread.frame.2.2.1
      cases validateTurn_cases hturn with
      | formatError hnext =>
          obtain ⟨-, rfl⟩ := Prod.mk.inj (Except.ok.inj hloop)
          exact h.next hnext
      | docEnd _ hnext =>
          obtain ⟨-, rfl⟩ := Prod.mk.inj (Except.ok.inj hloop)
          exact h.next hnext
      | @endSub r₂ d hd hnext =>
          have hlayers := hnextLayers hnext
          have hlen : r₁.docLayers.length + d ≤ r₂.endSub.2.docLayers.length := by
            rw [BsonReader.endSub]
            cases hl : r₂.docLayers with
            | nil =>
                rw [← hlayers, hl] at hdepth
                rw [List.length_nil] at hdepth
                omega
            | cons state layers =>
                rw [← hlayers, hl, List.length_cons] at hdepth
                show _ ≤ layers.length
                omega
          have hkept := (h.next hnext).endSub (by omega)
          split_ifs at hloop
          · exact ih hkept hlen hloop
          · obtain ⟨-, rfl⟩ := Prod.mk.inj (Except.ok.inj hloop)
            exact hkept
      | @beginSub t r₂ r₃ b' _ hnext hbegin =>
          have hlayers := hnextLayers hnext
          have hkept := (h.next hnext).beginSub hbegin
          rcases (h.next hnext).inside.beginSub_cases hbegin with
            ⟨rfl, rfl⟩ | ⟨docSize, -, -, -, -, -, rfl, rfl⟩
          · obtain ⟨-, rfl⟩ := Prod.mk.inj (Except.ok.inj hloop)
            exact hkept
          · refine ih hkept ?_ hloop
            rw [inSub]
            dsimp only
            rw [List.length_cons, hlayers]
            omega
      | value _ _ _ hnext =>
          refine ih (h.next hnext) ?_ hloop
          rw [hnextLayers hnext]
          exact hdepth

/-- **The calls inside a sub document keep the layers around it.** -/
theorem Kept.call {c c' : Client} {k : Call} (h : Kept mem r₁ c.reader)
    (hcall : c.call mem k = .ok c')
    (hdepth : r₁.docLayers.length ≤ c'.reader.docLayers.length) : Kept mem r₁ c'.reader := by
  refine call_closed (P := Kept mem r₁) Kept.next Kept.beginSub
    (fun h h0 h1 => h.of_frame (h.inside.jump h0 h1) rfl rfl)
    (fun h => h.of_frame h.inside.seekBegin rfl rfl) h ?_ ?_ hcall
  · rintro rfl
    obtain rfl := Except.ok.inj hcall
    exact h.endSub hdepth
  · exact fun b r' hloop => h.validateLoop h.layers.length_le hloop

theorem Kept.visits {depth : ℕ} {c c' : Client} (h : Kept mem r₁ c.reader)
    (hdepth : r₁.docLayers.length = depth) (hvisits : Visits mem depth c c') :
    Kept mem r₁ c'.reader := by
  induction hvisits with
  | refl => exact h
  | call _ hcall hle ih => exact ih.call hcall (hdepth ▸ hle)

end Kept

/-! ### The begin of the document -/

/-- **The reader is past an offset**: the begin and the end of its document are behind it, and so is
what `next` reads. -/
structure Past (mem : List UInt8) (bound : ℤ) (r : BsonReader) : Prop where
  inside : Inside mem r
  docBegin : bound ≤ r.curDocBegin
  docEnd : bound ≤ r.curDocEnd
  offset : r.curType.ended = false → bound ≤ r.bufOffset

section Past

variable {mem : List UInt8} {bound : ℤ} {r r' : BsonReader} {t : ElementType} {b : Bool}

theorem Past.next (h : Past mem bound r) (hnext : r.next mem = .ok (t, r')) :
    Past mem bound r' := by
  have hin := h.inside.next hnext
  rcases h.inside.next_cases hnext with ⟨-, -, rfl⟩ | ⟨start, hended, hskip, -, hread⟩
  · exact h
  have hoff := h.offset hended
  have hstart : bound ≤ start := by
    rcases h.inside.pos_or_begin hended with hpos | hbegin
    · obtain ⟨start', hskip', hle, -⟩ := h.inside.skipValue_current hpos
      obtain rfl := Except.ok.inj (hskip.symm.trans hskip')
      exact hoff.trans hle
    · obtain rfl := Except.ok.inj (hskip.symm.trans (h.inside.skipValue_begin hbegin))
      exact hoff
  cases hread with
  | docEnd => exact ⟨hin, h.docBegin, h.docEnd, fun hrun => Bool.noConfusion hrun⟩
  | formatError htype _ _ _ _ hbegin hend =>
      refine ⟨hin, hbegin ▸ h.docBegin, hend ▸ h.docEnd, fun hrun => ?_⟩
      rw [htype] at hrun
      exact absurd hrun (by decide)
  | @element t key value need helem =>
      have hlt := helem.start_lt_value
      refine ⟨hin, h.docBegin, h.docEnd, fun _ => ?_⟩
      show bound ≤ value
      omega

/-- The document that `beginSub` enters starts at its first element, which lies behind. -/
theorem past_inSub {docSize : ℤ} (hlen : mem.length < 2147483648)
    (hoff : bound ≤ r.bufOffset) (hsize : i32At mem r.bufOffset = .ok docSize) (h0 : 0 ≤ docSize)
    (hin : Inside mem (r.inSub docSize)) : Past mem bound (r.inSub docSize) := by
  obtain ⟨hlo, hhi⟩ := range_of_i32At hsize
  have hwrap : wrap32 (r.bufOffset + 4) = r.bufOffset + 4 :=
    wrap32_of_range (by omega) (by omega)
  refine ⟨hin, ?_, ?_, fun _ => ?_⟩
  · show bound ≤ wrap32 (r.bufOffset + 4)
    omega
  · show bound ≤ r.bufOffset + docSize
    omega
  · show bound ≤ wrap32 (r.bufOffset + 4)
    omega

theorem Past.beginSub (hlen : mem.length < 2147483648) (h : Past mem bound r)
    (hbegin : r.beginSub mem = .ok (b, r')) : Past mem bound r' := by
  have hin := h.inside.beginSub hbegin
  rcases h.inside.beginSub_cases hbegin with ⟨-, rfl⟩ | ⟨docSize, htype, hsize, h0, -, -, -, rfl⟩
  · exact h
  · have hrun := ended_of_pos (pos_of_container htype)
    exact past_inSub hlen (h.offset hrun) hsize h0 hin

/-- The documents around the one of the reader end behind it. -/
theorem Past.endSub (h : Past mem bound r) : Past mem bound r.endSub.2 := by
  have hin := h.inside.endSub
  have hlayers := h.inside.layers
  rw [BsonReader.endSub] at hin ⊢
  cases hl : r.docLayers with
  | nil => exact h
  | cons state layers =>
      rw [hl] at hin hlayers
      exact ⟨hin, h.docBegin, h.docEnd.trans (hlayers state List.mem_cons_self).1, fun _ => h.docEnd⟩

/-- **No call goes back in front of a document that was entered.** -/
theorem Past.call (hlen : mem.length < 2147483648) {c c' : Client} {k : Call}
    (h : Past mem bound c.reader) (hcall : c.call mem k = .ok c') : Past mem bound c'.reader := by
  refine call_closed (P := Past mem bound) Past.next (Past.beginSub hlen)
    (fun h h0 h1 => ⟨h.inside.jump h0 h1, h.docBegin, h.docEnd, fun _ => h.docBegin.trans h0⟩)
    (fun h => ⟨h.inside.seekBegin, h.docBegin, h.docEnd, fun _ => h.docBegin⟩) h ?_ ?_ hcall
  · rintro rfl
    obtain rfl := Except.ok.inj hcall
    exact h.endSub
  · exact fun b r' hloop => validateLoop_closed (P := Past mem bound) Past.next (Past.beginSub hlen)
      Past.endSub h hloop

theorem Past.visits (hlen : mem.length < 2147483648) {depth : ℕ} {c c' : Client}
    (h : Past mem bound c.reader) (hvisits : Visits mem depth c c') : Past mem bound c'.reader := by
  induction hvisits with
  | refl => exact h
  | call _ hcall _ ih => exact ih.call hlen hcall

/-- What a reader that is past an offset reads after `seekBegin` lies behind it. -/
theorem Past.seekBegin_next (h : Past mem bound r) (hnext : r.seekBegin.next mem = .ok (t, r')) :
    bound ≤ r'.elementStartOffset := by
  have hin := h.inside.seekBegin
  rcases hin.next_cases hnext with ⟨hended, -, -⟩ | ⟨start, -, hskip, -, hread⟩
  · exact Bool.noConfusion hended
  · obtain rfl := Except.ok.inj (hskip.symm.trans (hin.skipValue_begin rfl))
    rw [hread.frame.2.2.2]
    exact h.docBegin

end Past

/-! ### Coming back -/

/-- **Back in the enclosing document**, from the sub document that is the element in front of `back`:
`next` yields the element behind it, with the next index, and `seekBegin` and `next` the first one. -/
structure BackIn {mem : List UInt8} (c : Container mem) (arrIndex : ℤ) (back : List Item)
    (r : BsonReader) : Prop where
  next : ∃ t r', r.next mem = .ok (t, r') ∧
    match back with
    | it :: _ => t = it.type ∧ r'.On it ∧ r'.arrIndex = nextArrIndex arrIndex
    | [] => t = elementEnd
  first : ∃ t r', r.seekBegin.next mem = .ok (t, r') ∧
    ∃ it ∈ c.items.head?, t = it.type ∧ r'.On it

section Visited

variable {mem : List UInt8} {c : Container mem} {client : Client} {r' : BsonReader} {it : Item}
  {front back : List Item}

/-- **The reader that comes back is in front of what follows** the sub document, with the index of its
element, whatever was done inside. -/
theorem Visited.before_behind (h : Visited mem client r') (hin : Inside mem client.reader)
    (hon : client.reader.On it)
    (hstored : storedSize mem it.value it.type = .ok (it.behind - it.value : ℕ)) :
    Before mem r' it.behind ∧ r'.curDocEnd = client.reader.curDocEnd ∧
      r'.docLayers = client.reader.docLayers ∧ r'.arrIndex = client.reader.arrIndex := by
  obtain ⟨hbegin, hinside, hlevel, hback⟩ := h
  rename_i r₁ c₂
  have hin₁ := hin.beginSub hbegin
  have hkept : Kept mem r₁ c₂.reader := Kept.visits (Kept.refl hin₁) rfl hinside
  have hlayers := hkept.layers.eq_of_length hlevel.symm
  have hends := hkept.ends.eq_of_length (by
    rw [BsonReader.ends, BsonReader.ends, List.length_cons, List.length_cons, List.length_map,
      List.length_map, hlevel])
  have hdocEnd : r₁.curDocEnd = c₂.reader.curDocEnd := (List.cons.inj hends).1
  obtain ⟨docSize, hcontainer, hsize, -, -, rfl, -⟩ := hin.beginSub_start hbegin
  have hle := it.value_le_behind
  have hsub : it.type.isContainer = true := hon.type ▸ hcontainer
  have hread : i32At mem it.value = .ok ((it.behind - it.value : ℕ) : ℤ) := by
    cases ht : it.type <;> rw [ht] at hsub hstored <;> first
      | exact absurd hsub (by decide)
      | exact hstored
  have hdocSize : docSize = ((it.behind - it.value : ℕ) : ℤ) := by
    rw [hon.value] at hsize
    exact Except.ok.inj (hsize.symm.trans hread)
  have hin' : Inside mem r' := by
    have hin₂ := hkept.inside.endSub
    rwa [hback] at hin₂
  rw [inSub] at hlayers hdocEnd
  dsimp only at hlayers hdocEnd
  rw [BsonReader.endSub, ← hlayers] at hback
  obtain rfl := (Prod.mk.inj hback).2
  have hoff : c₂.reader.curDocEnd = it.behind := by
    rw [← hdocEnd, hon.value, hdocSize]
    omega
  have hbefore : Before mem _ _ := hin'.before rfl
  dsimp only at hbefore
  rw [hoff] at hbefore
  exact ⟨hoff ▸ hbefore, rfl, rfl, rfl⟩

/-- **`next` goes on behind the sub document**, whatever was done inside. -/
theorem Visited.next_behind (h : Visited mem client r') (hin : Inside mem client.reader)
    (hitems : c.items = front ++ it :: back) (hon : client.reader.On it)
    (hend : client.reader.curDocEnd = (c.last + 1 : ℕ)) :
    ∃ t r'', r'.next mem = .ok (t, r'') ∧
      match back with
      | it :: _ => t = it.type ∧ r''.On it ∧ r''.arrIndex = nextArrIndex client.reader.arrIndex
      | [] => t = elementEnd := by
  obtain ⟨-, -, -, hstored, -, hfrom⟩ := itemsFrom_split hitems
  obtain ⟨hbefore, hdocEnd, -, hindex⟩ :=
    Visited.before_behind h hin hon hstored
  cases back with
  | nil => exact ⟨_, _, hbefore.next_last hfrom, rfl⟩
  | cons it' back =>
      exact ⟨_, _, (hbefore.next_onto hfrom (hdocEnd.trans hend)).1, rfl, On.onto _ it',
        congrArg nextArrIndex hindex⟩

/-- **After a visit of a sub document, `seekBegin` does not lead to the first element** of the document
around it, whatever was done before and inside. -/
theorem not_backIn (hlen : mem.length < 2147483648) {calls : List Call}
    (hrun : Client.run mem calls = .ok client) (hitems : c.items = front ++ it :: back)
    (hon : client.reader.On it) (h : Visited mem client r') :
    ¬ BackIn c client.reader.arrIndex back r' := by
  intro hbackIn
  obtain ⟨t, r'', hnext, first, hfirst, -, honFirst⟩ := hbackIn.first
  obtain ⟨hbegin, hinside, -, hend⟩ := h
  rename_i r₁ c₂
  have hin := Client.run_inside hrun
  have hin₁ := hin.beginSub hbegin
  obtain ⟨docSize, -, hsize, h0, -, rfl, -⟩ := hin.beginSub_start hbegin
  have hpast : Past mem it.value (client.reader.inSub docSize) :=
    past_inSub hlen hon.value.ge hsize h0 hin₁
  have hpast' := (hpast.visits hlen hinside).endSub
  rw [hend] at hpast'
  have hle := hpast'.seekBegin_next hnext
  rw [honFirst.start] at hle
  have hstart : first.start = c.first := by
    have hfrom := itemsFrom_container c
    cases hlist : c.items with
    | nil => rw [hlist] at hfirst; cases hfirst
    | cons it₀ items =>
        rw [hlist] at hfrom hfirst
        obtain rfl := Option.some.inj hfirst
        exact hfrom.1
  have hfront := ((itemsFrom_container c).start_le it (by rw [hitems]; simp)).1
  have hvalue : it.start < it.value := by
    rw [Item.value]
    omega
  omega

end Visited

/-- A number, and a document with another one. -/
def nestedEntries : List Entry :=
  [([97], .leaf (.i32 1)), ([98], .sub .doc (.leaf [99] (.i32 2) .nil))]

theorem clean_nestedEntries : ∀ e ∈ nestedEntries, 0 ∉ e.1 ∧ e.2.CleanKeys := by
  rintro e (_ | ⟨_, _ | ⟨_, ⟨⟩⟩⟩)
  · exact ⟨by decide, trivial⟩
  · exact ⟨by decide, by decide, trivial⟩

/-- Their document. -/
def nestedDocument : List UInt8 :=
  document (nestedEntries.flatMap Entry.bytes) ++ []

def nestedContainer : Container nestedDocument :=
  documentContainer nestedEntries [] clean_nestedEntries (by decide)

/-- A client on the document inside. -/
def nestedClient : Client where
  reader := ((accepted 27 27).atElement 4 elementI32 [97] 7).atElement 11 elementDoc [98] 14
  offsets := []

/-- The reader that comes back from it. -/
def nestedBack : BsonReader :=
  { nestedClient.reader with
    bufOffset := 26
    curDocBegin := 18
    curType := elementInternalDocBegin }

theorem run_nested : Client.run nestedDocument [.next, .next] = .ok nestedClient := by
  decide +kernel

theorem visited_nested : Visited nestedDocument nestedClient nestedBack := by
  have hbegin : nestedClient.reader.beginSub nestedDocument
      = .ok (true, nestedClient.reader.inSub 12) := by decide +kernel
  exact .visit hbegin .refl rfl (by decide +kernel)

theorem not_backIn_nested : ¬ BackIn nestedContainer (-2) [] nestedBack :=
  not_backIn (by decide) run_nested
    (show nestedContainer.items = [⟨4, ([97], .leaf (.i32 1))⟩]
      ++ [⟨11, ([98], .sub .doc (.leaf [99] (.i32 2) .nil))⟩] by decide)
    ⟨by decide, by decide, by decide, by decide⟩ visited_nested

/-- The first element after `seekBegin` is the number inside. -/
theorem seekBegin_nested :
    Client.run nestedDocument [.next, .next, .beginSub, .endSub] = .ok ⟨nestedBack, []⟩ ∧
      ¬ BackIn nestedContainer (-2) [] nestedBack := by
  refine ⟨by decide +kernel, fun h => ?_⟩
  have hnested : nestedBack.seekBegin.next nestedDocument
      = .ok (elementI32, nestedBack.seekBegin.atElement 18 elementI32 [99] 21) := by decide +kernel
  obtain ⟨t, r', hnext, it, hfirst, -, hon⟩ := h.first
  obtain ⟨-, rfl⟩ := Prod.mk.inj (Except.ok.inj (hnested.symm.trans hnext))
  obtain rfl := Option.some.inj (hfirst : some _ = some it)
  exact absurd (hon.start : (18 : ℤ) = 4) (by decide)

end BsonReader

end ScApi
