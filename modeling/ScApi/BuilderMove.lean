import ScApi.BuilderReuse
import ScApi.Lib.BoundedRead

/-!
# Moving a builder

Move assignment exchanges the members of two builders one by one. The stack with the places of the
sizes of open containers is left out: each builder keeps its own. It is seen when a container is closed
that was open at the time, or when one is closed that the builder does not know of.

## Main results

* `operatesAlike_alike`: what lies below the places that can be closed is not seen.
* `SameWork.after`: a builder that does what another one does still does so after some operations.
* `moveAssign_sameWork_iff`: when the builder that is assigned to does what the other one would have
  done.
-/

open Bytes Buffer BoundedRead Relating

namespace ScApi

open BsonBuilder

/-- `BsonBuilder::operator=` of two builders for an rvalue: what it leaves in them. -/
def BsonBuilder.moveAssign (a b : BsonBuilder) : BsonBuilder × BsonBuilder :=
  ({ a with
      arrayIdxCounters := b.arrayIdxCounters
      buffer := b.buffer
      offset := b.offset
      currentUsage := b.currentUsage
      capacity := b.capacity
      container := b.container
      docIsArrayBits := b.docIsArrayBits
      depth := b.depth
      startOffset := b.startOffset
      errorFlag := b.errorFlag
      reallocate := b.reallocate },
    { b with
      arrayIdxCounters := a.arrayIdxCounters
      buffer := a.buffer
      offset := a.offset
      currentUsage := a.currentUsage
      capacity := a.capacity
      container := a.container
      docIsArrayBits := a.docIsArrayBits
      depth := a.depth
      startOffset := a.startOffset
      errorFlag := a.errorFlag
      reallocate := a.reallocate })

/-- What some operations return, and the bytes that they leave in the buffer. -/
def observed (platform : Platform) (ops : List BuilderOperation) (b : BsonBuilder) :
    Build (List BuilderOutput × List UInt8) :=
  (performAll platform ops b).map fun p => (p.1, p.2.buffer)

/-- **Whatever is done with the second builder**, the same comes back from the first one, and the same
bytes are left in it. -/
def SameWork (platform : Platform) (a b : BsonBuilder) : Prop :=
  ∀ ops result, observed platform ops b = .ok result → observed platform ops a = .ok result

/-- The places on top of a stack at which a container can be closed: one in front of the buffer
cannot be written. -/
def closable (offsets : List ℤ) : List ℤ :=
  offsets.takeWhile fun start => decide (0 ≤ start)

/-- The second builder is the first one with another stack, that has the same places to close on top. -/
inductive Alike (f : BsonBuilder) : BsonBuilder → Prop
  | intro (offsets : List ℤ) (h : closable f.documentSizeOffsets <+: offsets) :
      Alike f { f with documentSizeOffsets := offsets }

section Alike

variable {f b : BsonBuilder} {platform : Platform} {x y : ℤ} {s t : List ℤ}

theorem closable_cons_of_nonneg (h : 0 ≤ x) : closable (x :: s) = x :: closable s :=
  List.takeWhile_cons_of_pos (decide_eq_true h)

theorem closable_cons_of_neg (h : x < 0) : closable (x :: s) = [] :=
  List.takeWhile_cons_of_neg (by simpa using h)

theorem writesAlike_alike : WritesAlike Alike where
  buffer := by rintro f b ⟨offsets, h⟩; rfl
  offset := by rintro f b ⟨offsets, h⟩; rfl
  currentUsage := by rintro f b ⟨offsets, h⟩; rfl
  capacity := by rintro f b ⟨offsets, h⟩; rfl
  container := by rintro f b ⟨offsets, h⟩; rfl
  reallocate := by rintro f b ⟨offsets, h⟩; rfl
  written := by
    rintro f b ⟨offsets, h⟩ buffer
    exact Alike.intro (f := { f with buffer }) offsets h
  moved := by
    rintro f b ⟨offsets, h⟩ offset currentUsage
    exact Alike.intro (f := { f with offset, currentUsage }) offsets h
  grown := by
    rintro f b ⟨offsets, h⟩ buffer capacity container
    exact Alike.intro (f := { f with buffer, capacity, container }) offsets h
  failed := by
    rintro f b ⟨offsets, h⟩
    exact Alike.intro (f := { f with errorFlag := true }) offsets h

/-- A container that starts in front of the buffer is not closed. -/
theorem closeContainer_of_neg (hx : x < 0) (b : BsonBuilder) :
    b.closeContainer x = .error (.outOfBounds
      (if 0 ≤ b.offset ∧ b.offset + ([0] : List UInt8).length ≤ b.buffer.length then x
        else b.offset)) := by
  have hstart : ∀ (b : BsonBuilder) bytes, b.write x bytes = .error (.outOfBounds x) := fun b bytes =>
    if_neg fun h => by omega
  rw [BsonBuilder.closeContainer, BsonBuilder.write]
  split_ifs
  · simp only [pure, Except.pure, bind, Except.bind, hstart]
  · rfl

/-- **A container is closed** in both, or it cannot be closed in the first one. -/
theorem related_close (hs : closable (x :: s) <+: t) (f : BsonBuilder) :
    (∃ stop, { f with documentSizeOffsets := s }.closeContainer x = .error stop) ∨
      ∃ t', t = x :: t' ∧ Related (fun _ => True) Alike
        ({ f with documentSizeOffsets := s }.closeContainer x)
        ({ f with documentSizeOffsets := t' }.closeContainer x) := by
  rcases lt_or_ge x 0 with hx | hx
  · exact .inl ⟨_, closeContainer_of_neg hx _⟩
  · rw [closable_cons_of_nonneg hx] at hs
    obtain ⟨t', rfl, hrest⟩ := List.cons_prefix_iff.mp hs
    refine .inr ⟨t', rfl, writesAlike_alike.closeContainer ?_ x⟩
    exact Alike.intro (f := { f with documentSizeOffsets := s }) t' hrest

theorem alike_closed (h : Alike f b) :
    Alike { f with depth := wrap32 (f.depth - 1) } { b with depth := wrap32 (b.depth - 1) } := by
  obtain ⟨offsets, h⟩ := h
  exact Alike.intro (f := { f with depth := wrap32 (f.depth - 1) }) offsets h

/-- **What lies below the places that can be closed is not seen** by any operation. -/
theorem operatesAlike_alike (hkey : platform.SameKeyBuffers) :
    OperatesAlike platform (fun _ => True) Alike where
  toWritesAlike := writesAlike_alike
  index elementType size := by
    rintro f b ⟨offsets, h⟩
    rw [verifyCapacityAndInsertArrayKey, verifyCapacityAndInsertArrayKey,
      hkey { f with documentSizeOffsets := offsets } f]
    dsimp only
    cases f.arrayIdxCounters with
    | nil => exact Related.throw _
    | cons idx counters =>
        have htaken : Alike { f with arrayIdxCounters := wrap32 (idx + 1) :: counters }
            { f with
              documentSizeOffsets := offsets
              arrayIdxCounters := wrap32 (idx + 1) :: counters } :=
          Alike.intro (f := { f with arrayIdxCounters := wrap32 (idx + 1) :: counters }) offsets h
        exact writesAlike_alike.insertHeader htaken _ _
  opened := by
    rintro f b ⟨offsets, h⟩ kind
    refine Alike.intro (f := f.openContainer kind) (f.offset :: offsets) ?_
    show closable (f.offset :: f.documentSizeOffsets) <+: f.offset :: offsets
    rcases lt_or_ge f.offset 0 with hx | hx
    · rw [closable_cons_of_neg hx]
      exact List.nil_prefix
    · rw [closable_cons_of_nonneg hx]
      exact List.cons_prefix_cons.mpr ⟨rfl, h⟩
  endDocument := by
    rintro f b ⟨offsets, h⟩
    rw [BsonBuilder.endDocument, BsonBuilder.endDocument]
    dsimp only
    cases hf : f.documentSizeOffsets with
    | nil => exact .loose trivial
    | cons x s =>
        rw [hf] at h
        rcases related_close h f with ⟨stop, hstop⟩ | ⟨t, rfl, hclose⟩
        · dsimp only
          rw [hstop]
          exact .loose trivial
        · exact hclose.bind fun f' b' h' => Related.pure (alike_closed h')
  endArray := by
    rintro f b ⟨offsets, h⟩
    rw [BsonBuilder.endArray, BsonBuilder.endArray]
    dsimp only
    cases hf : f.documentSizeOffsets with
    | nil => exact .loose trivial
    | cons x s =>
        cases f.arrayIdxCounters with
        | nil => exact .loose trivial
        | cons idx counters =>
            rw [hf] at h
            rcases related_close h { f with arrayIdxCounters := counters } with
              ⟨stop, hstop⟩ | ⟨t, rfl, hclose⟩
            · dsimp only at hstop ⊢
              rw [hstop]
              exact .loose trivial
            · exact hclose.bind fun f' b' h' => Related.pure (alike_closed h')
  depth := by rintro f b ⟨offsets, h⟩; rfl
  startOffset := by rintro f b ⟨offsets, h⟩; rfl
  errorFlag := by rintro f b ⟨offsets, h⟩; rfl
  initializeBuffer := by
    rintro f b ⟨offsets, h⟩ buffer
    exact Alike.intro (f := f.initializeBuffer buffer) offsets h
  initializeVector := by
    rintro f b ⟨offsets, h⟩ content capacity startOffset reservedExtraFooter
    exact Alike.intro
      (f := f.initializeVector content capacity startOffset reservedExtraFooter platform) offsets h

theorem Alike.sameWork (hkey : platform.SameKeyBuffers) (h : Alike f b) : SameWork platform b f := by
  intro ops result hf
  have hrelated := (operatesAlike_alike hkey).performAll ops h
  refine hrelated.map_eq_ok (fun p q hpq => ?_) hf
  rw [hpq.1, writesAlike_alike.buffer hpq.2]

end Alike

/-! ### What is seen of a stack -/

section Seen

variable {a b a' b' : BsonBuilder} {platform : Platform} {x y : ℤ} {s t : List ℤ}
  {B : List UInt8}

/-- Some more operations. -/
theorem performAll_append {ops : List BuilderOperation} {outputs : List BuilderOutput}
    (h : performAll platform ops b = .ok (outputs, b')) (rest : List BuilderOperation) :
    performAll platform (ops ++ rest) b
      = (performAll platform rest b').map fun p => (outputs ++ p.1, p.2) := by
  induction ops generalizing b outputs with
  | nil =>
      obtain ⟨rfl, rfl⟩ := Prod.mk.inj (Except.ok.inj h)
      cases hrest : performAll platform rest b <;> simp [hrest, Except.map]
  | cons op ops ih =>
      obtain ⟨⟨output, c⟩, hop, h⟩ := bind_eq_ok.mp h
      obtain ⟨⟨outputs', c'⟩, hops, h⟩ := bind_eq_ok.mp h
      obtain ⟨rfl, rfl⟩ := Prod.mk.inj (Except.ok.inj h)
      rw [List.cons_append, performAll, hop]
      cases hrest : performAll platform rest c' <;>
        simp [ih hops, hrest, bind, Except.bind, pure, Except.pure, Except.map]

theorem observed_append {ops : List BuilderOperation} {outputs : List BuilderOutput}
    (h : performAll platform ops b = .ok (outputs, b')) (rest : List BuilderOperation) :
    observed platform (ops ++ rest) b
      = (observed platform rest b').map fun r => (outputs ++ r.1, r.2) := by
  rw [observed, observed, performAll_append h]
  cases performAll platform rest b' <;> rfl

/-- **A builder that does what another one does** still does so after some operations. -/
theorem SameWork.after {ops : List BuilderOperation} {outputs outputs' : List BuilderOutput}
    (h : SameWork platform a b) (ha : performAll platform ops a = .ok (outputs, a'))
    (hb : performAll platform ops b = .ok (outputs', b')) : SameWork platform a' b' := by
  intro rest result hresult
  have hops : (outputs, a'.buffer) = (outputs', b'.buffer) := by
    have hsame := h ops (outputs', b'.buffer) (by rw [observed, hb]; rfl)
    rw [observed, ha] at hsame
    exact Except.ok.inj hsame
  have hall := h (ops ++ rest) (outputs' ++ result.1, result.2)
    (by rw [observed_append hb, hresult]; rfl)
  rw [observed_append ha, (Prod.mk.inj hops).1] at hall
  cases hrest : observed platform rest a' with
  | error stop =>
      rw [hrest] at hall
      exact absurd hall (by simp [Except.map])
  | ok result' =>
      rw [hrest] at hall
      obtain ⟨houtputs, hbuffer⟩ := Prod.mk.inj (Except.ok.inj hall)
      exact congrArg Except.ok (Prod.ext (List.append_cancel_left houtputs) hbuffer)

/-- A buffer is given to the builder, and a document is closed in it. -/
def closeIn (B : List UInt8) : List BuilderOperation :=
  [.initializeBuffer B, .call (.close .doc)]

theorem performAll_closeIn (B : List UInt8) (b : BsonBuilder) :
    performAll platform (closeIn B) b
      = (b.initializeBuffer B).endDocument.map fun b => ([.nothing, .succeeded true], b) := by
  cases h : (b.initializeBuffer B).endDocument <;>
    simp [closeIn, performAll, BuilderOperation.perform, BuilderCall.perform, h, Except.map]

/-- **A document is closed** whose size is in the buffer. -/
theorem performAll_closeIn_of_nonneg (platform : Platform) (hb : b.documentSizeOffsets = x :: s) (hx : 0 ≤ x)
    (hB : 5 ≤ B.length) (hroom : x + 4 ≤ B.length) :
    ∃ b', performAll platform (closeIn B) b = .ok ([.nothing, .succeeded true], b') ∧
      b'.documentSizeOffsets = s ∧
      b'.buffer = overwrite (overwrite B 4 [0]) x.toNat (ofI32 (wrap32 (5 - x))) := by
  have hfour : ([0] : List UInt8).length = 1 := rfl
  have hlen : (overwrite B 4 [0]).length = B.length := length_overwrite (by rw [hfour]; omega)
  have hoffset : (b.initializeBuffer B).offset = 4 := rfl
  have hstack : (b.initializeBuffer B).documentSizeOffsets = x :: s := hb
  have hfirst : ∀ c : BsonBuilder, c.buffer = B → c.write 4 [0]
      = .ok { c with buffer := overwrite B 4 [0] } := by
    rintro c rfl
    exact if_pos ⟨by decide, by rw [hfour]; omega⟩
  have hsecond : ∀ c : BsonBuilder, c.buffer = overwrite B 4 [0] →
      c.write x (ofI32 (wrap32 (5 - x)))
        = .ok { c with buffer := overwrite (overwrite B 4 [0]) x.toNat (ofI32 (wrap32 (5 - x))) } := by
    intro c hc
    rw [BsonBuilder.write, hc, if_pos ⟨hx, by rw [length_ofI32, hlen]; exact_mod_cast hroom⟩]
    rfl
  have hclose : { b.initializeBuffer B with documentSizeOffsets := s }.closeContainer x
      = .ok { b.initializeBuffer B with
          documentSizeOffsets := s
          buffer := overwrite (overwrite B 4 [0]) x.toNat (ofI32 (wrap32 (5 - x)))
          offset := 5 } :=
    bind_eq_ok.mpr ⟨_, hfirst _ rfl, bind_eq_ok.mpr ⟨_, hsecond _ rfl, rfl⟩⟩
  refine ⟨{ b.initializeBuffer B with
    documentSizeOffsets := s
    buffer := overwrite (overwrite B 4 [0]) x.toNat (ofI32 (wrap32 (5 - x)))
    offset := 5
    depth := wrap32 (b.depth - 1) }, ?_, rfl, rfl⟩
  rw [performAll_closeIn, BsonBuilder.endDocument, hstack]
  dsimp only
  rw [hclose]
  rfl

/-- What is closed in a buffer starts behind the beginning of it. -/
theorem top_of_closeIn {result : List BuilderOutput × BsonBuilder}
    (h : performAll platform (closeIn B) b = .ok result) :
    ∃ x s, b.documentSizeOffsets = x :: s ∧ 0 ≤ x := by
  rw [performAll_closeIn] at h
  cases hb : b.documentSizeOffsets with
  | nil =>
      have hstack : (b.initializeBuffer B).documentSizeOffsets = [] := hb
      rw [BsonBuilder.endDocument, hstack] at h
      exact absurd h (by simp [throw, throwThe, MonadExceptOf.throw, Except.map])
  | cons x s =>
      refine ⟨x, s, rfl, ?_⟩
      by_contra hx
      have hstack : (b.initializeBuffer B).documentSizeOffsets = x :: s := hb
      rw [BsonBuilder.endDocument, hstack] at h
      dsimp only at h
      rw [closeContainer_of_neg (not_le.mp hx)] at h
      exact absurd h (by simp [bind, Except.bind, Except.map])

/-! #### The place of a size is seen in the buffer -/

/-- The byte at the place of the size that is written first is not there otherwise. -/
theorem read_size_ne {x y N : ℕ} (hxy : x < y) (hx : x < N) (hy : y < N) (hN : 5 ≤ N) :
    ∃ fill : UInt8,
      overwrite (overwrite (List.replicate N fill) 4 [0]) x (ofI32 (wrap32 (5 - x)))
        ≠ overwrite (overwrite (List.replicate N fill) 4 [0]) y (ofI32 (wrap32 (5 - y))) := by
  obtain ⟨low, hlow⟩ : ∃ low, low = UInt8.ofNat (wrap32 (5 - x) % 4294967296).toNat := ⟨_, rfl⟩
  refine ⟨low + 1, fun heq => ?_⟩
  have hlen : (overwrite (List.replicate N (low + 1)) 4 [0]).length = N := by
    rw [length_overwrite (by simp; omega), List.length_replicate]
  have hread := congrArg (fun l => (l.drop (x + 0)).take 1) heq
  rw [read_overwrite (by omega) (by rw [length_ofI32]; omega), Nat.add_zero,
    read_overwrite_of_le (by omega) (by omega)] at hread
  have hleft : ((ofI32 (wrap32 (5 - x))).drop 0).take 1 = [low] := by
    rw [hlow]
    rfl
  rw [hleft] at hread
  have hfill : ((List.replicate N (low + 1)).drop x).take 1 = [low + 1] := by
    rw [List.drop_replicate, List.take_replicate, Nat.min_eq_left (by omega)]
    rfl
  rcases lt_trichotomy x 4 with hlt | rfl | hgt
  · rw [read_overwrite_of_le (by simp; omega) (by omega), hfill] at hread
    simp at hread
  · have hone : ([0] : List UInt8).length = 1 := rfl
    rw [read_overwrite_self (by rw [List.length_replicate]; omega) hone, hlow] at hread
    exact absurd hread (by decide)
  · rw [drop_overwrite_of_le (by simp; omega) (by simp; omega), hfill] at hread
    simp at hread

/-- **Where a size is written** is seen in a buffer that is filled with the right byte. -/
theorem place_eq {N : ℕ} (hx : 0 ≤ x) (hy : 0 ≤ y) (hxN : x < N) (hyN : y < N) (hN : 5 ≤ N)
    (h : ∀ fill, overwrite (overwrite (List.replicate N fill) 4 [0]) x.toNat (ofI32 (wrap32 (5 - x)))
      = overwrite (overwrite (List.replicate N fill) 4 [0]) y.toNat (ofI32 (wrap32 (5 - y)))) :
    x = y := by
  lift x to ℕ using hx
  lift y to ℕ using hy
  simp only [Int.toNat_natCast] at h
  rcases lt_trichotomy x y with hlt | heq | hgt
  · obtain ⟨fill, hne⟩ := read_size_ne hlt (N := N) (by omega) (by omega) hN
    exact absurd (h fill) hne
  · exact congrArg Nat.cast heq
  · obtain ⟨fill, hne⟩ := read_size_ne hgt (N := N) (by omega) (by omega) hN
    exact absurd (h fill).symm hne

/-- **A container that the second builder can close**, the first one closes at the same place, and then
it still does the same. -/
theorem SameWork.top (h : SameWork platform a b) (hb : b.documentSizeOffsets = y :: t) (hy : 0 ≤ y) :
    ∃ s a' b', a.documentSizeOffsets = y :: s ∧ SameWork platform a' b' ∧
      a'.documentSizeOffsets = s ∧ b'.documentSizeOffsets = t := by
  have hcloses : ∀ B : List UInt8, 5 ≤ B.length → y + 4 ≤ B.length → ∃ a' b',
      performAll platform (closeIn B) a = .ok ([.nothing, .succeeded true], a') ∧
      performAll platform (closeIn B) b = .ok ([.nothing, .succeeded true], b') ∧
      b'.documentSizeOffsets = t ∧ a'.buffer = b'.buffer ∧
      b'.buffer = overwrite (overwrite B 4 [0]) y.toNat (ofI32 (wrap32 (5 - y))) := by
    intro B hB hroom
    obtain ⟨b', hclose, ht, hbuffer⟩ := performAll_closeIn_of_nonneg platform hb hy hB hroom
    have hsame := h (closeIn B) ([.nothing, .succeeded true], b'.buffer) (by rw [observed, hclose]; rfl)
    rw [observed] at hsame
    cases ha : performAll platform (closeIn B) a with
    | error stop =>
        rw [ha] at hsame
        exact absurd hsame (by simp [Except.map])
    | ok p =>
        obtain ⟨outputs, a'⟩ := p
        rw [ha] at hsame
        obtain ⟨rfl, hbuffers⟩ := Prod.mk.inj (Except.ok.inj hsame)
        exact ⟨a', b', rfl, hclose, ht, hbuffers, hbuffer⟩
  -- the first builder has a container on top
  obtain ⟨x, s, ha, hx⟩ : ∃ x s, a.documentSizeOffsets = x :: s ∧ 0 ≤ x := by
    obtain ⟨a', b', hclose, -⟩ := hcloses (List.replicate (y.toNat + 5) 0)
      (by rw [List.length_replicate]; omega) (by rw [List.length_replicate]; omega)
    exact top_of_closeIn hclose
  obtain ⟨N, hN⟩ : ∃ N, N = x.toNat + y.toNat + 5 := ⟨_, rfl⟩
  have hlen : ∀ fill : UInt8, (List.replicate N fill).length = N := fun fill => List.length_replicate
  have hfive : ∀ fill : UInt8, 5 ≤ (List.replicate N fill).length := fun fill => by
    rw [hlen]
    omega
  have hroom : ∀ (fill : UInt8) {z : ℤ}, z = x ∨ z = y → z + 4 ≤ (List.replicate N fill).length := by
    rintro fill z (rfl | rfl) <;> rw [hlen] <;> omega
  have hplaces : x = y := by
    refine place_eq hx hy (N := N) (by omega) (by omega) (by omega) fun fill => ?_
    obtain ⟨a', b', hclose, -, -, hbuffers, hbuffer⟩ :=
      hcloses (List.replicate N fill) (hfive fill) (hroom fill (.inr rfl))
    obtain ⟨a'', hclose', -, hbuffer'⟩ :=
      performAll_closeIn_of_nonneg platform ha hx (hfive fill) (hroom fill (.inl rfl))
    obtain ⟨-, rfl⟩ := Prod.mk.inj (Except.ok.inj (hclose'.symm.trans hclose))
    exact hbuffer'.symm.trans (hbuffers.trans hbuffer)
  obtain ⟨a', b', hclose, hclose', ht, -⟩ := hcloses (List.replicate N 0) (hfive 0) (hroom 0 (.inr rfl))
  obtain ⟨a'', hclose'', hs, -⟩ :=
    performAll_closeIn_of_nonneg platform ha hx (hfive 0) (hroom 0 (.inl rfl))
  obtain ⟨-, rfl⟩ := Prod.mk.inj (Except.ok.inj (hclose''.symm.trans hclose))
  exact ⟨s, a'', b', hplaces ▸ ha, h.after hclose hclose', hs, ht⟩

/-- **A builder's work shows the places that it can close.** -/
theorem SameWork.closable_prefix (h : SameWork platform a b) :
    closable b.documentSizeOffsets <+: a.documentSizeOffsets := by
  generalize hb : b.documentSizeOffsets = t
  induction t generalizing a b with
  | nil => exact List.nil_prefix
  | cons y t ih =>
      rcases lt_or_ge y 0 with hy | hy
      · rw [closable_cons_of_neg hy]
        exact List.nil_prefix
      · obtain ⟨s, a', b', ha, h', ha', hb'⟩ := h.top hb hy
        rw [closable_cons_of_nonneg hy, ha, ← ha']
        exact List.cons_prefix_cons.mpr ⟨rfl, ih h' hb'⟩

end Seen

/-- **When a builder that was assigned to does what the other one would have done**: when the stack
that it keeps has the places on top that the other one can close. -/
theorem moveAssign_sameWork_iff {platform : Platform} (hkey : platform.SameKeyBuffers)
    (a b : BsonBuilder) :
    SameWork platform (a.moveAssign b).1 b ↔
      closable b.documentSizeOffsets <+: a.documentSizeOffsets := by
  constructor
  · exact SameWork.closable_prefix
  · intro h
    exact (Alike.intro (f := b) a.documentSizeOffsets h).sameWork hkey

/-- A document with a name is begun in a buffer. -/
def openedIn (name : List UInt8) : List BuilderOperation :=
  [.initializeBuffer (List.replicate 40 0), .call (.begin (.name name) .doc)]

/-- A document is open in both builders, at one place. The first one has another one below, which was
abandoned. -/
theorem moveAssign_sameWork_abandoned :
    ∃ a b, (performAll Platform.tight (openedIn [97, 97] ++ openedIn [98]) {}).map Prod.snd = .ok a ∧
      (performAll Platform.tight (openedIn [98]) {}).map Prod.snd = .ok b ∧
      a.documentSizeOffsets = [7, 8] ∧ b.documentSizeOffsets = [7] ∧
      SameWork Platform.tight (a.moveAssign b).1 b := by
  obtain ⟨a, ha⟩ : ∃ a, (performAll Platform.tight (openedIn [97, 97] ++ openedIn [98]) {}).map Prod.snd
      = .ok a := ⟨_, rfl⟩
  obtain ⟨b, hb⟩ : ∃ b, (performAll Platform.tight (openedIn [98]) {}).map Prod.snd = .ok b := ⟨_, rfl⟩
  have hstack : ((performAll Platform.tight (openedIn [97, 97] ++ openedIn [98]) {}).map Prod.snd).map
      documentSizeOffsets = .ok [7, 8] := by decide +kernel
  have hstack' : ((performAll Platform.tight (openedIn [98]) {}).map Prod.snd).map
      documentSizeOffsets = .ok [7] := by decide +kernel
  rw [ha] at hstack
  rw [hb] at hstack'
  have ha' : a.documentSizeOffsets = [7, 8] := Except.ok.inj hstack
  have hb' : b.documentSizeOffsets = [7] := Except.ok.inj hstack'
  refine ⟨a, b, ha, hb, ha', hb', (moveAssign_sameWork_iff (fun _ _ => rfl) a b).mpr ?_⟩
  rw [ha', hb']
  decide

/-- **A document is open in both builders**, behind names of two lengths: after the move, its size is
written where the other one's would be. -/
theorem not_moveAssign_sameWork :
    ∃ a b, (performAll Platform.tight (openedIn [97, 97]) {}).map Prod.snd = .ok a ∧
      (performAll Platform.tight (openedIn [98]) {}).map Prod.snd = .ok b ∧
      ¬ SameWork Platform.tight (a.moveAssign b).1 b := by
  obtain ⟨a, ha⟩ : ∃ a, (performAll Platform.tight (openedIn [97, 97]) {}).map Prod.snd = .ok a :=
    ⟨_, rfl⟩
  obtain ⟨b, hb⟩ : ∃ b, (performAll Platform.tight (openedIn [98]) {}).map Prod.snd = .ok b := ⟨_, rfl⟩
  have hstack : ((performAll Platform.tight (openedIn [97, 97]) {}).map Prod.snd).map
      documentSizeOffsets = .ok [8] := by decide +kernel
  have hstack' : ((performAll Platform.tight (openedIn [98]) {}).map Prod.snd).map
      documentSizeOffsets = .ok [7] := by decide +kernel
  rw [ha] at hstack
  rw [hb] at hstack'
  refine ⟨a, b, ha, hb, fun h => ?_⟩
  have hplaces : closable b.documentSizeOffsets <+: a.documentSizeOffsets := h.closable_prefix
  rw [show a.documentSizeOffsets = [8] from Except.ok.inj hstack,
    show b.documentSizeOffsets = [7] from Except.ok.inj hstack'] at hplaces
  exact absurd hplaces (by decide)

end ScApi
