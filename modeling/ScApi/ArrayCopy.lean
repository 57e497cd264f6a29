import ScApi.ShmAccess

/-!
# Copies of array variables

The value of an array variable has a revision counter of its own, which the backend makes odd while
it modifies the elements. `RevisionCountedArrayRef::atomicCopy` copies the elements and accepts the
copy when the counter has not changed; while the backend is at work it tries again. But it takes the
second bit of the counter for the busy bit, so it copies during every other modification, and
waits in vain at every other even value.

## Main results

* `attempts_oneVersion`: in a run that meets the condition a copy that is accepted is one version.
* `eval_attempts`: when the copy succeeds if the backend does nothing.
* `atomicCopy_of_guarded`: both together.
-/

namespace ScApi

open Runs SharedBlock SharedBlock.Reader SharedBlock.Reading

/-- The bytes of the elements. -/
abbrev ArrayBytes : ℕ → Type := fun _ => UInt8

/-- `std::memcpy` out of shared memory: the order in which it reads a given number of bytes. -/
structure Memcpy where
  order : ℕ → List ℕ
  mem_order : ∀ n i, i ∈ order n ↔ i < n

/-- A buffer of `size` elements. -/
structure ElementBuffer (elementSize : ℕ) where
  size : ℕ
  bytes : List UInt8
  length_bytes : bytes.length = elementSize * size

/-- The copy of the first bytes to the front of the buffer. -/
def copyBytes (cpy : Memcpy) (count : ℕ) (buf : List UInt8) : Reader ArrayBytes (List UInt8) :=
  copyInto (fun i => readCell (V := ArrayBytes) i) (cpy.order count) buf

/-- The end of a turn of the loop of `atomicCopy`; `again` is the next turn. -/
def recheckArray (startRevCount : UInt32)
    (again : List UInt8 → Reader ArrayBytes (Bool × List UInt8)) (buf : List UInt8) :
    Reader ArrayBytes (Bool × List UInt8) := do
  let revCounter ← readCounter
  if revCounter = startRevCount then
    pure (true, buf)
  else
    again buf

/-- The loop of `atomicCopy`, with the turns that are left. -/
def attempts (cpy : Memcpy) (count : ℕ) : ℕ → List UInt8 → Reader ArrayBytes (Bool × List UInt8)
  | 0, buf => pure (false, buf)
  | n + 1, buf => do
      let startRevCount ← readCounter
      if startRevCount &&& 2 ≠ 0 then
        attempts cpy count n buf
      else
        copyBytes cpy count buf >>= recheckArray startRevCount fun buf => attempts cpy count n buf

/-- `RevisionCountedArrayRef::atomicCopy`, for elements of a given size. -/
def atomicCopy (cpy : Memcpy) {elementSize : ℕ} (arraySize : ℕ) (buf : ElementBuffer elementSize) :
    Reader ArrayBytes (Bool × List UInt8) :=
  attempts cpy (elementSize * min arraySize buf.size) 100000 buf.bytes

/-- The buffer with the first bytes of a version at its front. -/
def withVersion (v : ∀ i, ArrayBytes i) (count : ℕ) (buf : List UInt8) : List UInt8 :=
  (List.range count).map v ++ buf.drop count

/-- The condition on a step: when a turn of the loop begins during a modification, the second bit of the
counter is set, and when it ends, fewer than 2^31 versions have been published since. -/
def CopyGuarded (cpy : Memcpy) (count : ℕ) (w : SharedBlock.Reading ArrayBytes (Bool × List UInt8)) :
    Label ArrayBytes → Prop
  | .write _ => True
  | .read =>
      (∀ n buf, w.reader = attempts cpy count (n + 1) buf →
        w.block.Busy → w.block.counter &&& 2 ≠ 0) ∧
      ∀ startRevCount again buf, w.reader = recheckArray startRevCount again buf →
        w.block.versions.length < w.mark + 2147483648

variable {cpy : Memcpy} {count : ℕ} {buf out : List UInt8}

/-- What a turn of the loop does when it has read the counter. -/
def turn (cpy : Memcpy) (count n : ℕ) (buf : List UInt8) (startRevCount : UInt32) :
    Reader ArrayBytes (Bool × List UInt8) :=
  if startRevCount &&& 2 ≠ 0 then
    attempts cpy count n buf
  else
    copyBytes cpy count buf >>= recheckArray startRevCount (attempts cpy count n)

theorem attempts_succ (n : ℕ) :
    attempts cpy count (n + 1) buf = .counter (turn cpy count n buf) := rfl

theorem recheckArray_eq (startRevCount : UInt32)
    (again : List UInt8 → Reader ArrayBytes (Bool × List UInt8)) :
    recheckArray startRevCount again buf = .counter fun revCounter =>
      if revCounter = startRevCount then .done (true, buf) else again buf := rfl

theorem eval_copyBytes (b : Block ArrayBytes) (hcount : count ≤ buf.length) :
    (copyBytes cpy count buf).eval b = withVersion b.cells count buf := by
  refine List.ext_getElem? fun i => ?_
  rw [copyBytes, getElem?_copyInto, withVersion]
  simp only [cpy.mem_order]
  by_cases hi : i < count
  · have hlen : i < buf.length := by omega
    rw [if_pos hi, List.getElem?_append_left (by simpa using hi)]
    have hrange : (List.range count)[i]? = some i := List.getElem?_range hi
    simp [readCell, hrange, hlen]
  · rw [if_neg hi, List.getElem?_append_right (by simpa using hi), List.getElem?_drop]
    congr 1
    simp
    omega

/-- **A copy that is accepted is one version**, by induction on the turns that are left. -/
theorem attempts_oneVersion {n : ℕ} {b b' : Block ArrayBytes} {m m' : ℕ}
    {ls : List (Label ArrayBytes)} (hb : b.Published) (hcount : count ≤ buf.length)
    (hok : Meets step (CopyGuarded cpy count) ⟨b, attempts cpy count n buf, m⟩ ls)
    (h : exec step ⟨b, attempts cpy count n buf, m⟩ ls = some ⟨b', .done (true, out), m'⟩) :
    ∃ v ∈ b'.versions, out = withVersion v count buf := by
  induction n generalizing buf b m ls with
  | zero => simpa using done_inj h
  | succ n ih =>
      obtain ⟨ls₁, ls₂, b₁, rfl, hwait, hrun⟩ := exec_counter h
      have hb₁ : b₁.Published := hb.exec hwait
      obtain ⟨-, ⟨hbit, -⟩, hok⟩ := (meets_append hwait).mp hok
      have hbit := hbit n buf rfl
      have hok : Meets step (CopyGuarded cpy count)
        ⟨b₁, turn cpy count n buf b₁.counter, b₁.versions.length⟩ ls₂ := hok _ rfl
      have hrun : exec step ⟨b₁, turn cpy count n buf b₁.counter, b₁.versions.length⟩ ls₂ =
        some ⟨b', .done (true, out), m'⟩ := hrun
      rw [turn] at hok hrun
      by_cases hbusy : b₁.counter &&& 2 ≠ 0
      · rw [if_pos hbusy] at hok hrun
        exact ih hb₁ hcount hok hrun
      rw [if_neg hbusy] at hok hrun
      have hidle : ¬ b₁.Busy := fun h => hbusy (hbit h)
      obtain ⟨ls₃, ls₄, b₂, copy, m₂, rfl, hcopy, hrest, hall, hmark⟩ := exec_bind hrun
      obtain ⟨hlen, hdrop⟩ := hall _ (all_copyInto _ (fun i => (cpy.mem_order count i).mp) buf)
      rw [recheckArray_eq] at hcopy hrest
      obtain ⟨ls₅, ls₆, b₃, rfl, hwait₃, hend, hfrozen⟩ := exec_recheck hidle hcopy hrest
      rw [← List.append_assoc, meets_append hwait₃] at hok
      obtain ⟨-, ⟨-, hfew⟩, hok⟩ := hok
      have hfew := hfew b₁.counter (attempts cpy count n) copy rfl
      have hmark : m₂ = b₁.versions.length := hmark (cellsOnly_copyInto (fun _ => rfl) _ _)
      by_cases hsame : b₃.counter = b₁.counter
      · rw [if_pos hsame] at hend
        obtain rfl : out = copy := congrArg Prod.snd (done_inj hend)
        obtain ⟨rfl, heval⟩ := hfrozen hsame (by dsimp only at hfew; omega)
        rw [if_pos rfl, eval_bind, eval_copyBytes b₃ hcount, recheckArray_eq, eval_counter,
          if_pos rfl] at heval
        exact ⟨b₃.cells, (versions_exec hend).subset (hb₁ hidle), congrArg Prod.snd heval⟩
      · have hb₃ : b₃.Published := hb₁.exec hwait₃
        have hok : Meets step (CopyGuarded cpy count) ⟨b₃, if b₃.counter = b₁.counter then
          .done (true, copy) else attempts cpy count n copy, b₃.versions.length⟩ ls₆ := hok _ rfl
        rw [if_neg hsame] at hok hend
        obtain ⟨v, hv, rfl⟩ := ih hb₃ (by omega) hok hend
        exact ⟨v, hv, by rw [withVersion, withVersion, hdrop]⟩

/-- **A copy of a block that does not change** is accepted exactly when the second bit of the counter
is clear. -/
theorem eval_attempts (b : Block ArrayBytes) (n : ℕ) :
    ((attempts cpy count (n + 1) buf).eval b).1 = true ↔ b.counter &&& 2 = 0 := by
  induction n with
  | zero =>
      rw [attempts_succ, eval_counter, turn]
      split
      · rename_i hbusy
        exact iff_of_false (by simp [attempts]) hbusy
      · rename_i hidle
        rw [eval_bind, recheckArray_eq, eval_counter, if_pos rfl]
        exact iff_of_true rfl (not_not.mp hidle)
  | succ n ih =>
      rw [attempts_succ, eval_counter, turn]
      split
      · exact ih
      · rename_i hidle
        rw [eval_bind, recheckArray_eq, eval_counter, if_pos rfl]
        exact iff_of_true rfl (not_not.mp hidle)

/-- **What a copy of an array is good for.** If it is accepted in a run that meets the condition, the
elements are those of one version; and when the backend does nothing, it is accepted exactly when the
second bit of the even counter is clear. -/
theorem atomicCopy_of_guarded (cpy : Memcpy) {elementSize : ℕ} (arraySize : ℕ)
    (buf : ElementBuffer elementSize) (counter : UInt32) (cells : ∀ i, ArrayBytes i)
    (before : List (Write ArrayBytes)) (b₀ : Block ArrayBytes)
    (hbefore : exec Block.write (.initial counter cells) before = some b₀) :
    (∀ ls b out m,
      Meets step (CopyGuarded cpy (elementSize * min arraySize buf.size))
        ⟨b₀, atomicCopy cpy arraySize buf, 0⟩ ls →
      exec step ⟨b₀, atomicCopy cpy arraySize buf, 0⟩ ls = some ⟨b, .done (true, out), m⟩ →
      ∃ v ∈ b.versions, out = withVersion v (elementSize * min arraySize buf.size) buf.bytes) ∧
    (¬ b₀.Busy → ((∃ n out m, exec step ⟨b₀, atomicCopy cpy arraySize buf, 0⟩
      (List.replicate n .read) = some ⟨b₀, .done (true, out), m⟩) ↔ b₀.counter &&& 2 = 0)) := by
  have hb₀ : b₀.Published := (Block.published_initial counter cells).writes hbefore
  have hcount : elementSize * min arraySize buf.size ≤ buf.bytes.length := by
    rw [buf.length_bytes]
    exact Nat.mul_le_mul_left _ (min_le_right _ _)
  constructor
  · intro ls b out m hok h
    exact attempts_oneVersion hb₀ hcount hok h
  · intro _
    have heval : ((atomicCopy cpy arraySize buf).eval b₀).1 = true ↔ b₀.counter &&& 2 = 0 :=
      eval_attempts b₀ 99999
    rw [← heval]
    constructor
    · rintro ⟨n, out, m, hrun⟩
      rw [eval_of_reads hrun]
    · intro htrue
      obtain ⟨n, m, hrun⟩ := exec_reads (b := b₀) (m := 0) (atomicCopy cpy arraySize buf)
      exact ⟨n, _, m, by rw [hrun, ← htrue]⟩

/-- `std::memcpy` from the front to the back. -/
def Memcpy.forward : Memcpy where
  order := List.range
  mem_order := fun _ _ => List.mem_range

/-- Two bytes are copied behind a modification that is noticed: the counter goes from 2 to 4. -/
theorem atomicCopy_of_guarded_published :
    (∃ b m, exec step ⟨.initial 2 fun _ => 7, atomicCopy .forward 2 (⟨2, [0, 0], rfl⟩ : ElementBuffer 1), 0⟩
        [.read, .write .start, .read, .write (.cell 0 9), .write .publish, .read, .read, .read, .read]
          = some ⟨b, .done (true, [9, 7]), m⟩ ∧
        ∃ v ∈ b.versions, [9, 7] = withVersion v 2 [0, 0]) ∧
    ∃ n out m, exec step
      ⟨.initial 4 fun _ => 7, atomicCopy .forward 2 (⟨2, [0, 0], rfl⟩ : ElementBuffer 1), 0⟩
      (List.replicate n .read) = some ⟨.initial 4 fun _ => 7, .done (true, out), m⟩ := by
  have hguarded : Meets step (CopyGuarded .forward 2)
      ⟨.initial 2 fun _ => 7, atomicCopy .forward 2 (⟨2, [0, 0], rfl⟩ : ElementBuffer 1), 0⟩
      [.read, .write .start, .read, .write (.cell 0 9), .write .publish, .read, .read, .read, .read] := by
    have hbits : Meets step (fun w _ => (w.block.Busy → w.block.counter &&& 2 ≠ 0) ∧
        w.block.versions.length < w.mark + 2147483648)
        ⟨.initial 2 fun _ => 7, atomicCopy .forward 2 (⟨2, [0, 0], rfl⟩ : ElementBuffer 1), 0⟩
        [.read, .write .start, .read, .write (.cell 0 9), .write .publish, .read, .read, .read, .read] := by
      decide
    refine hbits.mono fun w l hw => ?_
    cases l with
    | write x => exact trivial
    | read => exact ⟨fun _ _ _ => hw.1, fun _ _ _ _ => hw.2⟩
  obtain ⟨b, m, hrun⟩ : ∃ b m, exec step
      ⟨.initial 2 fun _ => 7, atomicCopy .forward 2 (⟨2, [0, 0], rfl⟩ : ElementBuffer 1), 0⟩
      [.read, .write .start, .read, .write (.cell 0 9), .write .publish, .read, .read, .read, .read]
        = some ⟨b, .done (true, [9, 7]), m⟩ := ⟨_, _, rfl⟩
  have h := atomicCopy_of_guarded .forward 2 (⟨2, [0, 0], rfl⟩ : ElementBuffer 1) 2 (fun _ => 7) [] _ rfl
  have hidle := atomicCopy_of_guarded .forward 2 (⟨2, [0, 0], rfl⟩ : ElementBuffer 1) 4 (fun _ => 7) []
    _ rfl
  exact ⟨⟨b, m, hrun, h.1 _ b _ m hguarded hrun⟩, (hidle.2 (by decide)).mpr (by decide)⟩

/-- A modification that begins at the counter 0 is not noticed, and the even counter 2 is taken for a
modification. -/
theorem not_atomicCopy :
    (¬ ∀ (ls : List (Label ArrayBytes)) (b : Block ArrayBytes) (out : List UInt8) (m : ℕ),
      exec step ⟨.initial 1 fun _ => 7, atomicCopy .forward 1 (⟨1, [0], rfl⟩ : ElementBuffer 1), 0⟩
        ls = some ⟨b, .done (true, out), m⟩ →
      ∃ v ∈ b.versions, out = withVersion v 1 [0]) ∧
    ¬ ∃ n out m, exec step
      ⟨.initial 2 fun _ => 7, atomicCopy .forward 1 (⟨1, [0], rfl⟩ : ElementBuffer 1), 0⟩
      (List.replicate n .read) = some ⟨.initial 2 fun _ => 7, .done (true, out), m⟩ := by
  constructor
  · intro h
    obtain ⟨v, hv, -⟩ := h [.read, .read, .read] (.initial 1 fun _ => 7) [7] 0 rfl
    simp [Block.initial] at hv
  · rintro ⟨n, out, m, hrun⟩
    have heval : ((attempts .forward (1 * min 1 1) (99999 + 1) [0]).eval
      (.initial 2 fun _ => 7)).1 = true := congrArg Prod.fst (eval_of_reads hrun)
    exact absurd ((eval_attempts _ 99999).mp heval) (by decide)

end ScApi
