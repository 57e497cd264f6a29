import Mathlib.Data.List.Basic

/-!
# Cutting a stream into frames

A framing says when a sequence starts with a complete frame, and how long that frame is. It must
not change its mind when more of the stream arrives. Then cutting off complete frames does not
depend on how the stream arrived: `split_append` is the step for one more piece.

## Main results

* `split_append`: more input only adds frames to those found already.
* `Boundary.split_eq`: a stream can be cut behind any of its frames.
* `split_frames`: a stream made of frames is cut into these frames.
-/

/-- A framing: `frame? l` is the length of the frame that `l` starts with, once it is complete. -/
structure Framing (α : Type) where
  frame? : List α → Option ℕ
  pos : ∀ {l n}, frame? l = some n → 0 < n
  le_length : ∀ {l n}, frame? l = some n → n ≤ l.length
  stable : ∀ {l n} (t), frame? l = some n → frame? (l ++ t) = some n

namespace Framing

variable {α : Type} (F : Framing α)

/-- The complete frames at the front of a sequence, and what is left behind them. -/
def split (l : List α) : List (List α) × List α :=
  match _h : F.frame? l with
  | none => ([], l)
  | some n => (l.take n :: (split (l.drop n)).1, (split (l.drop n)).2)
termination_by l.length
decreasing_by
  all_goals
    have hpos := F.pos _h
    have hle := F.le_length _h
    rw [List.length_drop]
    omega

variable {F}

theorem split_of_none {l : List α} (h : F.frame? l = none) : F.split l = ([], l) := by
  rw [split]
  split
  · rfl
  · rename_i n hn
    exact absurd (h.symm.trans hn) (by simp)

theorem split_of_some {l : List α} {n : ℕ} (h : F.frame? l = some n) :
    F.split l = (l.take n :: (F.split (l.drop n)).1, (F.split (l.drop n)).2) := by
  rw [split]
  split
  · rename_i hn
    exact absurd (h.symm.trans hn) (by simp)
  · rename_i m hm
    obtain rfl : n = m := Option.some.inj (h.symm.trans hm)
    rfl

/-- Induction along the frames at the front of a sequence. -/
theorem frame_induction {P : List α → Prop} (hnone : ∀ l, F.frame? l = none → P l)
    (hsome : ∀ l n, F.frame? l = some n → P (l.drop n) → P l) (l : List α) : P l := by
  induction hlen : l.length using Nat.strongRecOn generalizing l with
  | ind k ih =>
      cases h : F.frame? l with
      | none => exact hnone l h
      | some n =>
          have hpos := F.pos h
          have hle := F.le_length h
          have hlt : (l.drop n).length < k := by
            rw [List.length_drop]
            omega
          exact hsome l n h (ih _ hlt _ rfl)

/-- Nothing is lost: the frames and the rest make up the sequence. -/
theorem split_flatten (l : List α) : (F.split l).1.flatten ++ (F.split l).2 = l := by
  induction l using frame_induction (F := F) with
  | hnone l h => simp [split_of_none h]
  | hsome l n h ih =>
      rw [split_of_some h, List.flatten_cons, List.append_assoc, ih, List.take_append_drop]

/-- What is left does not start with a complete frame. -/
theorem frame?_split (l : List α) : F.frame? (F.split l).2 = none := by
  induction l using frame_induction (F := F) with
  | hnone l h => rw [split_of_none h, h]
  | hsome l n h ih => rw [split_of_some h, ih]

/-- **More input only adds frames**: what is left is cut together with it. -/
theorem split_append (l t : List α) :
    F.split (l ++ t)
      = ((F.split l).1 ++ (F.split ((F.split l).2 ++ t)).1, (F.split ((F.split l).2 ++ t)).2) := by
  induction l using frame_induction (F := F) with
  | hnone l h => simp [split_of_none h]
  | hsome l n h ih =>
      have hle := F.le_length h
      rw [split_of_some h, split_of_some (F.stable t h), List.take_append_of_le_length hle,
        List.drop_append_of_le_length hle, ih, List.cons_append]

/-- The frames are not empty. -/
theorem length_pos_of_mem_split {l f : List α} (hf : f ∈ (F.split l).1) : 0 < f.length := by
  induction l using frame_induction (F := F) with
  | hnone l h => simp [split_of_none h] at hf
  | hsome l n h ih =>
      rw [split_of_some h] at hf
      rcases List.mem_cons.mp hf with rfl | hf
      · have hpos := F.pos h
        have hle := F.le_length h
        rw [List.length_take]
        omega
      · exact ih hf

/-! ### Frame boundaries -/

/-- `rest` is what is left of a sequence behind some of its complete frames. -/
inductive Boundary (F : Framing α) : List α → List α → Prop
  | here (l : List α) : F.Boundary l l
  | behind {l rest : List α} {n : ℕ} (h : F.frame? l = some n) (hrest : F.Boundary (l.drop n) rest) :
      F.Boundary l rest

theorem Boundary.length_le {l rest : List α} (h : F.Boundary l rest) : rest.length ≤ l.length := by
  induction h with
  | here l => exact Nat.le_refl _
  | @behind l rest n h _ ih =>
      rw [List.length_drop] at ih
      omega

/-- What `split` leaves is behind the last complete frame. -/
theorem boundary_split (l : List α) : F.Boundary l (F.split l).2 := by
  induction l using frame_induction (F := F) with
  | hnone l h =>
      rw [split_of_none h]
      exact Boundary.here l
  | hsome l n h ih =>
      rw [split_of_some h]
      exact Boundary.behind h ih

/-- **A sequence can be cut at each of its boundaries.** -/
theorem Boundary.split_eq {l rest : List α} (h : F.Boundary l rest) :
    ∃ frames, F.split l = (frames ++ (F.split rest).1, (F.split rest).2) := by
  induction h with
  | here l => exact ⟨[], rfl⟩
  | @behind l rest n h _ ih =>
      obtain ⟨frames, hsplit⟩ := ih
      exact ⟨l.take n :: frames, by rw [split_of_some h, hsplit, List.cons_append]⟩

/-! ### Streams made of frames -/

/-- `f` is a frame wherever it stands. -/
def IsFrame (F : Framing α) (f : List α) : Prop :=
  ∀ t, F.frame? (f ++ t) = some f.length

/-- **A stream made of frames is cut into these frames.** -/
theorem split_frames {frames : List (List α)} (h : ∀ f ∈ frames, F.IsFrame f) (t : List α) :
    F.split (frames.flatten ++ t) = (frames ++ (F.split t).1, (F.split t).2) := by
  induction frames with
  | nil => rfl
  | cons f frames ih =>
      have hf := h f List.mem_cons_self (frames.flatten ++ t)
      have ih := ih fun g hg => h g (List.mem_cons_of_mem _ hg)
      rw [List.flatten_cons, List.append_assoc, split_of_some hf, List.take_left, List.drop_left,
        ih, List.cons_append]

/-- A part of a stream made of frames is cut into the first of these frames, and what is left is
shorter than the next one. -/
theorem split_prefix {frames : List (List α)} (h : ∀ f ∈ frames, F.IsFrame f) {l : List α}
    (hl : l <+: frames.flatten) :
    (F.split l).1 <+: frames ∧
      ∀ f, (F.split l).1 ++ [f] <+: frames → (F.split l).2.length < f.length := by
  obtain ⟨t, ht⟩ := hl
  have hall := split_frames h []
  rw [List.append_nil, ← ht, split_append] at hall
  obtain ⟨hframes, -⟩ := Prod.mk.inj hall
  have hnil : (F.split ([] : List α)).1 = [] := by
    cases hempty : F.frame? [] with
    | none => rw [split_of_none hempty]
    | some n =>
        have hpos := F.pos hempty
        have hle := F.le_length hempty
        rw [List.length_nil] at hle
        omega
  rw [hnil, List.append_nil] at hframes
  refine ⟨⟨_, hframes⟩, ?_⟩
  rintro f ⟨others, hothers⟩
  by_contra hlong
  -- the rest of the part would start with the whole frame `f`
  have hstream : (F.split l).2 ++ t = f ++ others.flatten := by
    have heq : (F.split l).1.flatten ++ ((F.split l).2 ++ t)
        = (F.split l).1.flatten ++ (f ++ others.flatten) := by
      rw [← List.append_assoc, split_flatten, ht, ← hothers]
      simp
    exact List.append_cancel_left heq
  have hf : f ∈ frames := by
    rw [← hothers]
    simp
  have hrest : (F.split l).2 = f ++ (F.split l).2.drop f.length := by
    have htake : (F.split l).2.take f.length = f := by
      have := congrArg (List.take f.length) hstream
      rwa [List.take_append_of_le_length (by omega), List.take_left] at this
    rw [← List.take_append_drop f.length (F.split l).2, htake]
    simp
  have hframe := h f hf ((F.split l).2.drop f.length)
  rw [← hrest, frame?_split] at hframe
  exact absurd hframe (by simp)

end Framing
