import Mathlib.Data.List.Basic

/-!
# Buffers that are resized and overwritten

A buffer is the list of its elements. Writing some elements over those from an index on is only
meant for a range that lies in the buffer; resizing cuts the end off or fills up with a default.

## Main results

* `overwrite_append_right`: a write into the second half of a buffer.
* `overwrite_overwrite`: a write right behind another one.
* `read_overwrite`, `read_overwrite_of_le`: what is read back from inside a write and in front of it.
* `read_flatMap`: what is read back from entries of one size.
* `resize_append`: resizing the second half of a buffer.
-/

namespace Buffer

variable {α : Type*}

/-- The buffer with `new` written over the elements from index `i` on. -/
def overwrite (l : List α) (i : ℕ) (new : List α) : List α :=
  l.take i ++ new ++ l.drop (i + new.length)

/-- The buffer cut off or filled up with `fill` to `n` elements. -/
def resize (fill : α) (l : List α) (n : ℕ) : List α :=
  l.take n ++ List.replicate (n - l.length) fill

@[simp] theorem length_resize (fill : α) (l : List α) (n : ℕ) : (resize fill l n).length = n := by
  rw [resize, List.length_append, List.length_take, List.length_replicate]
  omega

theorem resize_of_length_le {fill : α} {l : List α} {n : ℕ} (h : l.length ≤ n) :
    resize fill l n = l ++ List.replicate (n - l.length) fill := by
  rw [resize, List.take_of_length_le h]

/-- **Resizing the second half of a buffer.** -/
theorem resize_append (fill : α) (l l' : List α) (n : ℕ) :
    resize fill (l ++ l') (l.length + n) = l ++ resize fill l' n := by
  rw [resize, resize, List.take_length_add_append, List.append_assoc, List.length_append,
    Nat.add_sub_add_left]

theorem length_overwrite {l new : List α} {i : ℕ} (h : i + new.length ≤ l.length) :
    (overwrite l i new).length = l.length := by
  rw [overwrite, List.length_append, List.length_append, List.length_take, List.length_drop]
  omega

theorem overwrite_zero (l new : List α) : overwrite l 0 new = new ++ l.drop new.length := by
  rw [overwrite, List.take_zero, List.nil_append, Nat.zero_add]

/-- **A write into the second half.** -/
theorem overwrite_append_right (l l' new : List α) (i : ℕ) :
    overwrite (l ++ l') (l.length + i) new = l ++ overwrite l' i new := by
  rw [overwrite, overwrite, List.take_length_add_append, Nat.add_assoc,
    List.drop_length_add_append]
  simp only [List.append_assoc]

/-- A write behind the first half. -/
theorem overwrite_append_at (l l' new : List α) :
    overwrite (l ++ l') l.length new = l ++ (new ++ l'.drop new.length) := by
  have h := overwrite_append_right l l' new 0
  rwa [Nat.add_zero, overwrite_zero] at h

/-- A write over elements of the same number. -/
theorem overwrite_middle {l old new l' : List α} (h : new.length = old.length) :
    overwrite (l ++ old ++ l') l.length new = l ++ new ++ l' := by
  rw [List.append_assoc, overwrite_append_at, h, List.drop_left, List.append_assoc]

/-- What is in front of the write stays. -/
theorem take_overwrite {l new : List α} {i n : ℕ} (hn : n ≤ i) (hi : i ≤ l.length) :
    (overwrite l i new).take n = l.take n := by
  rw [overwrite, List.append_assoc, List.take_append_of_le_length
    (by rw [List.length_take]; omega), List.take_take, Nat.min_eq_left hn]

@[simp] theorem overwrite_nil (l : List α) (i : ℕ) : overwrite l i [] = l := by
  simp [overwrite]

/-- **A write right behind another one** is one write. -/
theorem overwrite_overwrite {l new new' : List α} {i : ℕ} (hi : i ≤ l.length) :
    overwrite (overwrite l i new) (i + new.length) new' = overwrite l i (new ++ new') := by
  have hfront : (l.take i ++ new).length = i + new.length := by
    rw [List.length_append, List.length_take_of_le hi]
  have hl : overwrite l i new = (l.take i ++ new) ++ l.drop (i + new.length) := rfl
  rw [hl, ← hfront, overwrite_append_at, List.drop_drop, overwrite, hfront]
  simp only [List.append_assoc, List.length_append, Nat.add_assoc]

/-- From where a write starts. -/
theorem drop_overwrite {l new : List α} {i : ℕ} (hi : i ≤ l.length) :
    (overwrite l i new).drop i = new ++ l.drop (i + new.length) := by
  rw [overwrite, List.append_assoc, List.drop_left' (List.length_take_of_le hi)]

/-- Behind a write. -/
theorem drop_overwrite_of_le {l new : List α} {i n : ℕ} (hi : i + new.length ≤ l.length)
    (hn : i + new.length ≤ n) : (overwrite l i new).drop n = l.drop n := by
  have hfront : (l.take i ++ new).length = i + new.length := by
    rw [List.length_append, List.length_take_of_le (by omega)]
  obtain ⟨k, rfl⟩ := Nat.exists_eq_add_of_le hn
  rw [overwrite, ← hfront, List.drop_length_add_append, List.drop_drop, hfront]

/-- **What is read back from inside a write.** -/
theorem read_overwrite {l new : List α} {i k w : ℕ} (hi : i ≤ l.length) (hk : k + w ≤ new.length) :
    ((overwrite l i new).drop (i + k)).take w = (new.drop k).take w := by
  rw [← List.drop_drop, drop_overwrite hi, List.drop_append_of_le_length (by omega),
    List.take_append_of_le_length (by rw [List.length_drop]; omega)]

/-- A write is read back. -/
theorem read_overwrite_self {l new : List α} {i w : ℕ} (hi : i ≤ l.length) (hw : new.length = w) :
    ((overwrite l i new).drop i).take w = new := by
  rw [drop_overwrite hi, List.take_left' hw]

/-- **What is read back from in front of a write.** -/
theorem read_overwrite_of_le {l new : List α} {i k w : ℕ} (hi : i ≤ l.length) (hk : k + w ≤ i) :
    ((overwrite l i new).drop k).take w = (l.drop k).take w := by
  rw [List.take_drop, List.take_drop, take_overwrite hk hi]

/-- The length of entries of one size. -/
theorem length_flatMap {β : Type*} {f : β → List α} {w : ℕ} (hf : ∀ x, (f x).length = w)
    (l : List β) : (l.flatMap f).length = w * l.length := by
  induction l with
  | nil => rfl
  | cons x l ih => rw [List.flatMap_cons, List.length_append, hf, ih, List.length_cons, Nat.mul_succ,
      Nat.add_comm]

/-- **What is read back from entries of one size.** -/
theorem read_flatMap {β : Type*} {f : β → List α} {w m : ℕ} {l : List β}
    (hf : ∀ x, (f x).length = w) (hm : m < l.length) :
    ((l.flatMap f).drop (w * m)).take w = f l[m] := by
  induction l generalizing m with
  | nil => exact absurd hm (Nat.not_lt_zero m)
  | cons x l ih =>
      rw [List.flatMap_cons]
      cases m with
      | zero => exact List.take_left' (hf x)
      | succ m =>
          rw [Nat.mul_succ, Nat.add_comm, ← List.drop_drop, List.drop_left' (hf x)]
          exact ih (by simpa using hm)

end Buffer
