import Mathlib.Tactic.Common
import Mathlib.Data.Int.Basic
import Mathlib.Algebra.Order.Ring.Int

/-!
# Segments next to each other

Segments of a memory tile a part of it when the first one begins where the part does, each one begins
where the one before it ends, and the last one ends where the part does. Then no two of them overlap,
and their contents one behind another are the part.

## Main results

* `Tiles.append`: tilings one behind another.
* `Tiles.pairwise`: the segments are disjoint.
* `Tiles.flatMap_contents`: their contents are those of the part.
-/

namespace Tiling

variable {ι α : Type*} (start : ι → ℤ) (size : ι → ℕ)

/-- The segments tile what lies from `a` to `b`. -/
def Tiles : ℤ → List ι → ℤ → Prop
  | a, [], b => a = b
  | a, x :: l, b => start x = a ∧ Tiles (a + size x) l b

/-- What a segment contains. -/
def contents (mem : List α) (x : ι) : List α :=
  (mem.drop (start x).toNat).take (size x)

section

variable {start size} {a b c : ℤ} {l l' : List ι}

/-- **Tilings one behind another.** -/
theorem Tiles.append (h : Tiles start size a l b) (h' : Tiles start size b l' c) :
    Tiles start size a (l ++ l') c := by
  induction l generalizing a with
  | nil =>
      obtain rfl : a = b := h
      exact h'
  | cons x l ih => exact ⟨h.1, ih h.2⟩

theorem Tiles.le (h : Tiles start size a l b) : a ≤ b := by
  induction l generalizing a with
  | nil => exact le_of_eq h
  | cons x l ih =>
      have := ih h.2
      omega

/-- The segments lie in the part. -/
theorem Tiles.mem (h : Tiles start size a l b) : ∀ x ∈ l, a ≤ start x ∧ start x + size x ≤ b := by
  induction l generalizing a with
  | nil => simp
  | cons x l ih =>
      obtain ⟨rfl, hrest⟩ := h
      rintro y (_ | ⟨_, hy⟩)
      · exact ⟨le_rfl, hrest.le⟩
      · have := ih hrest y hy
        omega

/-- **The segments are disjoint**, each behind the ones before. -/
theorem Tiles.pairwise (h : Tiles start size a l b) :
    l.Pairwise fun x y => start x + size x ≤ start y := by
  induction l generalizing a with
  | nil => exact .nil
  | cons x l ih =>
      obtain ⟨rfl, hrest⟩ := h
      exact List.pairwise_cons.mpr ⟨fun y hy => (hrest.mem y hy).1, ih hrest⟩

/-- **The contents of the segments**, one behind another, are those of the part. -/
theorem Tiles.flatMap_contents (h : Tiles start size a l b) (ha : 0 ≤ a) (mem : List α) :
    l.flatMap (contents start size mem) = (mem.drop a.toNat).take (b - a).toNat := by
  induction l generalizing a with
  | nil =>
      obtain rfl : a = b := h
      simp
  | cons x l ih =>
      obtain ⟨rfl, hrest⟩ := h
      have hle := hrest.le
      have hsplit : (b - start x).toNat = size x + (b - (start x + size x)).toNat := by omega
      have hnext : (start x + size x).toNat = (start x).toNat + size x := by omega
      rw [List.flatMap_cons, ih hrest (by omega), contents, hsplit, List.take_add, List.drop_drop,
        hnext]

end

end Tiling
