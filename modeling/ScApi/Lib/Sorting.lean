import Mathlib.Data.List.Destutter
import Mathlib.Data.List.Sort

/-!
# Sorting and removing duplicates as the C++ standard library does

`std::sort` leaves the order of equivalent elements open, so it is any function that permutes a list
into an order that its comparison allows. `std::unique` keeps an element unless it is the same as the
one it kept last.

## Main results

* `StrictWeak.pairwise_insert`: inserting an element where `std::lower_bound` finds it.
* `pairwise_unique`: in a sorted list, neighbours that are told apart order all elements.
* `filter_lt_succ`: a list in the order of a number is cut where the number grows.
-/

namespace Sorting

variable {α : Type*}

/-- A strict weak order, as `std::sort` requires it of its comparison. -/
structure StrictWeak (before : α → α → Bool) : Prop where
  asymm : ∀ a b, before a b → before b a = false
  trans : ∀ a b c, before b a = false → before c b = false → before c a = false

/-- **Inserting where `std::lower_bound` finds it** keeps a list sorted. -/
theorem StrictWeak.pairwise_insert {before : α → α → Bool} (h : StrictWeak before) {l : List α}
    (hl : l.Pairwise fun a b => before b a = false) (a : α) :
    (l.takeWhile (before · a) ++ a :: l.dropWhile (before · a)).Pairwise
      fun a b => before b a = false := by
  induction l with
  | nil => exact List.pairwise_singleton _ a
  | cons x l ih =>
      rw [List.pairwise_cons] at hl
      obtain ⟨hx, hl⟩ := hl
      cases hxa : before x a with
      | true =>
          rw [List.takeWhile_cons_of_pos (p := (before · a)) hxa,
            List.dropWhile_cons_of_pos (p := (before · a)) hxa, List.cons_append]
          refine List.pairwise_cons.mpr ⟨fun y hy => ?_, ih hl⟩
          rcases List.mem_append.mp hy with hy | hy
          · exact hx y (List.takeWhile_subset _ hy)
          · rcases List.mem_cons.mp hy with rfl | hy
            · exact h.asymm x y hxa
            · exact hx y (List.dropWhile_subset _ hy)
      | false =>
          have hneg : ¬before x a = true := by rw [hxa]; exact Bool.false_ne_true
          rw [List.takeWhile_cons_of_neg (p := (before · a)) hneg,
            List.dropWhile_cons_of_neg (p := (before · a)) hneg, List.nil_append]
          refine List.pairwise_cons.mpr ⟨fun y hy => ?_, List.pairwise_cons.mpr ⟨hx, hl⟩⟩
          rcases List.mem_cons.mp hy with rfl | hy
          · exact hxa
          · exact h.trans a x y hxa (hx y hy)

theorem StrictWeak.comap {β : Type*} {before : α → α → Bool} (h : StrictWeak before) (f : β → α) :
    StrictWeak fun a b => before (f a) (f b) :=
  ⟨fun a b => h.asymm (f a) (f b), fun a b c => h.trans (f a) (f b) (f c)⟩

/-- An implementation of `std::sort`. -/
structure StdSort (α : Type*) where
  sort : (α → α → Bool) → List α → List α
  perm : ∀ before l, (sort before l).Perm l
  ordered : ∀ before l, StrictWeak before → (sort before l).Pairwise fun a b => before b a = false

/-- Sorting by insertion. -/
def StdSort.insertion : StdSort α where
  sort := fun before l => l.insertionSort fun a b => before b a = false
  perm := fun before l => List.perm_insertionSort _ l
  ordered := by
    intro before l h
    have : Std.Total fun a b => before b a = false := by
      refine ⟨fun a b => ?_⟩
      cases hab : before b a with
      | false => exact Or.inl rfl
      | true => exact Or.inr (h.asymm b a hab)
    have : IsTrans α fun a b => before b a = false := ⟨h.trans⟩
    exact List.pairwise_insertionSort _ l

/-- `std::unique`. -/
def unique (same : α → α → Bool) (l : List α) : List α :=
  l.destutter fun a b => same a b = false

theorem unique_sublist (same : α → α → Bool) (l : List α) : (unique same l).Sublist l :=
  List.destutter_sublist _ l

/-- An element is kept, or the same as one that is kept. -/
theorem exists_mem_unique {same : α → α → Bool} {l : List α} {x : α} (hx : x ∈ l) :
    ∃ y ∈ unique same l, y = x ∨ same y x = true := by
  cases l with
  | nil => cases hx
  | cons a l =>
      rw [unique, List.destutter_cons']
      induction l generalizing a with
      | nil =>
          obtain rfl := List.mem_singleton.mp hx
          exact ⟨x, List.mem_destutter' _ _ x, .inl rfl⟩
      | cons b l ih =>
          by_cases hab : same a b = false
          · rw [List.destutter'_cons, if_pos hab]
            rcases List.mem_cons.mp hx with rfl | hx
            · exact ⟨x, List.mem_cons_self, .inl rfl⟩
            · obtain ⟨y, hy, hsame⟩ := ih b hx
              exact ⟨y, List.mem_cons_of_mem _ hy, hsame⟩
          · rw [List.destutter'_cons, if_neg hab]
            rcases List.mem_cons.mp hx with rfl | hx
            · exact ih x List.mem_cons_self
            · rcases List.mem_cons.mp hx with rfl | hx
              · exact ⟨a, List.mem_destutter' _ _ a, .inr (by simpa using hab)⟩
              · exact ih a (List.mem_cons_of_mem _ hx)

/-- **Elements kept from a sorted list.** When an order holds between elements that are sorted and
told apart, it holds between all that are kept. -/
theorem pairwise_unique {le lt : α → α → Prop} {same : α → α → Bool} {l : List α}
    (htrans : ∀ {a b c}, lt a b → lt b c → lt a c)
    (hlt : ∀ {a b}, le a b → same a b = false → lt a b) (h : l.Pairwise le) :
    (unique same l).Pairwise lt := by
  have hle : (unique same l).IsChain le := (h.sublist (unique_sublist same l)).isChain
  have happart : (unique same l).IsChain fun a b => same a b = false := List.isChain_destutter _ l
  have : Trans lt lt lt := ⟨htrans⟩
  refine List.isChain_iff_pairwise.mp ?_
  rw [List.isChain_iff_getElem] at hle happart ⊢
  exact fun i hi => hlt (hle i hi) (happart i hi)

/-- **Cutting a list that is ordered by a number.** -/
theorem filter_lt_succ {c : α → ℤ} {l : List α} (h : l.Pairwise fun a b => c a ≤ c b) (k : ℤ) :
    l.filter (c · < k + 1) = l.filter (c · < k) ++ l.filter (c · = k) := by
  induction l with
  | nil => rfl
  | cons a l ih =>
      rw [List.pairwise_cons] at h
      obtain ⟨ha, hl⟩ := h
      rcases lt_trichotomy (c a) k with hlt | heq | hgt
      · rw [List.filter_cons_of_pos (by simp; omega), List.filter_cons_of_pos (by simpa),
          List.filter_cons_of_neg (by simp; omega), ih hl, List.cons_append]
      · -- nothing behind `a` is below `k`
        have hnone : l.filter (c · < k) = [] := by
          refine List.filter_eq_nil_iff.mpr fun b hb => ?_
          have := ha b hb
          simp
          omega
        rw [List.filter_cons_of_pos (by simp; omega), List.filter_cons_of_neg (by simp; omega),
          List.filter_cons_of_pos (by simpa), ih hl, hnone, List.nil_append, List.nil_append]
      · rw [List.filter_cons_of_neg (by simp; omega), List.filter_cons_of_neg (by simp; omega),
          List.filter_cons_of_neg (by simp; omega), ih hl]

end Sorting
