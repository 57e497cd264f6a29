import ScApi.Lib.BoundedRead

/-!
# Reads from a longer memory

A computation that has a result on some memory has the same one when more bytes follow: it has not
read any of them. Only an access outside the memory can tell the two memories apart.

## Main results

* `Extends.bind`: the rule for sequences.
* `extends_bytesAt` / `extends_findNul`: the accesses.
-/

namespace BoundedRead

variable {α β : Type}

/-- Every result of `x` is one of `y`. -/
def Extends (x y : Read α) : Prop :=
  ∀ a, x = .ok a → y = .ok a

theorem Extends.refl (x : Read α) : Extends x x :=
  fun _ h => h

/-- **A sequence**, where the second part may rest on the result of the first one. -/
theorem Extends.bind {x y : Read α} {f g : α → Read β} (hx : Extends x y)
    (hf : ∀ a, x = .ok a → Extends (f a) (g a)) : Extends (x >>= f) (y >>= g) := by
  intro b h
  obtain ⟨a, ha, hb⟩ := bind_eq_ok.mp h
  exact bind_eq_ok.mpr ⟨a, hx a ha, hf a ha b hb⟩

theorem Extends.ite {p : Prop} [Decidable p] {x y u v : Read α} (ht : Extends x y)
    (hf : Extends u v) : Extends (if p then x else u) (if p then y else v) := by
  split
  · exact ht
  · exact hf

/-- A loop over a list. -/
theorem Extends.foldlM {γ : Type} {f g : α → γ → Read α} (h : ∀ a c, Extends (f a c) (g a c))
    (l : List γ) (a : α) : Extends (l.foldlM f a) (l.foldlM g a) := by
  induction l generalizing a with
  | nil => exact Extends.refl _
  | cons c l ih =>
      rw [List.foldlM_cons, List.foldlM_cons]
      exact (h a c).bind fun b _ => ih b

section

variable (mem rest : List UInt8)

theorem extends_byteAt (i : ℤ) : Extends (byteAt mem i) (byteAt (mem ++ rest) i) := by
  intro b h
  obtain ⟨h0, hget⟩ := byteAt_eq_ok_iff.mp h
  have hlt := (List.getElem?_eq_some_iff.mp hget).1
  exact byteAt_eq_ok_iff.mpr ⟨h0, by rw [List.getElem?_append_left hlt, hget]⟩

theorem extends_bytesAt (i : ℤ) (n : ℕ) : Extends (bytesAt mem i n) (bytesAt (mem ++ rest) i n) := by
  intro l h
  obtain ⟨h0, h1, rfl⟩ := bytesAt_eq_ok_iff.mp h
  refine bytesAt_eq_ok_iff.mpr ⟨h0, ?_, ?_⟩
  · rw [List.length_append]
    omega
  · rw [List.drop_append_of_le_length (by omega), List.take_append_of_le_length]
    rw [List.length_drop]
    omega

theorem extends_i32At (i : ℤ) : Extends (i32At mem i) (i32At (mem ++ rest) i) :=
  (extends_bytesAt mem rest i 4).bind fun _ _ => Extends.refl _

theorem extends_findNul (n : ℕ) (i : ℤ) : Extends (findNul mem n i) (findNul (mem ++ rest) n i) := by
  induction n generalizing i with
  | zero => exact Extends.refl _
  | succ n ih => exact (extends_byteAt mem rest i).bind fun b _ => (Extends.refl _).ite (ih _)

/-- The bytes in front of a NUL byte that lies in the memory. -/
theorem slice_append {mem : List UInt8} {n : ℕ} {i nul : ℤ}
    (h : findNul mem n i = .ok (some nul)) : slice (mem ++ rest) i nul = slice mem i nul := by
  have hfirst := findNul_eq_some_iff.mp h
  have hlower := hfirst.lower
  have hrange := range_of_byteAt hfirst.nul
  have hi : 0 ≤ i := by
    rcases eq_or_lt_of_le hlower with rfl | hlt
    · exact hrange.1
    · obtain ⟨b, hb, -⟩ := hfirst.before i (Int.le_refl i) hlt
      exact (range_of_byteAt hb).1
  rw [slice, slice, List.drop_append_of_le_length (by omega), List.take_append_of_le_length]
  rw [List.length_drop]
  omega

end

end BoundedRead
