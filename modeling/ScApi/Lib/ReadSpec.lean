import ScApi.Lib.BoundedRead

/-!
# When a read has a result

`Yields x c a` gives the exact condition `c` under which a computation `x` that reads memory does not
stop, together with its result `a`. Such facts compose along the program: a sequence of computations
needs both conditions, a branch the one of the side that is taken, and a loop that may end early the
conditions of the turns up to its end.

## Main results

* `Yields.bind` / `Yields.ite`: the rules for sequences and branches.
* `Yields.safe_bind`: what comes after a computation with a known result.
* `yields_natAt`: a number is read exactly when its bytes lie inside the memory.
-/

namespace BoundedRead

open Bytes

variable {α β : Type}

/-- The computation reads only inside the memory. -/
def Safe (x : Read α) : Prop :=
  ∃ a, x = .ok a

/-- The computation has the result `a` if `c` holds, and else it has none. -/
def Yields (x : Read α) (c : Prop) (a : α) : Prop :=
  ∀ b, x = .ok b ↔ c ∧ b = a

theorem safe_ok (a : α) : Safe (.ok a) :=
  ⟨a, rfl⟩

/-- What comes after a computation with a known result. -/
theorem Yields.safe_bind {x : Read α} {f : α → Read β} {c : Prop} {a : α} (hx : Yields x c a) :
    Safe (x >>= f) ↔ c ∧ Safe (f a) := by
  constructor
  · rintro ⟨b, hb⟩
    obtain ⟨a', ha', hb⟩ := bind_eq_ok.mp hb
    obtain ⟨hc, rfl⟩ := (hx a').mp ha'
    exact ⟨hc, b, hb⟩
  · rintro ⟨hc, b, hb⟩
    exact ⟨b, bind_eq_ok.mpr ⟨a, (hx a).mpr ⟨hc, rfl⟩, hb⟩⟩

theorem Yields.pure (a : α) : Yields (pure a) True a := by
  intro b
  simp [eq_comm]

/-- **A sequence** needs both conditions. -/
theorem Yields.bind {x : Read α} {f : α → Read β} {c d : Prop} {a : α} {b : β}
    (hx : Yields x c a) (hf : c → Yields (f a) d b) : Yields (x >>= f) (c ∧ d) b := by
  intro r
  rw [bind_eq_ok]
  constructor
  · rintro ⟨a', ha', hr⟩
    obtain ⟨hc, rfl⟩ := (hx a').mp ha'
    obtain ⟨hd, rfl⟩ := (hf hc r).mp hr
    exact ⟨⟨hc, hd⟩, rfl⟩
  · rintro ⟨⟨hc, hd⟩, rfl⟩
    exact ⟨a, (hx a).mpr ⟨hc, rfl⟩, (hf hc r).mpr ⟨hd, rfl⟩⟩

/-- What comes after needs nothing else. -/
theorem Yields.then {x : Read α} {f : α → Read β} {c : Prop} {a : α} {b : β}
    (hx : Yields x c a) (hf : c → f a = .ok b) : Yields (x >>= f) c b := by
  have hrest : c → Yields (f a) True b := by
    intro hc
    rw [hf hc]
    exact Yields.pure b
  intro r
  rw [hx.bind hrest r, and_true]

/-- **A branch** needs the condition of its side. -/
theorem Yields.ite {p : Prop} [Decidable p] {x y : Read α} {c d : Prop} {a b : α}
    (hx : p → Yields x c a) (hy : ¬ p → Yields y d b) :
    Yields (if p then x else y) ((p → c) ∧ (¬ p → d)) (if p then a else b) := by
  by_cases hp : p
  · simpa [hp] using hx hp
  · simpa [hp] using hy hp

theorem Yields.congr {x : Read α} {c d : Prop} {a b : α} (h : Yields x c a) (hcd : d ↔ c)
    (hab : b = a) : Yields x d b := by
  intro r
  rw [h r, hcd, hab]

/-! ### Numbers -/

/-- The number in the `n` bytes at index `i`. -/
def natAt (mem : List UInt8) (i : ℤ) (n : ℕ) : Read ℕ := do
  let bytes ← bytesAt mem i n
  pure (ofLe bytes)

/-- The number in the `n` bytes at index `i`, as far as the memory goes. -/
def natOf (mem : List UInt8) (i : ℤ) (n : ℕ) : ℕ :=
  ofLe ((mem.drop i.toNat).take n)

/-- The `n` bytes at index `i` belong to the memory. -/
def Within (mem : List UInt8) (i : ℤ) (n : ℕ) : Prop :=
  0 ≤ i ∧ i + n ≤ mem.length

theorem Within.mono {mem : List UInt8} {i j : ℤ} {m n : ℕ} (h : Within mem i n) (hij : i ≤ j)
    (hmn : j + m ≤ i + n) : Within mem j m := by
  obtain ⟨h0, h1⟩ := h
  exact ⟨by omega, by omega⟩

theorem yields_bytesAt (mem : List UInt8) (i : ℤ) (n : ℕ) :
    Yields (bytesAt mem i n) (Within mem i n) ((mem.drop i.toNat).take n) := by
  intro b
  rw [bytesAt_eq_ok_iff, Within, and_assoc]

/-- **A number** is read exactly when its bytes lie inside the memory. -/
theorem yields_natAt (mem : List UInt8) (i : ℤ) (n : ℕ) :
    Yields (natAt mem i n) (Within mem i n) (natOf mem i n) :=
  (yields_bytesAt mem i n).then fun _ => rfl

theorem natAt_eq {mem : List UInt8} {i : ℤ} {n : ℕ} (h : Within mem i n) :
    natAt mem i n = .ok (natOf mem i n) :=
  (yields_natAt mem i n _).mpr ⟨h, rfl⟩

/-- Two numbers are read when the bytes of both lie inside the memory. -/
theorem yields_natAt_natAt {mem : List UInt8} {i j : ℤ} {m n : ℕ} {f : ℕ → ℕ → Read β} {c d : Prop}
    {b : β} (hc : c ↔ Within mem i m ∧ Within mem j n)
    (hf : c → Yields (f (natOf mem i m) (natOf mem j n)) d b) :
    Yields (natAt mem i m >>= fun a => natAt mem j n >>= f a) (c ∧ d) b := by
  have hseq : Yields (natAt mem i m >>= fun a => natAt mem j n >>= f a)
      (Within mem i m ∧ Within mem j n ∧ d) b :=
    (yields_natAt mem i m).bind fun hi => (yields_natAt mem j n).bind fun hj => hf (hc.mpr ⟨hi, hj⟩)
  exact hseq.congr (by rw [hc, and_assoc]) rfl

/-- A byte is read exactly when it lies inside the memory. -/
theorem yields_byteAt (mem : List UInt8) (i : ℤ) :
    Yields (byteAt mem i) (Within mem i 1) (mem[i.toNat]?.getD 0) := by
  intro b
  rw [byteAt_eq_ok_iff, Within, and_assoc]
  refine and_congr_right fun h0 => ?_
  constructor
  · intro h
    have hlt := (List.getElem?_eq_some_iff.mp h).1
    exact ⟨by omega, by simp [h]⟩
  · rintro ⟨h1, rfl⟩
    have hlt : i.toNat < mem.length := by omega
    simp [List.getElem?_eq_getElem hlt]

/-! ### Loops that may end early -/

/-- The condition `ok` holds of the elements up to the first one that meets `stop`, and of this. -/
def UpTo (stop ok : α → Prop) : List α → Prop
  | [] => True
  | a :: as => ok a ∧ (¬ stop a → UpTo stop ok as)

theorem UpTo.of_forall {stop ok : α → Prop} {as : List α} (h : ∀ a ∈ as, ok a) :
    UpTo stop ok as := by
  induction as with
  | nil => exact trivial
  | cons a as ih =>
      exact ⟨h a List.mem_cons_self, fun _ => ih fun b hb => h b (List.mem_cons_of_mem a hb)⟩

theorem UpTo.forall {stop ok : α → Prop} {as : List α} (h : UpTo stop ok as)
    (hstop : ∀ a ∈ as, ¬ stop a) : ∀ a ∈ as, ok a := by
  induction as with
  | nil => simp
  | cons a as ih =>
      intro b hb
      rcases List.mem_cons.mp hb with rfl | hb
      · exact h.1
      · exact ih (h.2 (hstop a List.mem_cons_self))
          (fun c hc => hstop c (List.mem_cons_of_mem a hc)) b hb

end BoundedRead
