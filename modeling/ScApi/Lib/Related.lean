import Mathlib.Tactic.Common

/-!
# Relations between two fallible computations

Two computations that start in related states end in related ones. The first one may fail in ways
that say nothing about the second one; a failure of another kind is the failure of both. `Gives` is
the same for one computation: what holds of its result, when it has one.

## Main results

* `Gives.bind`: what a computation gives, and what is done with it.
* `Related.bind`: computations one after the other.
* `Related.map_eq_ok`: what is the same of related results, when the first computation has one.
-/

namespace Relating

variable {ε α β γ δ : Type} {R : α → β → Prop} {S : γ → δ → Prop} {loose : ε → Prop}

/-- The second computation follows the first one. -/
inductive Related (loose : ε → Prop) (R : α → β → Prop) : Except ε α → Except ε β → Prop where
  | ok {a : α} {b : β} (h : R a b) : Related loose R (.ok a) (.ok b)
  | error (e : ε) : Related loose R (.error e) (.error e)
  | loose {e : ε} {y : Except ε β} (h : loose e) : Related loose R (.error e) y

theorem Related.pure {a : α} {b : β} (h : R a b) :
    Related loose R (pure a : Except ε α) (pure b : Except ε β) :=
  .ok h

theorem Related.throw (e : ε) :
    Related loose R (throw e : Except ε α) (throw e : Except ε β) :=
  .error e

theorem Related.mono {R' : α → β → Prop} {x : Except ε α} {y : Except ε β} (h : Related loose R x y)
    (hR : ∀ a b, R a b → R' a b) : Related loose R' x y := by
  cases h with
  | ok hab => exact .ok (hR _ _ hab)
  | error e => exact .error e
  | loose he => exact .loose he

/-- **Computations one after the other.** -/
theorem Related.bind {x : Except ε α} {y : Except ε β} {f : α → Except ε γ} {g : β → Except ε δ}
    (h : Related loose R x y) (hf : ∀ a b, R a b → Related loose S (f a) (g b)) :
    Related loose S (x >>= f) (y >>= g) := by
  cases h with
  | ok hab => exact hf _ _ hab
  | error e => exact .error e
  | loose he => exact .loose he

/-- A choice that both make alike. -/
theorem Related.ite {c : Prop} [Decidable c] {x x' : Except ε α} {y y' : Except ε β}
    (h : c → Related loose R x y) (h' : ¬ c → Related loose R x' y') :
    Related loose R (if c then x else x') (if c then y else y') := by
  split_ifs with hc
  · exact h hc
  · exact h' hc

theorem Related.exists_of_ok {a : α} {y : Except ε β} (h : Related loose R (.ok a) y) :
    ∃ b, y = .ok b ∧ R a b := by
  cases h with
  | ok hab => exact ⟨_, rfl, hab⟩

/-- **What is the same of related results** is what the second computation gives, if the first one
gives it. -/
theorem Related.map_eq_ok {x : Except ε α} {y : Except ε β} {f : α → γ} {g : β → γ} {c : γ}
    (h : Related loose R x y) (hfg : ∀ a b, R a b → f a = g b) (hx : x.map f = .ok c) :
    y.map g = .ok c := by
  cases h with
  | ok hab => exact (congrArg Except.ok (hfg _ _ hab)).symm.trans hx
  | error e => exact absurd hx (by simp [Except.map])
  | loose he => exact absurd hx (by simp [Except.map])

/-- The result has a property, if there is one. -/
def Gives (P : α → Prop) (x : Except ε α) : Prop :=
  ∀ a, x = .ok a → P a

section Gives

variable {P : α → Prop} {Q : γ → Prop}

theorem Gives.pure {a : α} (h : P a) : Gives P (pure a : Except ε α) := by
  rintro b hb
  obtain rfl := Except.ok.inj hb
  exact h

theorem Gives.throw (e : ε) : Gives P (throw e : Except ε α) :=
  fun _ h => nomatch h

theorem Gives.mono {P' : α → Prop} {x : Except ε α} (h : Gives P x) (hP : ∀ a, P a → P' a) :
    Gives P' x :=
  fun a ha => hP a (h a ha)

/-- **Computations one after the other.** -/
theorem Gives.bind {x : Except ε α} {f : α → Except ε γ} (h : Gives P x)
    (hf : ∀ a, P a → Gives Q (f a)) : Gives Q (x >>= f) := by
  cases x with
  | ok a => exact hf a (h a rfl)
  | error e => exact fun _ h => nomatch h

/-- What holds whatever the first computation gives. -/
theorem Gives.andThen {x : Except ε α} {f : α → Except ε γ} (hf : ∀ a, Gives Q (f a)) :
    Gives Q (x >>= f) :=
  Gives.bind (P := fun _ => True) (fun _ _ => trivial) fun a _ => hf a

theorem Gives.ite {c : Prop} [Decidable c] {x y : Except ε α} (h : c → Gives P x)
    (h' : ¬ c → Gives P y) : Gives P (if c then x else y) := by
  split_ifs with hc
  · exact h hc
  · exact h' hc

end Gives

end Relating
