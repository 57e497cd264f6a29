import Mathlib.Data.List.Basic

/-!
# Runs of labelled partial transitions

A system is a partial transition function over labels: `step s a = none` says that the label `a`
cannot happen in the state `s`. The labels are what the environment chooses, such as the thread
that moves next and the data it brings, so a run is determined by its labels and can be computed.

A condition on a state and the label taken there singles out the runs all of whose steps meet it;
an invariant need only be preserved by such steps.

## Main results

* `exec_append`: a run in two parts.
* `Meets.invariant`: what every step that meets the condition preserves holds at the end of the run.
* `meets_iff_of_invariant`: the same as an equivalence.
* `meets_iff_meets`: two conditions that come to the same along a run.
* `everywhere_iff_meets`: a property holds in every state of a run exactly when each step meets the
  condition.
* `Meets.exists_exec`, `Meets.progress`: a run whose steps meet the condition does not get stuck.
* `along_iff_of_step`: a relation between earlier and later states holds along a run exactly when
  each of its steps meets the condition, if single steps decide it and it is transitive.
-/

namespace Runs

variable {σ α : Type*} {step : σ → α → Option σ} {ok : σ → α → Prop}

/-- The state at the end of the run with the given labels; `none` when a label cannot happen. -/
def exec (step : σ → α → Option σ) : σ → List α → Option σ
  | s, [] => some s
  | s, a :: as => (step s a).bind fun t => exec step t as

@[simp] theorem exec_nil (s : σ) : exec step s [] = some s := rfl

theorem exec_cons {s u : σ} {a : α} {as : List α} :
    exec step s (a :: as) = some u ↔ ∃ t, step s a = some t ∧ exec step t as = some u := by
  rw [exec, Option.bind_eq_some_iff]

/-- **A run in two parts.** -/
theorem exec_append {s u : σ} {as bs : List α} :
    exec step s (as ++ bs) = some u ↔ ∃ t, exec step s as = some t ∧ exec step t bs = some u := by
  induction as generalizing s with
  | nil => simp
  | cons a as ih =>
      rw [List.cons_append, exec_cons]
      constructor
      · rintro ⟨t, hstep, hrun⟩
        obtain ⟨v, hv, hu⟩ := ih.mp hrun
        exact ⟨v, exec_cons.mpr ⟨t, hstep, hv⟩, hu⟩
      · rintro ⟨v, hv, hu⟩
        obtain ⟨t, hstep, hrun⟩ := exec_cons.mp hv
        exact ⟨t, hstep, ih.mpr ⟨v, hrun, hu⟩⟩

theorem exec_singleton {s t : σ} {a : α} : exec step s [a] = some t ↔ step s a = some t := by
  rw [exec_cons]
  constructor
  · rintro ⟨u, hu, ht⟩
    rw [hu, ← Option.some.inj ht]
  · rintro h
    exact ⟨t, h, rfl⟩

/-- Every step of the run meets the condition `ok` in the state where it is taken. -/
def Meets (step : σ → α → Option σ) (ok : σ → α → Prop) : σ → List α → Prop
  | _, [] => True
  | s, a :: as => ok s a ∧ ∀ t, step s a = some t → Meets step ok t as

instance Meets.decidable [∀ s a, Decidable (ok s a)] :
    ∀ (s : σ) (as : List α), Decidable (Meets step ok s as)
  | _, [] => isTrue trivial
  | s, a :: as =>
      match h : step s a with
      | none => decidable_of_iff (ok s a) (by simp [Meets, h])
      | some t =>
          have := Meets.decidable t as
          decidable_of_iff (ok s a ∧ Meets step ok t as) (by simp [Meets, h])

theorem meets_append {s t : σ} {as bs : List α} (h : exec step s as = some t) :
    Meets step ok s (as ++ bs) ↔ Meets step ok s as ∧ Meets step ok t bs := by
  induction as generalizing s with
  | nil =>
      obtain rfl : s = t := Option.some.inj h
      simp [Meets]
  | cons a as ih =>
      obtain ⟨u, hstep, hrun⟩ := exec_cons.mp h
      simp only [List.cons_append, Meets, hstep, Option.some.injEq, forall_eq', ih hrun, and_assoc]

/-- A run meets two conditions. -/
theorem meets_and {ok' : σ → α → Prop} {s : σ} {as : List α} :
    Meets step (fun s a => ok s a ∧ ok' s a) s as ↔ Meets step ok s as ∧ Meets step ok' s as := by
  induction as generalizing s with
  | nil => simp [Meets]
  | cons a as ih =>
      simp only [Meets, ih]
      exact ⟨fun h => ⟨⟨h.1.1, fun t ht => (h.2 t ht).1⟩, h.1.2, fun t ht => (h.2 t ht).2⟩,
        fun h => ⟨⟨h.1.1, h.2.1⟩, fun t ht => ⟨h.1.2 t ht, h.2.2 t ht⟩⟩⟩

theorem Meets.mono {ok' : σ → α → Prop} {s : σ} {as : List α} (h : Meets step ok s as)
    (hok : ∀ s a, ok s a → ok' s a) : Meets step ok' s as := by
  induction as generalizing s with
  | nil => exact trivial
  | cons a as ih => exact ⟨hok s a h.1, fun t ht => ih (h.2 t ht)⟩

theorem meets_true (s : σ) (as : List α) : Meets step (fun _ _ => True) s as := by
  induction as generalizing s with
  | nil => exact trivial
  | cons a as ih => exact ⟨trivial, fun t _ => ih t⟩

/-- **The invariant rule**, for the runs whose steps all meet a condition. -/
theorem Meets.invariant {I : σ → Prop}
    (hstep : ∀ {s a t}, I s → ok s a → step s a = some t → I t) {s t : σ} {as : List α}
    (hs : I s) (hok : Meets step ok s as) (h : exec step s as = some t) : I t := by
  induction as generalizing s with
  | nil =>
      obtain rfl : s = t := Option.some.inj h
      exact hs
  | cons a as ih =>
      obtain ⟨u, hu, hrun⟩ := exec_cons.mp h
      exact ih (hstep hs hok.1 hu) (hok.2 u hu) hrun

theorem Meets.cons {s t : σ} {a : α} {as : List α} (h : step s a = some t) (hok : ok s a)
    (hrest : Meets step ok t as) : Meets step ok s (a :: as) := by
  refine ⟨hok, fun u hu => ?_⟩
  obtain rfl : t = u := Option.some.inj (h.symm.trans hu)
  exact hrest

/-- **The progress rule**: a run goes to its end if a second system, which follows the same labels and
is related to the first by `I`, does, and no step that meets the condition gets stuck. -/
theorem Meets.progress {τ : Type*} {next : τ → α → Option τ} {I : τ → σ → Prop}
    (hstep : ∀ {q q' s a}, I q s → next q a = some q' → ok s a → ∃ t, step s a = some t ∧ I q' t)
    {q q' : τ} {s : σ} {as : List α} (hI : I q s) (hnext : exec next q as = some q')
    (hok : Meets step ok s as) : ∃ t, exec step s as = some t ∧ I q' t := by
  induction as generalizing q s with
  | nil =>
      obtain rfl : q = q' := Option.some.inj hnext
      exact ⟨s, rfl, hI⟩
  | cons a as ih =>
      obtain ⟨q₁, hq₁, hrest⟩ := exec_cons.mp hnext
      obtain ⟨t, ht, hI'⟩ := hstep hI hq₁ hok.1
      obtain ⟨u, hu, hI''⟩ := ih hI' hrest (hok.2 t ht)
      exact ⟨u, exec_cons.mpr ⟨t, ht, hu⟩, hI''⟩

/-- **A run goes to its end** when no step that meets the condition gets stuck or breaks an
invariant. -/
theorem Meets.exists_exec {I : σ → Prop}
    (hstep : ∀ {s a}, I s → ok s a → ∃ t, step s a = some t ∧ I t) {s : σ} {as : List α}
    (hs : I s) (hok : Meets step ok s as) : ∃ t, exec step s as = some t ∧ I t := by
  induction as generalizing s with
  | nil => exact ⟨s, rfl, hs⟩
  | cons a as ih =>
      obtain ⟨t, ht, hI⟩ := hstep hs hok.1
      obtain ⟨u, hu, hI'⟩ := ih hI (hok.2 t ht)
      exact ⟨u, exec_cons.mpr ⟨t, ht, hu⟩, hI'⟩

/-- **The exact rule**: a property that a step keeps exactly when it meets the condition holds at the
end of a run exactly when it holds at the beginning and all steps meet the condition. An invariant of
all steps may be used. -/
theorem meets_iff_of_invariant {I P : σ → Prop} (hinv : ∀ {s a t}, I s → step s a = some t → I t)
    (hstep : ∀ {s a t}, I s → step s a = some t → (P t ↔ P s ∧ ok s a)) {s t : σ} {as : List α}
    (hs : I s) (h : exec step s as = some t) : P t ↔ P s ∧ Meets step ok s as := by
  induction as generalizing s with
  | nil =>
      obtain rfl : s = t := Option.some.inj h
      exact (and_iff_left trivial).symm
  | cons a as ih =>
      obtain ⟨u, hu, hrun⟩ := exec_cons.mp h
      rw [ih (hinv hs hu) hrun, hstep hs hu, and_assoc, Meets]
      simp [hu]

/-- The exact rule without an invariant. -/
theorem meets_iff_of_step {P : σ → Prop}
    (hstep : ∀ {s a t}, step s a = some t → (P t ↔ P s ∧ ok s a)) {s t : σ} {as : List α}
    (h : exec step s as = some t) : P t ↔ P s ∧ Meets step ok s as :=
  meets_iff_of_invariant (I := fun _ => True) (fun _ _ => trivial) (fun _ hst => hstep hst) trivial h

/-- **Two conditions on a run**: they come to the same if they do so for a single step as long as an
invariant holds, which steps that meet the second one keep. All steps may be known to meet a third
condition. -/
theorem meets_iff_meets {I : σ → Prop} {ok' side : σ → α → Prop}
    (hok : ∀ {s a t}, I s → side s a → step s a = some t → (ok s a ↔ ok' s a))
    (hinv : ∀ {s a t}, I s → ok' s a → side s a → step s a = some t → I t) {s u : σ} {as : List α}
    (hs : I s) (h : exec step s as = some u) (hside : Meets step side s as) :
    Meets step ok s as ↔ Meets step ok' s as := by
  induction as generalizing s with
  | nil => exact Iff.rfl
  | cons a as ih =>
      obtain ⟨t, ht, hrun⟩ := exec_cons.mp h
      rw [Meets, Meets, hok hs hside.1 ht]
      refine and_congr_right fun hcond => ?_
      simp only [ht, Option.some.injEq, forall_eq']
      exact ih (hinv hs hcond hside.1 ht) hrun (hside.2 t ht)

/-- The invariant rule for all runs. -/
theorem invariant_of_step {I : σ → Prop}
    (hstep : ∀ {s a t}, I s → step s a = some t → I t) {s t : σ} {as : List α}
    (hs : I s) (h : exec step s as = some t) : I t :=
  (meets_true s as).invariant (fun hi _ => hstep hi) hs h

/-! ### All states of a run -/

/-- `R` holds in every state of the run. -/
def Everywhere (step : σ → α → Option σ) (R : σ → Prop) (s : σ) (as : List α) : Prop :=
  ∀ pre post t, as = pre ++ post → exec step s pre = some t → R t

theorem Everywhere.tail {R : σ → Prop} {s t : σ} {a : α} {as : List α}
    (h : Everywhere step R s (a :: as)) (hstep : step s a = some t) : Everywhere step R t as := by
  rintro pre post u rfl hpre
  exact h (a :: pre) post u rfl (exec_cons.mpr ⟨t, hstep, hpre⟩)

/-- **A property holds in every state of a run exactly when each of its steps meets the condition**, if
the condition says for single steps from states with the property whether it is kept. An invariant of
all steps may be used. -/
theorem everywhere_iff_meets {I R : σ → Prop} (hinv : ∀ {s a t}, I s → step s a = some t → I t)
    (hstep : ∀ {s a t}, I s → R s → step s a = some t → (R t ↔ ok s a)) {s u : σ} {as : List α}
    (hI : I s) (hs : R s) (hrun : exec step s as = some u) :
    Everywhere step R s as ↔ Meets step ok s as := by
  constructor
  · intro h
    induction as generalizing s with
    | nil => exact trivial
    | cons a as ih =>
        obtain ⟨t, hnext, hrest⟩ := exec_cons.mp hrun
        have ht : R t := h [a] as t rfl (exec_singleton.mpr hnext)
        exact Meets.cons hnext ((hstep hI hs hnext).mp ht)
          (ih (hinv hI hnext) ht hrest (h.tail hnext))
  · rintro h pre post t rfl hpre
    rw [meets_append hpre] at h
    have hboth := h.1.invariant (I := fun s => I s ∧ R s)
      (fun hi hok hnext => ⟨hinv hi.1 hnext, (hstep hi.1 hi.2 hnext).mpr hok⟩) ⟨hI, hs⟩ hpre
    exact hboth.2

/-! ### Relations between the states of a run -/

/-- `R` relates every state of the run to every later one. -/
def Along (step : σ → α → Option σ) (R : σ → σ → Prop) (s : σ) (as : List α) : Prop :=
  ∀ pre mid post t u, as = pre ++ mid ++ post →
    exec step s pre = some t → exec step t mid = some u → R t u

theorem Along.tail {R : σ → σ → Prop} {s t : σ} {a : α} {as : List α}
    (h : Along step R s (a :: as)) (hstep : step s a = some t) : Along step R t as := by
  rintro pre mid post v u rfl hpre hmid
  exact h (a :: pre) mid post v u rfl (exec_cons.mpr ⟨t, hstep, hpre⟩) hmid

/-- Every state of a run that a preorder relates by single steps is related to every later one. -/
theorem Meets.along {R : σ → σ → Prop} (hrefl : ∀ s, R s s)
    (htrans : ∀ {s t u}, R s t → R t u → R s u)
    (hstep : ∀ {s a t}, ok s a → step s a = some t → R s t) {s : σ} {as : List α}
    (hok : Meets step ok s as) : Along step R s as := by
  rintro pre mid post t u rfl hpre hmid
  rw [List.append_assoc, meets_append hpre, meets_append hmid] at hok
  exact Meets.invariant (I := R t) (fun hi hcond hnext => htrans hi (hstep hcond hnext))
    (hrefl t) hok.2.1 hmid

/-- **A preorder holds along a run exactly when each of its steps meets the condition**, if the
condition decides it for single steps and is met by the labels that cannot happen. -/
theorem along_iff_of_step {R : σ → σ → Prop} (hrefl : ∀ s, R s s)
    (htrans : ∀ {s t u}, R s t → R t u → R s u)
    (hstep : ∀ {s a t}, step s a = some t → (ok s a ↔ R s t))
    (hnone : ∀ {s a}, step s a = none → ok s a) {s : σ} {as : List α} :
    Along step R s as ↔ Meets step ok s as := by
  constructor
  · intro h
    induction as generalizing s with
    | nil => exact trivial
    | cons a as ih =>
        refine ⟨?_, fun t ht => ih (h.tail ht)⟩
        cases hs : step s a with
        | none => exact hnone hs
        | some t => exact (hstep hs).mpr (h [] [a] as s t rfl rfl (exec_singleton.mpr hs))
  · exact Meets.along hrefl htrans fun hcond hs => (hstep hs).mp hcond

end Runs
