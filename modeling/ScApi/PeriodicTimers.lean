import Mathlib.Data.Finset.Basic
import Mathlib.Data.Int.Notation
import Mathlib.Logic.Equiv.Basic
import ScApi.Lib.Runs

/-!
# Periodic timers

A session keeps its periodic timers in a map, and hands out handles that destroy them. A handle is a
weak pointer to the session and an id; moving one swaps the ids but leaves the pointers where they
are, and a handle without a pointer destroys nothing. A timer that expires queues its handler in the
io context, which can no longer be cancelled; the handler calls the callback of the user and then
arms the timer again through a reference to the map's entry.

The session is alive and not closed. When a timer expires, when its handler runs and what its
callback does is left open: a callback that destroys a handle is a step between the begin and the
end of a handler. A handler that is cancelled does nothing, and is left out.

## Main results

* `step_invariant`: what every step keeps.
* `revives_iff`: when the callback of a timer can run again.
* `step_sound_iff`: which steps keep the timers sound.
* `sound_iff`: the same for runs.
-/

namespace ScApi

open Runs

/-- Where the handler of a timer is. -/
inductive Wait where
  /-- The timer is armed. -/
  | armed
  /-- The timer has expired, and its handler is in the queue of the io context. -/
  | queued
  /-- The handler is in the callback. -/
  | running
  deriving DecidableEq, Repr

/-- `Session::PeriodicTimerHandle`. -/
structure PeriodicTimerHandle where
  /-- `session_` points to the session. -/
  session : Bool := false
  /-- `handle_`. -/
  handle : ℤ := -1
  deriving DecidableEq, Repr

/-- The periodic timers of a session, and all handles. -/
structure SessionTimers where
  /-- `periodic_timer_id_counter`. -/
  periodicTimerIdCounter : ℤ := 0
  /-- The keys of `periodic_timers`. -/
  periodicTimers : Finset ℤ := ∅
  /-- The handlers of the timers that are not done. -/
  handlers : ℤ → Option Wait := fun _ => none
  /-- The live handles. -/
  handles : ℕ → Option PeriodicTimerHandle := fun _ => none
  /-- The timers whose handle has been destroyed. -/
  destroyed : List ℤ := []
  /-- Something has happened that has no defined behaviour. -/
  undefinedBehaviour : Bool := false

/-- A step of a program with handles, or of the io context. -/
inductive TimerStep where
  /-- The default constructor. -/
  | construct (h : ℕ)
  | createPeriodicTimer (h : ℕ)
  | moveConstruct (h source : ℕ)
  | moveAssign (h source : ℕ)
  | destroy (h : ℕ)
  /-- The destructor. -/
  | destruct (h : ℕ)
  /-- The timer expires. -/
  | expire (id : ℤ)
  /-- The handler calls the callback. -/
  | callback (id : ℤ)
  /-- The callback has returned, and the handler arms the timer again. -/
  | rearm (id : ℤ)
  deriving DecidableEq, Repr

/-- `INT32_MAX`. -/
def int32Max : ℤ := 2147483647

/-- What `cancel` leaves of the handler of a timer. -/
def Wait.cancel : Option Wait → Option Wait
  | some .armed => none
  | handler => handler

namespace SessionTimers

/-- `Session::createPeriodicTimer`, where the handle is constructed. The increment of the largest id
has no defined behaviour. -/
def createPeriodicTimer (w : SessionTimers) (h : ℕ) : SessionTimers :=
  if w.periodicTimerIdCounter = int32Max then
    { w with undefinedBehaviour := true }
  else
    let id := w.periodicTimerIdCounter + 1
    { w with
      periodicTimerIdCounter := id
      periodicTimers := insert id w.periodicTimers
      handlers := Function.update w.handlers id (some .armed)
      handles := Function.update w.handles h (some ⟨true, id⟩) }

/-- `PeriodicTimerHandle::destroy` on a handle with the given members. -/
def destroy (w : SessionTimers) (h : ℕ) (x : PeriodicTimerHandle) : SessionTimers :=
  if x.handle < 0 then
    w
  else
    let found := x.session ∧ x.handle ∈ w.periodicTimers
    { w with
      periodicTimers := if found then w.periodicTimers.erase x.handle else w.periodicTimers
      handlers :=
        if found then Function.update w.handlers x.handle (Wait.cancel (w.handlers x.handle))
        else w.handlers
      handles := Function.update w.handles h (some {})
      destroyed := x.handle :: w.destroyed }

/-- What a step does as long as everything has defined behaviour. -/
def next (w : SessionTimers) : TimerStep → Option SessionTimers
  | .construct h =>
      match w.handles h with
      | none => some { w with handles := Function.update w.handles h (some {}) }
      | some _ => none
  | .createPeriodicTimer h =>
      match w.handles h with
      | none => some (w.createPeriodicTimer h)
      | some _ => none
  | .moveConstruct h source =>
      match w.handles h, w.handles source with
      | none, some x =>
          -- the ids are swapped, and the destroyed source has none then
          let handles := Function.update w.handles source (some { x with handle := -1 })
          some { w with handles := Function.update handles h (some { handle := x.handle }) }
      | _, _ => none
  | .moveAssign h source =>
      match w.handles h, w.handles source with
      | some x, some y =>
          if h = source then
            some w
          else
            let handles := Function.update w.handles source (some { y with handle := x.handle })
            some { w with handles := Function.update handles h (some { x with handle := y.handle }) }
      | _, _ => none
  | .destroy h => (w.handles h).map (w.destroy h)
  | .destruct h =>
      (w.handles h).map fun x =>
        { w.destroy h x with handles := Function.update w.handles h none }
  | .expire id =>
      if w.handlers id = some .armed then
        some { w with handlers := Function.update w.handlers id (some .queued) }
      else
        none
  | .callback id =>
      if w.handlers id = some .queued then
        some { w with handlers := Function.update w.handlers id (some .running) }
      else
        none
  | .rearm id =>
      if w.handlers id = some .running then
        if id ∈ w.periodicTimers then
          some { w with handlers := Function.update w.handlers id (some .armed) }
        else
          -- the reference to the timer dangles
          some { w with undefinedBehaviour := true }
      else
        none

/-- One step. -/
def step (w : SessionTimers) (l : TimerStep) : Option SessionTimers :=
  if w.undefinedBehaviour then none else w.next l

/-- The handle owns the timer. -/
def Owns (w : SessionTimers) (h : ℕ) (id : ℤ) : Prop :=
  ∃ x, w.handles h = some x ∧ x.handle = id ∧ 0 ≤ id

/-- The timer can still call its callback or be armed again. -/
def Revives (w : SessionTimers) (id : ℤ) : Prop :=
  ∃ ls v, exec step w ls = some v ∧
    ((v.step (.callback id)).isSome ∨ (v.step (.rearm id)).isSome)

/-- **Sound timers.** The entries of the map are the timers that live handles own, each of them by
one, and a timer whose handle has been destroyed is never armed again and never calls its callback
again. -/
structure Sound (w : SessionTimers) : Prop where
  defined : w.undefinedBehaviour = false
  owned : ∀ id, id ∈ w.periodicTimers ↔ ∃ h, w.Owns h id
  unique : ∀ {h h' id}, w.Owns h id → w.Owns h' id → h = h'
  silent : ∀ id ∈ w.destroyed, ¬ w.Revives id

/-- The condition on a step. A handle that is destroyed with a timer points to the session, and the
handler of the timer is neither queued nor running; the largest id is not given away. -/
def Guarded (w : SessionTimers) : TimerStep → Prop
  | .destroy h | .destruct h => ∀ x, w.handles h = some x → 0 ≤ x.handle →
      x.session = true ∧ w.handlers x.handle = some .armed
  | .createPeriodicTimer _ => w.periodicTimerIdCounter ≠ int32Max
  | .construct _ | .moveConstruct _ _ | .moveAssign _ _ | .expire _ | .callback _ | .rearm _ => True

/-- **The invariant.** Every timer that a handle owns is in the map; what else is there has lost its
handle. The timers in the map have a handler, and so may some of those that are gone. -/
structure Invariant (w : SessionTimers) : Prop where
  counter : 0 ≤ w.periodicTimerIdCounter
  ids : ∀ id ∈ w.periodicTimers, id ≤ w.periodicTimerIdCounter
  owned : ∀ {h id}, w.Owns h id → id ∈ w.periodicTimers
  unique : ∀ {h h' id}, w.Owns h id → w.Owns h' id → h = h'
  lost : ∀ id ∈ w.periodicTimers, (∃ h, w.Owns h id) ∨ id ∈ w.destroyed
  destroyedIds : ∀ id ∈ w.destroyed, id ≤ w.periodicTimerIdCounter
  destroyed : ∀ {h id}, id ∈ w.destroyed → ¬ w.Owns h id
  handler : ∀ id ∈ w.periodicTimers, w.handlers id ≠ none
  left : ∀ id, w.handlers id ≠ none → id ∈ w.periodicTimers ∨ id ∈ w.destroyed

theorem invariant_initial : Invariant {} where
  counter := Int.le_refl 0
  ids := by simp
  owned := by simp [Owns]
  unique := by simp [Owns]
  lost := by simp
  destroyedIds := by simp
  destroyed := by simp
  handler := by simp
  left := by simp

section

variable {w w' : SessionTimers} {h : ℕ} {id : ℤ}

/-- Steps that only move handles around. -/
theorem Invariant.moved {handles : ℕ → Option PeriodicTimerHandle} (σ : ℕ ≃ ℕ) (hw : Invariant w)
    (howns : ∀ h id, Owns { w with handles } h id ↔ w.Owns (σ h) id) :
    Invariant { w with handles } where
  counter := hw.counter
  ids := hw.ids
  owned := fun h => hw.owned ((howns _ _).mp h)
  unique := fun h h' => σ.injective (hw.unique ((howns _ _).mp h) ((howns _ _).mp h'))
  lost := by
    intro id hid
    refine (hw.lost id hid).imp_left ?_
    rintro ⟨h, hh⟩
    exact ⟨σ.symm h, (howns _ _).mpr (by rwa [Equiv.apply_symm_apply])⟩
  destroyedIds := hw.destroyedIds
  destroyed := fun hid h => hw.destroyed hid ((howns _ _).mp h)
  handler := hw.handler
  left := hw.left

/-- Steps of a handler that is not done. -/
theorem Invariant.handled {handlers : ℤ → Option Wait} (hw : Invariant w)
    (hnone : ∀ id, handlers id = none ↔ w.handlers id = none) :
    Invariant { w with handlers } where
  counter := hw.counter
  ids := hw.ids
  owned := hw.owned
  unique := hw.unique
  lost := hw.lost
  destroyedIds := hw.destroyedIds
  destroyed := hw.destroyed
  handler := fun id hid h => hw.handler id hid ((hnone id).mp h)
  left := fun id hid => hw.left id fun h => hid ((hnone id).mpr h)

theorem owns_update_of_ne {handles : ℕ → Option PeriodicTimerHandle} {x : Option PeriodicTimerHandle}
    {h' : ℕ} (hne : h' ≠ h) :
    Owns { w with handles := Function.update handles h x } h' id ↔
      Owns { w with handles } h' id := by
  simp only [Owns, Function.update_of_ne hne]

/-- The handle of a new timer owns it, and nothing else changes hands. -/
theorem owns_create {x : PeriodicTimerHandle} {h' : ℕ} (hh : w.handles h = none) (hx : 0 ≤ x.handle) :
    Owns { w with handles := Function.update w.handles h (some x) } h' id ↔
      h' = h ∧ id = x.handle ∨ w.Owns h' id := by
  by_cases heq : h' = h
  · subst heq
    have hnot : ¬ w.Owns h' id := by simp [Owns, hh]
    rw [or_iff_left hnot, and_iff_right rfl, Owns]
    simp only [Function.update_self, Option.some.injEq, exists_eq_left']
    constructor
    · rintro ⟨rfl, -⟩
      rfl
    · rintro rfl
      exact ⟨rfl, hx⟩
  · rw [owns_update_of_ne heq]
    simp [heq]

/-- A new timer. -/
theorem Invariant.create (hw : Invariant w) (hh : w.handles h = none) :
    Invariant (w.createPeriodicTimer h) := by
  rw [createPeriodicTimer]
  split
  · exact ⟨hw.counter, hw.ids, hw.owned, hw.unique, hw.lost, hw.destroyedIds, hw.destroyed,
      hw.handler, hw.left⟩
  have hcounter := hw.counter
  have howns : ∀ h' id, Owns { w with
        handles := Function.update w.handles h (some ⟨true, w.periodicTimerIdCounter + 1⟩) } h' id ↔
        h' = h ∧ id = w.periodicTimerIdCounter + 1 ∨ w.Owns h' id :=
    fun h' id => owns_create hh (by dsimp only; omega)
  have hnew : ∀ h', ¬ w.Owns h' (w.periodicTimerIdCounter + 1) := by
    intro h' hown
    have hle := hw.ids _ (hw.owned hown)
    omega
  dsimp only
  constructor
  · dsimp only
    omega
  · intro id hid
    rcases Finset.mem_insert.mp hid with rfl | hid
    · exact Int.le_refl _
    · have hle := hw.ids id hid
      dsimp only
      omega
  · intro h' id hown
    rcases (howns h' id).mp hown with ⟨-, rfl⟩ | hown
    · exact Finset.mem_insert_self _ _
    · exact Finset.mem_insert_of_mem (hw.owned hown)
  · intro h₁ h₂ id hown hown'
    rcases (howns h₁ id).mp hown with ⟨rfl, rfl⟩ | hold
    · rcases (howns h₂ _).mp hown' with ⟨rfl, -⟩ | hold'
      · rfl
      · exact absurd hold' (hnew h₂)
    · rcases (howns h₂ _).mp hown' with ⟨rfl, rfl⟩ | hold'
      · exact absurd hold (hnew h₁)
      · exact hw.unique hold hold'
  · intro id hid
    rcases Finset.mem_insert.mp hid with rfl | hid
    · exact Or.inl ⟨h, (howns h _).mpr (Or.inl ⟨rfl, rfl⟩)⟩
    · refine (hw.lost id hid).imp_left ?_
      rintro ⟨h', hown⟩
      exact ⟨h', (howns h' id).mpr (Or.inr hown)⟩
  · intro id hid
    have hle := hw.destroyedIds id hid
    dsimp only
    omega
  · intro h' id hid hown
    rcases (howns h' id).mp hown with ⟨-, rfl⟩ | hown
    · have hle := hw.destroyedIds _ hid
      omega
    · exact hw.destroyed hid hown
  · intro id hid
    dsimp only
    by_cases heq : id = w.periodicTimerIdCounter + 1
    · simp [heq]
    · rw [Function.update_of_ne heq]
      exact hw.handler id ((Finset.mem_insert.mp hid).resolve_left heq)
  · intro id hid
    by_cases heq : id = w.periodicTimerIdCounter + 1
    · exact Or.inl (heq ▸ Finset.mem_insert_self _ _)
    · dsimp only at hid
      rw [Function.update_of_ne heq] at hid
      exact (hw.left id hid).imp_left (Finset.mem_insert_of_mem ·)

/-- What a handle that owns a timer destroys: the timer goes when the handle points to the
session. -/
theorem destroy_eq {x : PeriodicTimerHandle} (hw : Invariant w) (hx : w.handles h = some x)
    (hid : 0 ≤ x.handle) :
    w.destroy h x = { w with
      periodicTimers := if x.session then w.periodicTimers.erase x.handle else w.periodicTimers
      handlers :=
        if x.session then Function.update w.handlers x.handle (Wait.cancel (w.handlers x.handle))
        else w.handlers
      handles := Function.update w.handles h (some {})
      destroyed := x.handle :: w.destroyed } := by
  have hmem : x.handle ∈ w.periodicTimers := hw.owned ⟨x, hx, rfl, hid⟩
  rw [SessionTimers.destroy, if_neg (by omega)]
  simp only [hmem, and_true]

/-- The end of a handle. -/
theorem Invariant.destroy {x : PeriodicTimerHandle} {handles : ℕ → Option PeriodicTimerHandle}
    (hw : Invariant w) (hx : w.handles h = some x)
    (howns : ∀ h' id, Owns { w with handles } h' id ↔ h' ≠ h ∧ w.Owns h' id) :
    Invariant { w.destroy h x with handles } := by
  by_cases hid : 0 ≤ x.handle
  swap
  · rw [SessionTimers.destroy, if_pos (by omega)]
    refine hw.moved (Equiv.refl ℕ) fun h' id => (howns h' id).trans (and_iff_right_of_imp ?_)
    rintro ⟨y, hy, rfl, hnonneg⟩ rfl
    obtain rfl := Option.some.inj (hx.symm.trans hy)
    exact hid hnonneg
  have hown : w.Owns h x.handle := ⟨x, hx, rfl, hid⟩
  have hmem := hw.owned hown
  rw [destroy_eq hw hx hid]
  have hother : ∀ h' id, Owns { w with handles } h' id → id ≠ x.handle ∧ w.Owns h' id := by
    intro h' id hown'
    obtain ⟨hne, hold⟩ := (howns h' id).mp hown'
    exact ⟨fun heq => hne (hw.unique (heq ▸ hold) hown), hold⟩
  have hcancel : ∀ id, id ≠ x.handle →
      (if x.session then Function.update w.handlers x.handle (Wait.cancel (w.handlers x.handle))
        else w.handlers) id = w.handlers id := by
    intro id hne
    split
    · rw [Function.update_of_ne hne]
    · rfl
  have hkept : ∀ id, id ≠ x.handle →
      (id ∈ (if x.session then w.periodicTimers.erase x.handle else w.periodicTimers) ↔
        id ∈ w.periodicTimers) := by
    intro id hne
    split
    · rw [Finset.mem_erase, and_iff_right hne]
    · exact Iff.rfl
  constructor
  · exact hw.counter
  · intro id hid'
    refine hw.ids id ?_
    dsimp only at hid'
    split at hid'
    · exact Finset.mem_of_mem_erase hid'
    · exact hid'
  · intro h' id hown'
    obtain ⟨hne, hold⟩ := hother h' id hown'
    dsimp only
    split
    · exact Finset.mem_erase.mpr ⟨hne, hw.owned hold⟩
    · exact hw.owned hold
  · intro h₁ h₂ id h₁own h₂own
    exact hw.unique (hother h₁ id h₁own).2 (hother h₂ id h₂own).2
  · intro id hid'
    by_cases heq : id = x.handle
    · exact Or.inr (heq ▸ List.mem_cons_self)
    · rcases hw.lost id ((hkept id heq).mp hid') with ⟨h', hold⟩ | hlost
      · refine Or.inl ⟨h', (howns h' id).mpr ⟨?_, hold⟩⟩
        rintro rfl
        obtain ⟨y, hy, rfl, -⟩ := hold
        obtain rfl := Option.some.inj (hx.symm.trans hy)
        exact heq rfl
      · exact Or.inr (List.mem_cons_of_mem _ hlost)
  · intro id hid'
    rcases List.mem_cons.mp hid' with rfl | hid'
    · exact hw.ids _ hmem
    · exact hw.destroyedIds id hid'
  · intro h' id hid' hown'
    obtain ⟨hne, hold⟩ := hother h' id hown'
    exact hw.destroyed ((List.mem_cons.mp hid').resolve_left hne) hold
  · intro id hid'
    dsimp only at hid' ⊢
    split at hid'
    · obtain ⟨hne, hold⟩ := Finset.mem_erase.mp hid'
      rw [hcancel id hne]
      exact hw.handler id hold
    · rename_i hsession
      rw [if_neg hsession]
      exact hw.handler id hid'
  · intro id hid'
    by_cases heq : id = x.handle
    · exact Or.inr (heq ▸ List.mem_cons_self)
    · dsimp only at hid'
      rw [hcancel id heq] at hid'
      exact (hw.left id hid').imp (hkept id heq).mpr (List.mem_cons_of_mem _)

/-! ### The steps -/

theorem owns_iff {x : PeriodicTimerHandle} (hx : w.handles h = some x) :
    w.Owns h id ↔ x.handle = id ∧ 0 ≤ id := by
  rw [Owns]
  simp only [hx, Option.some.injEq, exists_eq_left']

theorem not_owns (hh : w.handles h = none) : ¬ w.Owns h id := by
  simp [Owns, hh]

/-- The move constructor: the new handle takes the timer. -/
theorem owns_moveConstruct {source : ℕ} {x : PeriodicTimerHandle} (hh : w.handles h = none)
    (hsource : w.handles source = some x) (h' : ℕ) (id : ℤ) :
    Owns { w with handles := Function.update (Function.update w.handles source
        (some { x with handle := -1 })) h (some { handle := x.handle }) } h' id ↔
      w.Owns (Equiv.swap h source h') id := by
  have hne : source ≠ h := by
    rintro rfl
    simp [hh] at hsource
  by_cases heq : h' = h
  · subst heq
    rw [Equiv.swap_apply_left, owns_iff hsource, owns_iff (Function.update_self _ _ _)]
  · by_cases hs : h' = source
    · subst hs
      rw [Equiv.swap_apply_right, owns_update_of_ne heq, owns_iff (Function.update_self _ _ _)]
      refine iff_of_false ?_ (not_owns hh)
      rintro ⟨rfl, hid⟩
      have hneg : (0 : ℤ) ≤ -1 := hid
      omega
    · rw [Equiv.swap_apply_of_ne_of_ne heq hs, owns_update_of_ne heq, owns_update_of_ne hs]

/-- The move assignment: the handles swap their timers. -/
theorem owns_moveAssign {source : ℕ} {x y : PeriodicTimerHandle} (hne : h ≠ source)
    (hh : w.handles h = some x) (hsource : w.handles source = some y) (h' : ℕ) (id : ℤ) :
    Owns { w with handles := Function.update (Function.update w.handles source
        (some { y with handle := x.handle })) h (some { x with handle := y.handle }) } h' id ↔
      w.Owns (Equiv.swap h source h') id := by
  by_cases heq : h' = h
  · subst heq
    rw [Equiv.swap_apply_left, owns_iff hsource, owns_iff (Function.update_self _ _ _)]
  · by_cases hs : h' = source
    · subst hs
      rw [Equiv.swap_apply_right, owns_update_of_ne heq, owns_iff (Function.update_self _ _ _),
        owns_iff hh]
    · rw [Equiv.swap_apply_of_ne_of_ne heq hs, owns_update_of_ne heq, owns_update_of_ne hs]

/-- A handle that holds no timer any more, or does not live any more. -/
theorem owns_end {x : Option PeriodicTimerHandle} (hx : ∀ y, x = some y → y.handle < 0) (h' : ℕ)
    (id : ℤ) : Owns { w with handles := Function.update w.handles h x } h' id ↔
      h' ≠ h ∧ w.Owns h' id := by
  by_cases heq : h' = h
  · subst heq
    refine iff_of_false ?_ fun hand => hand.1 rfl
    rintro ⟨y, hy, rfl, hid⟩
    dsimp only at hy
    rw [Function.update_self] at hy
    have hneg := hx y hy
    omega
  · rw [owns_update_of_ne heq, and_iff_right heq]

/-- **What a step does**: it moves handles around, brings a handler on, creates a timer, destroys
what a handle holds, or uses a timer that is gone. -/
inductive TimerCase (w : SessionTimers) : TimerStep → SessionTimers → Prop
  | moved {l : TimerStep} (hl : w.Guarded l) (σ : ℕ ≃ ℕ) (handles : ℕ → Option PeriodicTimerHandle)
      (howns : ∀ h id, Owns { w with handles } h id ↔ w.Owns (σ h) id) :
      TimerCase w l { w with handles }
  | handled {l : TimerStep} (hl : w.Guarded l) (handlers : ℤ → Option Wait)
      (hnone : ∀ id, handlers id = none ↔ w.handlers id = none) :
      TimerCase w l { w with handlers }
  | created (h : ℕ) (hh : w.handles h = none) :
      TimerCase w (.createPeriodicTimer h) (w.createPeriodicTimer h)
  | destroyed {l : TimerStep} (h : ℕ) (x : PeriodicTimerHandle) (hl : l = .destroy h ∨ l = .destruct h)
      (hx : w.handles h = some x) (handles : ℕ → Option PeriodicTimerHandle)
      (howns : ∀ h' id, Owns { w with handles } h' id ↔ h' ≠ h ∧ w.Owns h' id) :
      TimerCase w l { w.destroy h x with handles }
  | dangling (id : ℤ) (hrunning : w.handlers id = some .running) (hgone : id ∉ w.periodicTimers) :
      TimerCase w (.rearm id) { w with undefinedBehaviour := true }

/-- A handler goes on. -/
theorem handler_none_iff {before after : Wait} (hid : w.handlers id = some before) (id' : ℤ) :
    Function.update w.handlers id (some after) id' = none ↔ w.handlers id' = none := by
  by_cases heq : id' = id
  · rw [heq, Function.update_self, hid]
    simp
  · rw [Function.update_of_ne heq]

theorem step_cases {l : TimerStep} (hstep : w.step l = some w') :
    w.undefinedBehaviour = false ∧ TimerCase w l w' := by
  rw [step, Option.ite_none_left_eq_some, Bool.not_eq_true] at hstep
  obtain ⟨hdefined, hstep⟩ := hstep
  refine ⟨hdefined, ?_⟩
  cases l with
  | construct h =>
      rw [next] at hstep
      split at hstep
      · rename_i hh
        obtain rfl := Option.some.inj hstep
        refine .moved (l := .construct h) trivial (Equiv.refl ℕ) _ fun h' id => ?_
        rw [owns_end (by simp)]
        refine and_iff_right_of_imp ?_
        rintro hown rfl
        exact not_owns hh hown
      · simp at hstep
  | createPeriodicTimer h =>
      rw [next] at hstep
      split at hstep
      · rename_i hh
        obtain rfl := Option.some.inj hstep
        exact .created h hh
      · simp at hstep
  | moveConstruct h source =>
      rw [next] at hstep
      split at hstep
      · rename_i hh hsource
        obtain rfl := Option.some.inj hstep
        exact .moved (l := .moveConstruct h source) trivial _ _ (owns_moveConstruct hh hsource)
      · simp at hstep
  | moveAssign h source =>
      rw [next] at hstep
      split at hstep
      · rename_i hh hsource
        split at hstep
        · obtain rfl := Option.some.inj hstep
          exact .moved (l := .moveAssign h source) trivial (Equiv.refl ℕ) w.handles fun _ _ => Iff.rfl
        · rename_i hne
          obtain rfl := Option.some.inj hstep
          exact .moved (l := .moveAssign h source) trivial _ _ (owns_moveAssign hne hh hsource)
      · simp at hstep
  | destroy h =>
      obtain ⟨x, hx, rfl⟩ := Option.map_eq_some_iff.mp hstep
      refine .destroyed h x (Or.inl rfl) hx (w.destroy h x).handles ?_
      rw [SessionTimers.destroy]
      split
      · rename_i hneg
        refine fun h' id => (and_iff_right_of_imp ?_).symm
        rintro hown rfl
        have hid := (owns_iff hx).mp hown
        omega
      · exact owns_end (by simp)
  | destruct h =>
      obtain ⟨x, hx, rfl⟩ := Option.map_eq_some_iff.mp hstep
      exact .destroyed h x (Or.inr rfl) hx _ (owns_end (by simp))
  | expire id =>
      rw [next, Option.ite_none_right_eq_some, Option.some.injEq] at hstep
      obtain ⟨harmed, rfl⟩ := hstep
      exact .handled (l := .expire id) trivial _ (handler_none_iff harmed)
  | callback id =>
      rw [next, Option.ite_none_right_eq_some, Option.some.injEq] at hstep
      obtain ⟨hqueued, rfl⟩ := hstep
      exact .handled (l := .callback id) trivial _ (handler_none_iff hqueued)
  | rearm id =>
      rw [next, Option.ite_none_right_eq_some] at hstep
      obtain ⟨hrunning, hstep⟩ := hstep
      split at hstep
      · obtain rfl := Option.some.inj hstep
        exact .handled (l := .rearm id) trivial _ (handler_none_iff hrunning)
      · rename_i hgone
        obtain rfl := Option.some.inj hstep
        exact .dangling id hrunning hgone

/-- **Every step keeps the invariant.** -/
theorem step_invariant {l : TimerStep} (hw : Invariant w) (hstep : w.step l = some w') :
    Invariant w' := by
  cases (step_cases hstep).2 with
  | moved hl σ handles howns => exact hw.moved σ howns
  | handled hl handlers hnone => exact hw.handled hnone
  | created h hh => exact hw.create hh
  | destroyed h x hl hx handles howns => exact hw.destroy hx howns
  | dangling id hrunning hgone =>
      exact ⟨hw.counter, hw.ids, hw.owned, hw.unique, hw.lost, hw.destroyedIds, hw.destroyed,
        hw.handler, hw.left⟩

/-! ### Timers that are gone -/

/-- A timer that has been created and has no handler left. -/
def Gone (w : SessionTimers) (id : ℤ) : Prop :=
  id ≤ w.periodicTimerIdCounter ∧ w.handlers id = none

/-- What is left of the handler of a timer that is destroyed. -/
theorem destroy_handlers {x : PeriodicTimerHandle} (hid : w.handlers id = none) :
    (w.destroy h x).handlers id = none := by
  rw [SessionTimers.destroy]
  split
  · exact hid
  dsimp only
  split
  · by_cases heq : id = x.handle
    · rw [heq, Function.update_self, ← heq, hid]
      rfl
    · rw [Function.update_of_ne heq, hid]
  · exact hid

theorem destroy_counter {x : PeriodicTimerHandle} :
    (w.destroy h x).periodicTimerIdCounter = w.periodicTimerIdCounter := by
  rw [SessionTimers.destroy]
  split <;> rfl

theorem destroy_undefinedBehaviour {x : PeriodicTimerHandle} :
    (w.destroy h x).undefinedBehaviour = w.undefinedBehaviour := by
  rw [SessionTimers.destroy]
  split <;> rfl

/-- A timer that is gone does not come back. -/
theorem Gone.step {l : TimerStep} (hid : w.Gone id) (hstep : w.step l = some w') : w'.Gone id := by
  obtain ⟨hle, hnone⟩ := hid
  cases (step_cases hstep).2 with
  | moved => exact ⟨hle, hnone⟩
  | handled hl handlers hsame => exact ⟨hle, (hsame id).mpr hnone⟩
  | created h hh =>
      rw [createPeriodicTimer]
      split
      · exact ⟨hle, hnone⟩
      · have hne : id ≠ w.periodicTimerIdCounter + 1 := by omega
        refine ⟨?_, ?_⟩ <;> dsimp only
        · omega
        · rw [Function.update_of_ne hne, hnone]
  | destroyed h x => exact ⟨hle.trans_eq destroy_counter.symm, destroy_handlers hnone⟩
  | dangling => exact ⟨hle, hnone⟩

/-- **When the callback of a timer can run again**: as long as its handler is not done. -/
theorem revives_iff (hdefined : w.undefinedBehaviour = false)
    (hid : id ≤ w.periodicTimerIdCounter) : w.Revives id ↔ w.handlers id ≠ none := by
  constructor
  · rintro ⟨ls, v, hrun, hlater⟩ hnone
    have hgone : v.Gone id := invariant_of_step Gone.step ⟨hid, hnone⟩ hrun
    rcases hlater with hlater | hlater <;>
      simp [step, next, hgone.2] at hlater
  · intro hne
    obtain ⟨handler, hhandler⟩ := Option.ne_none_iff_exists'.mp hne
    cases handler with
    | armed =>
        have hexpire : w.step (.expire id)
            = some { w with handlers := Function.update w.handlers id (some .queued) } := by
          rw [step, if_neg (by simp [hdefined]), next, if_pos hhandler]
        refine ⟨[.expire id], _, exec_singleton.mpr hexpire, Or.inl ?_⟩
        simp [step, next, hdefined]
    | queued =>
        refine ⟨[], w, rfl, Or.inl ?_⟩
        simp [step, next, hdefined, hhandler]
    | running =>
        refine ⟨[], w, rfl, Or.inr ?_⟩
        rw [step, if_neg (by simp [hdefined]), next, if_pos hhandler]
        split <;> rfl

/-- **Sound timers** are those whose destroyed timers have no handler left. -/
theorem sound_iff_gone (hw : Invariant w) :
    w.Sound ↔ w.undefinedBehaviour = false ∧ ∀ id ∈ w.destroyed, w.handlers id = none := by
  constructor
  · intro hsound
    refine ⟨hsound.defined, fun id hid => ?_⟩
    have hsilent := hsound.silent id hid
    rwa [revives_iff hsound.defined (hw.destroyedIds id hid), not_not] at hsilent
  · rintro ⟨hdefined, hgone⟩
    refine ⟨hdefined, fun id => ⟨fun hid => ?_, fun ⟨h, hown⟩ => hw.owned hown⟩, hw.unique, ?_⟩
    · exact (hw.lost id hid).resolve_right fun hlost => hw.handler id hid (hgone id hlost)
    · intro id hid
      rw [revives_iff hdefined (hw.destroyedIds id hid), not_not]
      exact hgone id hid

/-- What is left of a handle's timer when the handle is destroyed. -/
theorem destroy_gone_iff {x : PeriodicTimerHandle} (hw : Invariant w) (hx : w.handles h = some x) :
    (∀ id ∈ (w.destroy h x).destroyed, (w.destroy h x).handlers id = none) ↔
      (∀ id ∈ w.destroyed, w.handlers id = none) ∧
        (0 ≤ x.handle → x.session = true ∧ w.handlers x.handle = some .armed) := by
  by_cases hid : 0 ≤ x.handle
  swap
  · rw [SessionTimers.destroy, if_pos (by omega)]
    exact (and_iff_left fun h => absurd h hid).symm
  have hown : w.Owns h x.handle := ⟨x, hx, rfl, hid⟩
  have hhandler := hw.handler _ (hw.owned hown)
  rw [destroy_eq hw hx hid, imp_iff_right hid, and_comm]
  dsimp only
  rw [List.forall_mem_cons]
  refine and_congr ?_ (forall₂_congr fun id hmem => ?_)
  · cases hsession : x.session with
    | false => simp [hhandler]
    | true =>
        rw [if_pos rfl, Function.update_self]
        cases hcase : w.handlers x.handle with
        | none => exact absurd hcase hhandler
        | some handler => cases handler <;> simp [Wait.cancel]
  · have hne : id ≠ x.handle := by
      rintro rfl
      exact hw.destroyed hmem hown
    split
    · rw [Function.update_of_ne hne]
    · exact Iff.rfl

/-- **Which steps keep the timers sound.** -/
theorem step_sound_iff {l : TimerStep} (hw : Invariant w) (hstep : w.step l = some w') :
    w'.Sound ↔ w.Sound ∧ w.Guarded l := by
  obtain ⟨hdefined, hcase⟩ := step_cases hstep
  rw [sound_iff_gone hw, sound_iff_gone (step_invariant hw hstep)]
  cases hcase with
  | moved hl => exact (and_iff_left hl).symm
  | handled hl handlers hnone =>
      rw [and_iff_left hl]
      simp only [hnone]
  | created h hh =>
      rw [createPeriodicTimer, Guarded]
      split
      · rename_i hmax
        refine iff_of_false ?_ fun hand => hand.2 hmax
        rintro ⟨hfalse, -⟩
        cases hfalse
      · rename_i hmax
        rw [and_iff_left hmax]
        dsimp only
        refine and_congr_right fun _ => forall₂_congr fun id hid => ?_
        have hle := hw.destroyedIds id hid
        have hne : id ≠ w.periodicTimerIdCounter + 1 := by omega
        rw [Function.update_of_ne hne]
  | destroyed h x hl hx handles howns =>
      have hguard : w.Guarded l ↔
          (0 ≤ x.handle → x.session = true ∧ w.handlers x.handle = some .armed) := by
        rcases hl with rfl | rfl <;> simp only [Guarded, hx, Option.some.injEq, forall_eq']
      rw [hguard, and_assoc, ← destroy_gone_iff hw hx]
      dsimp only
      rw [destroy_undefinedBehaviour]
  | dangling id hrunning hgone =>
      -- the timer has lost its handle before
      have hlost := (hw.left id (by simp [hrunning])).resolve_left hgone
      refine iff_of_false ?_ ?_
      · rintro ⟨hfalse, -⟩
        cases hfalse
      · rintro ⟨⟨-, hnone⟩, -⟩
        simp [hnone id hlost] at hrunning

/-- **Which runs keep the timers sound**: exactly those in which every handle that is destroyed with
a timer points to the session, with the timer's handler neither queued nor running, and in which no
timer is created behind the largest id. -/
theorem sound_iff {ls : List TimerStep} (hrun : exec step {} ls = some w) :
    w.Sound ↔ Meets step Guarded {} ls := by
  have hinitial : Sound {} := (sound_iff_gone invariant_initial).mpr ⟨rfl, by simp⟩
  rw [meets_iff_of_invariant step_invariant step_sound_iff invariant_initial hrun]
  exact and_iff_right hinitial

/-- Two timers change their handles, and one of them runs before both are destroyed. -/
theorem sound_iff_swapped : ∃ w, exec step {} [.createPeriodicTimer 0, .createPeriodicTimer 1,
      .moveAssign 0 1, .expire 1, .callback 1, .rearm 1, .destruct 0, .destroy 1] = some w ∧
    (w.Sound ↔ Meets step Guarded {} [.createPeriodicTimer 0, .createPeriodicTimer 1,
      .moveAssign 0 1, .expire 1, .callback 1, .rearm 1, .destruct 0, .destroy 1]) :=
  ⟨_, rfl, sound_iff rfl⟩

/-- A handle is moved into a new one, which does not point to the session: the timer outlives both
handles. -/
theorem not_sound : ¬ ∀ (ls : List TimerStep) (w : SessionTimers),
    exec step {} ls = some w → w.Sound := by
  intro h
  have hsound := h [.createPeriodicTimer 0, .moveConstruct 1 0, .destruct 1] _ rfl
  exact hsound.silent 1 List.mem_cons_self ⟨[.expire 1], _, rfl, Or.inl rfl⟩

end

end SessionTimers

end ScApi
