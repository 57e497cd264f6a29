import Mathlib.Data.List.Induction
import Mathlib.Data.List.Nodup
import ScApi.ApiWorker

/-!
# Listeners of an `Api`

The worker takes the requests to add and to remove listeners in batches, between the callbacks that
tell all listeners about the session. The new listeners of a batch are those from an index on, which
`threadFunc` adjusts when a listener is removed; the removed element counts as a new one whenever the
list is longer than the index.

A listener is an object that is added once and removed once at most, so the requests that come from
callers keep to that order.

## Main results

* `processed_spec`: what the worker makes of a batch.
* `step_informed_iff`: which batches tell every new listener that it was added.
* `informed_iff`: the same for runs, with all the callbacks that a listener gets.
-/

namespace ScApi

open Runs

/-! ### A batch -/

/-- The listeners that are added. -/
def added (actions : List ListenerAction) : List ℕ :=
  actions.filterMap fun
    | .add listener => some listener
    | .remove _ => none

/-- The listeners that are removed. -/
def removed (actions : List ListenerAction) : List ℕ :=
  actions.filterMap fun
    | .add _ => none
    | .remove listener => some listener

/-- The listeners that are added and still present at the end. -/
def fresh (actions : List ListenerAction) : List ℕ :=
  (added actions).filter (· ∉ removed actions)

/-- The listener of a request. -/
def ListenerAction.listener : ListenerAction → ℕ
  | .add listener | .remove listener => listener

/-- Any two requests for one listener are to add it and, later, to remove it. -/
def DistinctListeners (actions : List ListenerAction) : Prop :=
  actions.Pairwise fun a b =>
    a.listener = b.listener → a = .add a.listener ∧ b = .remove b.listener

instance (actions : List ListenerAction) : Decidable (DistinctListeners actions) :=
  inferInstanceAs (Decidable (actions.Pairwise _))

/-- The state of `threadFunc` within a batch. -/
structure ListenerBatch where
  listeners : List ℕ
  addNotifyIndex : ℕ
  removedListeners : List ℕ := []
  deriving DecidableEq, Repr

/-- A request. `std::remove` returns the end of the listeners that are kept. -/
def ListenerBatch.process (b : ListenerBatch) : ListenerAction → ListenerBatch
  | .add listener => { b with listeners := Worker.apply b.listeners (.add listener) }
  | .remove listener =>
      let removedIdx := (b.listeners.filter (· ≠ listener)).length
      { listeners := Worker.apply b.listeners (.remove listener)
        addNotifyIndex :=
          if removedIdx < b.listeners.length ∧ removedIdx < b.addNotifyIndex then
            b.addNotifyIndex - 1
          else
            b.addNotifyIndex
        removedListeners := b.removedListeners ++ [listener] }

/-- A whole batch. -/
def processed (listeners : List ℕ) (actions : List ListenerAction) : ListenerBatch :=
  actions.foldl ListenerBatch.process ⟨listeners, listeners.length, []⟩

/-- The condition on a batch: whenever one of the present listeners is removed, there is a moment
from then on at which no listener of the batch is present. -/
def Undisturbed (listeners : List ℕ) (actions : List ListenerAction) : Prop :=
  ∀ pre listener post, actions = pre ++ .remove listener :: post → listener ∈ listeners →
    ∃ mid rest, post = mid ++ rest ∧ fresh (pre ++ .remove listener :: mid) = []

/-! ### The worker -/

/-- A callback. -/
inductive ListenerCallback where
  | listenerAdded
  | listenerRemoved
  | sessionStateChanged (state : SessionState)
  | controlFlagsChanged (flags : UInt32)
  deriving DecidableEq, Repr

/-- The listeners of a worker with the history of requests and callbacks. -/
structure ListenerLoop where
  listeners : List ℕ := []
  /-- The worker has left its loop. -/
  done : Bool := false
  requests : List ListenerAction := []
  /-- The listeners that were present at the end of the batch that added them. -/
  admitted : List ℕ := []
  log : List (ℕ × ListenerCallback) := []
  deriving DecidableEq, Repr

/-- A step of the worker: a batch, a callback about the session to all listeners, or the end of
`threadFunc`, with a session or without. -/
inductive ListenerStep where
  | batch (actions : List ListenerAction)
  | sessionStateChanged (state : SessionState)
  | controlFlagsChanged (flags : UInt32)
  | finish (active : Bool)
  deriving DecidableEq, Repr

namespace ListenerLoop

/-- A callback of all listeners. -/
def tellAll (callback : ListenerCallback) (w : ListenerLoop) : ListenerLoop :=
  { w with log := w.log ++ w.listeners.map fun listener => (listener, callback) }

/-- A batch with its callbacks. -/
def batch (actions : List ListenerAction) (w : ListenerLoop) : ListenerLoop :=
  let b := processed w.listeners actions
  { w with
    listeners := b.listeners
    requests := w.requests ++ actions
    admitted := w.admitted ++ fresh actions
    log := w.log ++ b.removedListeners.map (fun listener => (listener, .listenerRemoved)) ++
      (b.listeners.drop b.addNotifyIndex).map fun listener => (listener, .listenerAdded) }

/-- The end of `threadFunc`. -/
def finish (active : Bool) (w : ListenerLoop) : ListenerLoop :=
  let w := if active then w.tellAll (.sessionStateChanged .sessionLost) else w
  { w.tellAll .listenerRemoved with done := true }

/-- One step. -/
def step (w : ListenerLoop) : ListenerStep → Option ListenerLoop
  | .batch actions =>
      if w.done = false ∧ DistinctListeners (w.requests ++ actions) then
        some (w.batch actions)
      else
        none
  | .sessionStateChanged state =>
      if w.done then none else some (w.tellAll (.sessionStateChanged state))
  | .controlFlagsChanged flags =>
      if w.done then none else some (w.tellAll (.controlFlagsChanged flags))
  | .finish active => if w.done then none else some (w.finish active)

/-- The callbacks of a listener. -/
def callbacks (w : ListenerLoop) (listener : ℕ) : List ListenerCallback :=
  w.log.filterMap fun entry => if entry.1 = listener then some entry.2 else none

/-- A listener has been told that it was added, once and before anything else. -/
def Announced (callbacks : List ListenerCallback) : Prop :=
  ∃ later, callbacks = .listenerAdded :: later ∧ .listenerAdded ∉ later

/-- A listener gets no callback after it was told that it is removed. -/
def Silent (callbacks : List ListenerCallback) : Prop :=
  ∀ earlier later, callbacks = earlier ++ .listenerRemoved :: later → later = []

/-- All listeners that were present at the end of their batch have been told that they were added,
and all that were told that they are removed get no callbacks any more. -/
def Informed (w : ListenerLoop) : Prop :=
  (∀ listener ∈ w.admitted, Announced (w.callbacks listener)) ∧
    ∀ listener, Silent (w.callbacks listener)

/-- The condition on a step. -/
def Guarded (w : ListenerLoop) : ListenerStep → Prop
  | .batch actions => Undisturbed w.listeners actions
  | .sessionStateChanged _ | .controlFlagsChanged _ | .finish _ => True

end ListenerLoop

/-! ### What a batch makes of the list -/

section

variable {actions : List ListenerAction} {listeners : List ℕ} {listener : ℕ}

theorem mem_added : listener ∈ added actions ↔ .add listener ∈ actions := by
  rw [added, List.mem_filterMap]
  constructor
  · rintro ⟨a, ha, h⟩
    cases a with
    | add l =>
        obtain rfl := Option.some.inj h
        exact ha
    | remove l => simp at h
  · exact fun h => ⟨_, h, rfl⟩

theorem mem_removed : listener ∈ removed actions ↔ .remove listener ∈ actions := by
  rw [removed, List.mem_filterMap]
  constructor
  · rintro ⟨a, ha, h⟩
    cases a with
    | add l => simp at h
    | remove l =>
        obtain rfl := Option.some.inj h
        exact ha
  · exact fun h => ⟨_, h, rfl⟩

@[simp] theorem added_append (actions actions' : List ListenerAction) :
    added (actions ++ actions') = added actions ++ added actions' :=
  List.filterMap_append

@[simp] theorem removed_append (actions actions' : List ListenerAction) :
    removed (actions ++ actions') = removed actions ++ removed actions' :=
  List.filterMap_append

theorem mem_fresh :
    listener ∈ fresh actions ↔ .add listener ∈ actions ∧ .remove listener ∉ actions := by
  rw [fresh, List.mem_filter, decide_eq_true_iff, mem_added, mem_removed]

/-- The last request is the first one for its listener, or removes it. -/
theorem DistinctListeners.last {a : ListenerAction}
    (h : DistinctListeners (actions ++ [a])) {b : ListenerAction} (hb : b ∈ actions)
    (hlistener : b.listener = a.listener) : b = .add b.listener ∧ a = .remove a.listener :=
  (List.pairwise_append.mp h).2.2 b hb a (List.mem_singleton_self a) hlistener

theorem fresh_append_add (h : DistinctListeners (actions ++ [.add listener])) :
    fresh (actions ++ [.add listener]) = fresh actions ++ [listener] := by
  have hremoved : listener ∉ removed actions := by
    intro hmem
    have hlast := (h.last (mem_removed.mp hmem) rfl).2
    simp at hlast
  have hsame : removed (actions ++ [.add listener]) = removed actions := by simp [removed]
  rw [fresh, hsame, added_append, List.filter_append]
  simp [fresh, added, hremoved]

theorem fresh_append_remove :
    fresh (actions ++ [.remove listener]) = (fresh actions).filter (· ≠ listener) := by
  have hsame : added (actions ++ [.remove listener]) = added actions := by simp [added]
  rw [fresh, fresh, hsame, List.filter_filter]
  refine List.filter_congr fun l _ => ?_
  simp [removed, and_comm]

/-- The listeners of before that are still present. -/
def kept (listeners : List ℕ) (actions : List ListenerAction) : List ℕ :=
  listeners.filter (· ∉ removed actions)

theorem kept_append_add : kept listeners (actions ++ [.add listener]) = kept listeners actions := by
  simp [kept, removed]

theorem kept_append_remove :
    kept listeners (actions ++ [.remove listener]) =
      (kept listeners actions).filter (· ≠ listener) := by
  rw [kept, kept, List.filter_filter]
  refine List.filter_congr fun l _ => ?_
  simp [removed, and_comm]

/-- **One more request**: the last one decides, unless no listener of the batch is left. -/
theorem undisturbed_append_singleton {a : ListenerAction} :
    Undisturbed listeners (actions ++ [a]) ↔ fresh (actions ++ [a]) = [] ∨
      (Undisturbed listeners actions ∧ ∀ listener ∈ listeners, a ≠ .remove listener) := by
  constructor
  · intro h
    by_cases hfresh : fresh (actions ++ [a]) = []
    · exact Or.inl hfresh
    refine Or.inr ⟨?_, ?_⟩
    · rintro pre listener post rfl hlistener
      obtain ⟨mid, rest, hpost, hmid⟩ := h pre listener (post ++ [a]) (by simp) hlistener
      rcases List.eq_nil_or_concat rest with rfl | ⟨rest, b, rfl⟩
      · refine absurd ?_ hfresh
        rw [List.append_nil] at hpost
        rw [List.append_assoc, List.cons_append, hpost]
        exact hmid
      · rw [List.concat_eq_append, ← List.append_assoc] at hpost
        exact ⟨mid, rest, (List.append_inj' hpost rfl).1, hmid⟩
    · rintro listener hlistener rfl
      obtain ⟨mid, rest, hpost, hmid⟩ := h actions listener [] rfl hlistener
      obtain ⟨rfl, -⟩ := List.append_eq_nil_iff.mp hpost.symm
      exact hfresh hmid
  · rintro (hfresh | ⟨h, ha⟩) pre listener post heq hlistener
    · refine ⟨post, [], (List.append_nil post).symm, ?_⟩
      rw [← heq]
      exact hfresh
    · rcases List.eq_nil_or_concat post with rfl | ⟨post, b, rfl⟩
      · have hlast := List.append_inj' heq rfl
        exact absurd (List.singleton_inj.mp hlast.2) (ha listener hlistener)
      · rw [List.concat_eq_append, ← List.cons_append, ← List.append_assoc] at heq
        obtain ⟨hactions, hb⟩ := List.append_inj' heq rfl
        obtain ⟨mid, rest, hpost, hmid⟩ := h pre listener post hactions hlistener
        refine ⟨mid, rest ++ [b], ?_, hmid⟩
        rw [List.concat_eq_append, hpost, List.append_assoc]

/-- A listener is not in a batch twice with the same request. -/
theorem DistinctListeners.nodup_filterMap (h : DistinctListeners actions)
    {named : ListenerAction → Option ℕ} (request : ℕ → ListenerAction)
    (hnamed : ∀ a l, named a = some l → a = request l) : (actions.filterMap named).Nodup := by
  refine List.Pairwise.filterMap _ ?_ h
  rintro a b hab l hl l' hl' rfl
  obtain rfl := hnamed a l hl
  obtain rfl := hnamed _ l hl'
  obtain ⟨hadd, hremove⟩ := hab rfl
  cases hadd.symm.trans hremove

theorem DistinctListeners.nodup_added (h : DistinctListeners actions) : (added actions).Nodup := by
  refine h.nodup_filterMap .add fun a l hl => ?_
  cases a with
  | add m => exact congrArg _ (Option.some.inj hl)
  | remove m => cases hl

theorem DistinctListeners.nodup_removed (h : DistinctListeners actions) : (removed actions).Nodup := by
  refine h.nodup_filterMap .remove fun a l hl => ?_
  cases a with
  | add m => cases hl
  | remove m => exact congrArg _ (Option.some.inj hl)

/-- The requests of a batch, seen from the earlier ones. -/
theorem DistinctListeners.batch {requests : List ListenerAction}
    (h : DistinctListeners (requests ++ actions)) {a b : ListenerAction} (ha : a ∈ requests)
    (hb : b ∈ actions) (heq : a.listener = b.listener) : a = .add a.listener ∧ b = .remove b.listener :=
  (List.pairwise_append.mp h).2.2 a ha b hb heq

/-- The listeners after two batches. -/
theorem fresh_append {requests : List ListenerAction} (h : DistinctListeners (requests ++ actions)) :
    fresh (requests ++ actions) = kept (fresh requests) actions ++ fresh actions := by
  rw [fresh, added_append, List.filter_append, kept, fresh, List.filter_filter]
  congr 1
  · refine List.filter_congr fun l _ => ?_
    simp [and_comm]
  · refine List.filter_congr fun l hl => ?_
    have hnot : l ∉ removed requests := by
      intro hmem
      have hremove := (h.batch (mem_removed.mp hmem) (mem_added.mp hl) rfl).1
      simp at hremove
    simp [hnot]

/-- No listener is in the list twice. -/
theorem nodup_present (hnodup : listeners.Nodup) (h : DistinctListeners actions)
    (hnew : ∀ l ∈ listeners, .add l ∉ actions) : (kept listeners actions ++ fresh actions).Nodup := by
  refine List.nodup_append.mpr ⟨hnodup.filter _, h.nodup_added.filter _, ?_⟩
  rintro l hl l' hl' rfl
  exact hnew l (List.mem_of_mem_filter hl) (mem_fresh.mp hl').1

theorem erase_eq_filter_ne (hnodup : listeners.Nodup) (listener : ℕ) :
    listeners.erase listener = listeners.filter (· ≠ listener) := by
  rw [hnodup.erase_eq_filter]
  refine List.filter_congr fun l _ => ?_
  by_cases hl : l = listener
  · simp [hl]
  · simp [hl]

/-- The list without a removed listener. -/
theorem apply_remove (hnodup : listeners.Nodup) (listener : ℕ) :
    Worker.apply listeners (.remove listener) = listeners.filter (· ≠ listener) := by
  have hrest : ((listeners.drop (listeners.filter (· ≠ listener)).length).drop 1) = [] := by
    rw [← erase_eq_filter_ne hnodup, List.drop_drop, List.drop_eq_nil_iff]
    have hlength := List.length_erase_add_one (a := listener) (l := listeners)
    by_cases hmem : listener ∈ listeners
    · exact (hlength hmem).ge
    · rw [List.erase_of_not_mem hmem]
      omega
  rw [Worker.apply, hrest, List.append_nil]

/-- What `threadFunc` has after some requests: the index is beyond the listeners of before by the
number of new listeners that are not told. -/
structure Processed (listeners : List ℕ) (actions : List ListenerAction) (b : ListenerBatch) :
    Prop where
  present : b.listeners = kept listeners actions ++ fresh actions
  removedListeners : b.removedListeners = removed actions
  index : ∃ d ≤ (fresh actions).length, b.addNotifyIndex = (kept listeners actions).length + d ∧
    (d = 0 ↔ Undisturbed listeners actions)

theorem undisturbed_nil : Undisturbed listeners [] := by
  intro pre l post h
  simp at h

variable {b : ListenerBatch}

theorem Processed.add (hb : Processed listeners actions b)
    (h : DistinctListeners (actions ++ [.add listener])) :
    Processed listeners (actions ++ [.add listener]) (b.process (.add listener)) := by
  obtain ⟨d, hd, hindex, hzero⟩ := hb.index
  refine ⟨?_, ?_, d, ?_, ?_, ?_⟩
  · rw [kept_append_add, fresh_append_add h, ← List.append_assoc, ← hb.present]
    rfl
  · rw [removed_append, ← hb.removedListeners]
    exact (List.append_nil _).symm
  · rw [fresh_append_add h, List.length_append]
    omega
  · rw [kept_append_add]
    exact hindex
  · rw [undisturbed_append_singleton, fresh_append_add h, hzero]
    simp

/-- The number of listeners without a removed one. -/
theorem length_filter_ne (hnodup : listeners.Nodup) (listener : ℕ) :
    (listeners.filter (· ≠ listener)).length =
      if listener ∈ listeners then listeners.length - 1 else listeners.length := by
  rw [← erase_eq_filter_ne hnodup, List.length_erase]

theorem Processed.remove (hb : Processed listeners actions b) (hnodup : listeners.Nodup)
    (hnew : ∀ l ∈ listeners, .add l ∉ actions)
    (h : DistinctListeners (actions ++ [.remove listener])) :
    Processed listeners (actions ++ [.remove listener]) (b.process (.remove listener)) := by
  have hactions : DistinctListeners actions := (List.pairwise_append.mp h).1
  have hpresent := nodup_present hnodup hactions hnew
  have hfilter : b.listeners.filter (· ≠ listener) =
      kept listeners (actions ++ [.remove listener]) ++ fresh (actions ++ [.remove listener]) := by
    rw [kept_append_remove, fresh_append_remove, hb.present, List.filter_append]
  have hprocess : b.process (.remove listener) = {
      listeners := b.listeners.filter (· ≠ listener)
      addNotifyIndex :=
        if (b.listeners.filter (· ≠ listener)).length < b.listeners.length ∧
          (b.listeners.filter (· ≠ listener)).length < b.addNotifyIndex then b.addNotifyIndex - 1
        else b.addNotifyIndex
      removedListeners := b.removedListeners ++ [listener] } := by
    rw [ListenerBatch.process, apply_remove (hb.present ▸ hpresent)]
  rw [hprocess, hfilter]
  refine ⟨rfl, ?_, ?_⟩
  · rw [removed_append, ← hb.removedListeners]
    rfl
  dsimp only
  obtain ⟨d, hd, hindex, hzero⟩ := hb.index
  -- a present listener has not been removed before, and is not a new one
  have hkept : listener ∈ kept listeners actions ↔ listener ∈ listeners := by
    have hnot : listener ∉ removed actions := by
      intro hmem
      have hlast := (h.last (mem_removed.mp hmem) rfl).1
      simp at hlast
    simp [kept, hnot]
  have hfresh : listener ∈ listeners → listener ∉ fresh actions := fun hold hmem =>
    hnew listener hold (mem_fresh.mp hmem).1
  have hk := length_filter_ne (List.nodup_append.mp hpresent).1 listener
  have hf := length_filter_ne (List.nodup_append.mp hpresent).2.1 listener
  have hpos : listener ∈ kept listeners actions → 0 < (kept listeners actions).length :=
    List.length_pos_of_mem
  have hpos' : listener ∈ fresh actions → 0 < (fresh actions).length := List.length_pos_of_mem
  have hempty : fresh (actions ++ [.remove listener]) = [] ↔
      (fresh (actions ++ [.remove listener])).length = 0 := List.length_eq_zero_iff.symm
  have hlast : (∀ l ∈ listeners, ListenerAction.remove listener ≠ .remove l) ↔
      listener ∉ listeners := by
    constructor
    · exact fun hne hmem => hne listener hmem rfl
    · rintro hnot l hl heq
      exact hnot (ListenerAction.remove.inj heq ▸ hl)
  rw [undisturbed_append_singleton, hempty, hlast, ← hzero, hb.present, List.length_append,
    List.length_append, kept_append_remove, fresh_append_remove, hk, hf, hindex]
  generalize (kept listeners actions).length = k at hpos ⊢
  generalize (fresh actions).length = n at hd hpos' ⊢
  by_cases hold : listener ∈ listeners
  · have hk0 := hpos (hkept.mpr hold)
    rw [if_pos (hkept.mpr hold), if_neg (hfresh hold), or_iff_left (fun h => h.2 hold)]
    by_cases hnd : n = d
    · -- all new listeners are skipped already
      refine ⟨d, hnd.ge, ?_, by omega⟩
      rw [if_pos ⟨by omega, by omega⟩]
      omega
    · refine ⟨d + 1, by omega, ?_, by omega⟩
      rw [if_neg fun h => by omega]
      omega
  · rw [if_neg (fun h => hold (hkept.mp h)), and_iff_left hold]
    by_cases hnew' : listener ∈ fresh actions
    · have hn0 := hpos' hnew'
      rw [if_pos hnew']
      by_cases hnd : n = d
      · refine ⟨d - 1, by omega, ?_, by omega⟩
        rw [if_pos ⟨by omega, by omega⟩]
        omega
      · refine ⟨d, by omega, ?_, by omega⟩
        rw [if_neg fun h => by omega]
    · rw [if_neg hnew']
      refine ⟨d, hd, ?_, by omega⟩
      rw [if_neg fun h => by omega]

/-- **What the worker makes of a batch.** -/
theorem processed_spec (hnodup : listeners.Nodup) (h : DistinctListeners actions)
    (hnew : ∀ l ∈ listeners, .add l ∉ actions) :
    Processed listeners actions (processed listeners actions) := by
  induction actions using List.reverseRecOn with
  | nil =>
      refine ⟨?_, rfl, 0, Nat.zero_le _, ?_, ?_⟩
      · simp [kept, fresh, added, removed, processed]
      · simp [kept, removed, processed]
      · exact iff_of_true rfl undisturbed_nil
  | append_singleton actions a ih =>
      have hbefore := ih (List.pairwise_append.mp h).1 fun l hl hmem =>
        hnew l hl (List.mem_append_left _ hmem)
      rw [processed, List.foldl_append]
      cases a with
      | add l => exact hbefore.add h
      | remove l =>
          exact hbefore.remove hnodup (fun l hl hmem => hnew l hl (List.mem_append_left _ hmem)) h

end

/-! ### Callbacks -/

namespace ListenerLoop

variable {w w' : ListenerLoop} {callbacks : List ListenerCallback} {callback : ListenerCallback}
  {listeners : List ℕ} {listener : ℕ}

theorem silent_of_not_mem (h : .listenerRemoved ∉ callbacks) : Silent callbacks := by
  rintro earlier later rfl
  simp at h

/-- The callback that tells a listener that it is removed. -/
theorem silent_append_removed (h : .listenerRemoved ∉ callbacks) :
    Silent (callbacks ++ [.listenerRemoved]) := by
  intro earlier later heq
  rcases List.eq_nil_or_concat later with rfl | ⟨later, c, rfl⟩
  · rfl
  · rw [List.concat_eq_append, ← List.cons_append, ← List.append_assoc] at heq
    have hcallbacks := (List.append_inj' heq rfl).1
    exact absurd (by simp [hcallbacks]) h

/-- Other callbacks do not matter. -/
theorem announced_append {more : List ListenerCallback} (h : .listenerAdded ∉ more) :
    Announced (callbacks ++ more) ↔ Announced callbacks := by
  constructor
  · rintro ⟨later, heq, hlater⟩
    cases callbacks with
    | nil =>
        rw [List.nil_append] at heq
        exact absurd (by simp [heq]) h
    | cons c callbacks =>
        obtain ⟨rfl, rfl⟩ := List.cons.inj heq
        exact ⟨callbacks, rfl, fun hmem => hlater (List.mem_append_left _ hmem)⟩
  · rintro ⟨later, rfl, hlater⟩
    refine ⟨later ++ more, rfl, fun hmem => ?_⟩
    rcases List.mem_append.mp hmem with hmem | hmem
    · exact hlater hmem
    · exact h hmem

/-- The callbacks of a listener in a log of one callback to several listeners. -/
theorem filterMap_callback (hnodup : listeners.Nodup) (callback : ListenerCallback) (listener : ℕ) :
    (listeners.map fun l => (l, callback)).filterMap
        (fun entry => if entry.1 = listener then some entry.2 else none) =
      if listener ∈ listeners then [callback] else [] := by
  induction listeners with
  | nil => rfl
  | cons l listeners ih =>
      have hrest := ih (List.nodup_cons.mp hnodup).2
      have hnot := (List.nodup_cons.mp hnodup).1
      by_cases hl : l = listener
      · subst hl
        rw [if_neg hnot] at hrest
        simp [hrest]
      · simp [hl, Ne.symm hl, hrest]

theorem callbacks_tellAll (hnodup : w.listeners.Nodup) (callback : ListenerCallback)
    (listener : ℕ) : (w.tellAll callback).callbacks listener =
      w.callbacks listener ++ if listener ∈ w.listeners then [callback] else [] := by
  rw [ListenerLoop.callbacks, tellAll, List.filterMap_append, filterMap_callback hnodup]
  rfl

/-! ### Runs -/

/-- **The invariant.** The list holds the listeners that are added and not removed, and a listener gets
no callback before its requests, nor one that says that it is removed. -/
structure Invariant (w : ListenerLoop) : Prop where
  distinct : DistinctListeners w.requests
  present : w.listeners = fresh w.requests
  admitted : ∀ listener ∈ w.admitted, .add listener ∈ w.requests
  quiet : ∀ listener, .add listener ∉ w.requests → .remove listener ∉ w.requests →
    w.callbacks listener = []
  ended : ∀ listener, .listenerRemoved ∈ w.callbacks listener →
    .remove listener ∈ w.requests ∨ w.done = true
  silent : ∀ listener, Silent (w.callbacks listener)

theorem invariant_initial : Invariant {} where
  distinct := List.Pairwise.nil
  present := rfl
  admitted := by simp
  quiet := fun _ _ _ => rfl
  ended := by simp [ListenerLoop.callbacks]
  silent := fun _ => silent_of_not_mem (by simp [ListenerLoop.callbacks])

theorem Invariant.nodup (hw : Invariant w) : w.listeners.Nodup := by
  rw [hw.present]
  exact hw.distinct.nodup_added.filter _

theorem Invariant.mem (hw : Invariant w) :
    listener ∈ w.listeners ↔ .add listener ∈ w.requests ∧ .remove listener ∉ w.requests := by
  rw [hw.present, mem_fresh]

/-- **A callback to all listeners** that is none of those for additions and removals. -/
theorem Invariant.tellAll (hw : Invariant w) (hdone : w.done = false)
    (hcallback : callback ≠ .listenerRemoved) : Invariant (w.tellAll callback) where
  distinct := hw.distinct
  present := hw.present
  admitted := hw.admitted
  quiet := by
    intro listener hadd hremove
    have hnot : listener ∉ w.listeners := fun hmem => hadd (hw.mem.mp hmem).1
    rw [callbacks_tellAll hw.nodup, if_neg hnot, List.append_nil]
    exact hw.quiet listener hadd hremove
  ended := by
    intro listener hmem
    rw [callbacks_tellAll hw.nodup] at hmem
    rcases List.mem_append.mp hmem with hold | hnew
    · exact hw.ended listener hold
    · split at hnew
      · exact absurd (List.mem_singleton.mp hnew).symm hcallback
      · simp at hnew
  silent := by
    intro listener
    rw [callbacks_tellAll hw.nodup]
    split
    · rename_i hmem
      refine silent_of_not_mem fun h => ?_
      rcases List.mem_append.mp h with hold | hnew
      · rcases hw.ended listener hold with hremove | hend
        · exact (hw.mem.mp hmem).2 hremove
        · simp [hdone] at hend
      · exact hcallback (List.mem_singleton.mp hnew).symm
    · rw [List.append_nil]
      exact hw.silent listener

/-- The end of `threadFunc`. -/
theorem Invariant.finish (hw : Invariant w) (hdone : w.done = false) (active : Bool) :
    Invariant (w.finish active) := by
  have hlost : Invariant (if active then w.tellAll (.sessionStateChanged .sessionLost) else w) := by
    split
    · exact hw.tellAll hdone (by simp)
    · exact hw
  have hopen : (if active then w.tellAll (.sessionStateChanged .sessionLost) else w).done = false := by
    split
    · exact hdone
    · exact hdone
  rw [ListenerLoop.finish]
  generalize (if active then w.tellAll (.sessionStateChanged .sessionLost) else w) = v at hlost hopen
  refine ⟨hlost.distinct, hlost.present, hlost.admitted, ?_, fun _ _ => Or.inr rfl, ?_⟩
  · intro listener hadd hremove
    have hnot : listener ∉ v.listeners := fun hmem => hadd (hlost.mem.mp hmem).1
    have hcallbacks := callbacks_tellAll hlost.nodup .listenerRemoved listener
    rw [if_neg hnot, List.append_nil, hlost.quiet listener hadd hremove] at hcallbacks
    exact hcallbacks
  · intro listener
    have hcallbacks := callbacks_tellAll hlost.nodup .listenerRemoved listener
    have hsilent : Silent ((v.tellAll .listenerRemoved).callbacks listener) := by
      rw [hcallbacks]
      split
      · rename_i hmem
        refine silent_append_removed fun hold => ?_
        rcases hlost.ended listener hold with hremove | hend
        · exact (hlost.mem.mp hmem).2 hremove
        · simp [hopen] at hend
      · rw [List.append_nil]
        exact hlost.silent listener
    exact hsilent

/-! ### A batch -/

variable {actions : List ListenerAction}

/-- The callbacks of a batch. -/
theorem callbacks_batch (h : DistinctListeners (w.requests ++ actions)) {d : ℕ}
    (hb : Processed w.listeners actions (processed w.listeners actions))
    (hindex : (processed w.listeners actions).addNotifyIndex = (kept w.listeners actions).length + d)
    (listener : ℕ) : (w.batch actions).callbacks listener = w.callbacks listener ++
      (if listener ∈ removed actions then [.listenerRemoved] else []) ++
      if listener ∈ (fresh actions).drop d then [.listenerAdded] else [] := by
  have hactions : DistinctListeners actions := (List.pairwise_append.mp h).2.1
  have htold : (processed w.listeners actions).listeners.drop
      (processed w.listeners actions).addNotifyIndex = (fresh actions).drop d := by
    rw [hb.present, hindex, List.drop_length_add_append]
  have hnodup : ((fresh actions).drop d).Nodup :=
    (hactions.nodup_added.filter _).sublist (List.drop_sublist d _)
  rw [ListenerLoop.callbacks, ListenerLoop.batch]
  dsimp only
  rw [htold, hb.removedListeners, List.filterMap_append, List.filterMap_append,
    filterMap_callback hnodup, filterMap_callback hactions.nodup_removed]
  rfl

/-- What the invariant says about a batch. -/
theorem Invariant.batchProcessed (hw : Invariant w) (h : DistinctListeners (w.requests ++ actions)) :
    Processed w.listeners actions (processed w.listeners actions) := by
  refine processed_spec hw.nodup (List.pairwise_append.mp h).2.1 fun l hl hadd => ?_
  have hremove := (h.batch (hw.mem.mp hl).1 hadd rfl).2
  simp at hremove

/-- A listener of the batch has had no requests before. -/
theorem quiet_of_mem_fresh (hw : Invariant w) (h : DistinctListeners (w.requests ++ actions))
    (hmem : listener ∈ fresh actions) : w.callbacks listener = [] ∧ .add listener ∉ w.requests := by
  have hadd := (mem_fresh.mp hmem).1
  have hnot : ∀ a ∈ w.requests, a.listener ≠ listener := by
    intro a ha heq
    have hremove := (h.batch ha hadd heq).2
    simp at hremove
  exact ⟨hw.quiet listener (fun hmem => hnot _ hmem rfl) (fun hmem => hnot _ hmem rfl),
    fun hmem => hnot _ hmem rfl⟩

/-- A listener that is removed has not been removed before. -/
theorem not_mem_requests_of_mem_removed (h : DistinctListeners (w.requests ++ actions))
    (hmem : listener ∈ removed actions) : .remove listener ∉ w.requests := by
  intro hremove
  have hadd := (h.batch hremove (mem_removed.mp hmem) rfl).1
  simp at hadd

/-- **A batch.** -/
theorem Invariant.batch (hw : Invariant w) (hdone : w.done = false)
    (h : DistinctListeners (w.requests ++ actions)) : Invariant (w.batch actions) := by
  have hb := hw.batchProcessed h
  obtain ⟨d, -, hindex, -⟩ := hb.index
  have hcallbacks := callbacks_batch h hb hindex
  have hunremoved : ∀ l, .remove l ∉ w.requests → .listenerRemoved ∉ w.callbacks l := by
    intro l hl hmem
    rcases hw.ended l hmem with hremove | hend
    · exact hl hremove
    · simp [hdone] at hend
  refine ⟨h, ?_, ?_, ?_, ?_, ?_⟩
  · have hpresent := hb.present
    rw [hw.present] at hpresent
    rw [ListenerLoop.batch]
    dsimp only
    rw [fresh_append h, ← hpresent, hw.present]
  · intro l hl
    rcases List.mem_append.mp hl with hold | hnew
    · exact List.mem_append_left _ (hw.admitted l hold)
    · exact List.mem_append_right _ (mem_fresh.mp hnew).1
  · intro l hadd hremove
    have hadd : .add l ∉ w.requests ++ actions := hadd
    have hremove : .remove l ∉ w.requests ++ actions := hremove
    rw [List.mem_append, not_or] at hadd hremove
    have hnot : l ∉ (fresh actions).drop d := fun hmem =>
      hadd.2 (mem_fresh.mp (List.mem_of_mem_drop hmem)).1
    have hnot' : l ∉ removed actions := fun hmem => hremove.2 (mem_removed.mp hmem)
    rw [hcallbacks, hw.quiet l hadd.1 hremove.1, if_neg hnot, if_neg hnot']
    rfl
  · intro l hl
    rw [hcallbacks] at hl
    refine Or.inl (List.mem_append.mpr ?_)
    by_cases hremoved : l ∈ removed actions
    · exact Or.inr (mem_removed.mp hremoved)
    · rw [if_neg hremoved, List.append_nil] at hl
      rcases List.mem_append.mp hl with hold | hnew
      · by_contra hnone
        exact hunremoved l (fun hmem => hnone (Or.inl hmem)) hold
      · split at hnew <;> simp at hnew
  · intro l
    rw [hcallbacks]
    by_cases hremoved : l ∈ removed actions
    · have hnot : l ∉ (fresh actions).drop d := fun hmem =>
        (mem_fresh.mp (List.mem_of_mem_drop hmem)).2 (mem_removed.mp hremoved)
      rw [if_pos hremoved, if_neg hnot, List.append_nil]
      exact silent_append_removed (hunremoved l (not_mem_requests_of_mem_removed h hremoved))
    · rw [if_neg hremoved, List.append_nil]
      split
      · rename_i hmem
        rw [(quiet_of_mem_fresh hw h (List.mem_of_mem_drop hmem)).1]
        exact silent_of_not_mem (by simp)
      · rw [List.append_nil]
        exact hw.silent l

theorem step_invariant {l : ListenerStep} (hw : Invariant w) (h : w.step l = some w') :
    Invariant w' := by
  cases l with
  | batch actions =>
      rw [step, Option.ite_none_right_eq_some, Option.some.injEq] at h
      obtain ⟨⟨hdone, hdistinct⟩, rfl⟩ := h
      exact hw.batch hdone hdistinct
  | sessionStateChanged state =>
      rw [step, Option.ite_none_left_eq_some, Option.some.injEq] at h
      obtain ⟨hdone, rfl⟩ := h
      exact hw.tellAll (Bool.not_eq_true _ ▸ hdone) (by simp)
  | controlFlagsChanged flags =>
      rw [step, Option.ite_none_left_eq_some, Option.some.injEq] at h
      obtain ⟨hdone, rfl⟩ := h
      exact hw.tellAll (Bool.not_eq_true _ ▸ hdone) (by simp)
  | finish active =>
      rw [step, Option.ite_none_left_eq_some, Option.some.injEq] at h
      obtain ⟨hdone, rfl⟩ := h
      exact hw.finish (Bool.not_eq_true _ ▸ hdone) active

/-- The new listeners that are told are all of them only if none is skipped. -/
theorem forall_mem_drop_iff {d : ℕ} (hnodup : listeners.Nodup) (hd : d ≤ listeners.length) :
    (∀ l ∈ listeners, l ∈ listeners.drop d) ↔ d = 0 := by
  constructor
  · intro h
    cases listeners with
    | nil => simpa using hd
    | cons l listeners =>
        cases d with
        | zero => rfl
        | succ d =>
            have hmem : l ∈ listeners.drop d := h l List.mem_cons_self
            exact absurd (List.mem_of_mem_drop hmem) (List.nodup_cons.mp hnodup).1
  · rintro rfl l hl
    exact hl

/-- **Which batches tell every new listener that it was added.** -/
theorem announced_batch_iff (hw : Invariant w) (h : DistinctListeners (w.requests ++ actions)) :
    (∀ l ∈ (w.batch actions).admitted, Announced ((w.batch actions).callbacks l)) ↔
      (∀ l ∈ w.admitted, Announced (w.callbacks l)) ∧ Undisturbed w.listeners actions := by
  have hb := hw.batchProcessed h
  obtain ⟨d, hd, hindex, hzero⟩ := hb.index
  have hcallbacks := callbacks_batch h hb hindex
  have hactions : DistinctListeners actions := (List.pairwise_append.mp h).2.1
  have hnodup : (fresh actions).Nodup := hactions.nodup_added.filter _
  have hold : ∀ l ∈ w.admitted,
      (Announced ((w.batch actions).callbacks l) ↔ Announced (w.callbacks l)) := by
    intro l hl
    have hnot : l ∉ (fresh actions).drop d := fun hmem =>
      (quiet_of_mem_fresh hw h (List.mem_of_mem_drop hmem)).2 (hw.admitted l hl)
    rw [hcallbacks, if_neg hnot, List.append_nil]
    exact announced_append (by split <;> simp)
  have hnew : ∀ l ∈ fresh actions,
      (Announced ((w.batch actions).callbacks l) ↔ l ∈ (fresh actions).drop d) := by
    intro l hl
    have hnot : l ∉ removed actions := fun hmem => (mem_fresh.mp hl).2 (mem_removed.mp hmem)
    rw [hcallbacks, (quiet_of_mem_fresh hw h hl).1, if_neg hnot]
    by_cases htold : l ∈ (fresh actions).drop d
    · exact iff_of_true ⟨[], by simp [htold], by simp⟩ htold
    · refine iff_of_false ?_ htold
      rintro ⟨later, heq, -⟩
      simp [htold] at heq
  rw [← hzero, ← forall_mem_drop_iff hnodup hd]
  constructor
  · intro hall
    exact ⟨fun l hl => (hold l hl).mp (hall l (List.mem_append_left _ hl)),
      fun l hl => (hnew l hl).mp (hall l (List.mem_append_right _ hl))⟩
  · rintro ⟨hall, htold⟩ l hl
    rcases List.mem_append.mp hl with hl | hl
    · exact (hold l hl).mpr (hall l hl)
    · exact (hnew l hl).mpr (htold l hl)

/-- A callback to all listeners about something else. -/
theorem announced_tellAll_iff (hw : Invariant w) (hcallback : callback ≠ .listenerAdded) :
    Announced ((w.tellAll callback).callbacks listener) ↔ Announced (w.callbacks listener) := by
  rw [callbacks_tellAll hw.nodup]
  refine announced_append fun hmem => ?_
  split at hmem
  · exact hcallback (List.mem_singleton.mp hmem).symm
  · simp at hmem

theorem announced_finish_iff (hw : Invariant w) (hdone : w.done = false) (active : Bool) :
    Announced ((w.finish active).callbacks listener) ↔ Announced (w.callbacks listener) := by
  have hlast : ∀ v : ListenerLoop, Invariant v →
      (Announced (callbacks { v.tellAll .listenerRemoved with done := true } listener) ↔
        Announced (v.callbacks listener)) := by
    intro v hv
    have hcallback : ListenerCallback.listenerRemoved ≠ .listenerAdded := by simp
    have htell : Announced ((v.tellAll .listenerRemoved).callbacks listener) ↔
      Announced (v.callbacks listener) := announced_tellAll_iff hv hcallback
    exact htell
  rw [finish]
  cases active with
  | true =>
      have hcallback : ListenerCallback.sessionStateChanged .sessionLost ≠ .listenerAdded := by simp
      exact (hlast _ (hw.tellAll hdone (by simp))).trans (announced_tellAll_iff hw hcallback)
  | false => exact hlast w hw

/-- **Which steps keep the listeners informed.** -/
theorem step_informed_iff {l : ListenerStep} (hw : Invariant w) (h : w.step l = some w') :
    w'.Informed ↔ w.Informed ∧ w.Guarded l := by
  have hsilent := (step_invariant hw h).silent
  rw [Informed, and_iff_left hsilent, Informed, and_iff_left hw.silent]
  cases l with
  | batch actions =>
      rw [step, Option.ite_none_right_eq_some, Option.some.injEq] at h
      obtain ⟨⟨-, hdistinct⟩, rfl⟩ := h
      exact announced_batch_iff hw hdistinct
  | sessionStateChanged state =>
      rw [step, Option.ite_none_left_eq_some, Option.some.injEq] at h
      obtain ⟨-, rfl⟩ := h
      rw [Guarded, and_true]
      exact forall₂_congr fun l _ => announced_tellAll_iff hw (by simp)
  | controlFlagsChanged flags =>
      rw [step, Option.ite_none_left_eq_some, Option.some.injEq] at h
      obtain ⟨-, rfl⟩ := h
      rw [Guarded, and_true]
      exact forall₂_congr fun l _ => announced_tellAll_iff hw (by simp)
  | finish active =>
      rw [step, Option.ite_none_left_eq_some, Option.some.injEq] at h
      obtain ⟨hdone, rfl⟩ := h
      have hadmitted : (w.finish active).admitted = w.admitted := by cases active <;> rfl
      rw [Guarded, and_true, hadmitted]
      exact forall₂_congr fun l _ => announced_finish_iff hw (Bool.not_eq_true _ ▸ hdone) active

/-- **Which runs keep the listeners informed**, whatever the batches are and wherever the callbacks
about the session come. -/
theorem informed_iff {ls : List ListenerStep} (h : exec step {} ls = some w) :
    w.Informed ↔ Meets step Guarded {} ls := by
  have hinitial : Informed {} := ⟨by simp, invariant_initial.silent⟩
  rw [meets_iff_of_invariant step_invariant step_informed_iff invariant_initial h]
  exact and_iff_right hinitial

/-- Two listeners come, and one of them goes together with a third one that is added before. -/
theorem informed_iff_removed :
    ∃ w, exec step {} [.batch [.add 0, .add 1], .sessionStateChanged .connectedMonitor,
        .batch [.add 2, .remove 0, .remove 2], .finish true] = some w ∧
      (w.Informed ↔ Meets step Guarded {} [.batch [.add 0, .add 1],
        .sessionStateChanged .connectedMonitor, .batch [.add 2, .remove 0, .remove 2],
        .finish true]) :=
  ⟨_, rfl, informed_iff rfl⟩

/-- A listener is added in a batch that removes another one behind it, and is never told. -/
theorem not_informed : ¬ ∀ (ls : List ListenerStep) (w : ListenerLoop),
    exec step {} ls = some w → w.Informed := by
  intro h
  obtain ⟨later, hlater, -⟩ := (h [.batch [.add 0], .batch [.add 1, .remove 0]] _ rfl).1 1 (by decide)
  cases hlater

end ListenerLoop

end ScApi
