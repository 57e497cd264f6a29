import ScApi.Lib.Runs

/-!
# Popping from an event queue

Producers push events to a queue while it is open, any number of consumers pops them, and `close`
ends it. A consumer that finds the queue empty waits, but `tryPop` does not; its wait and its
wake-up are separate sections under the mutex of the queue, and it may be woken at any time. When it
goes on it looks at the open flag before it looks at the queue, so on a closed queue it returns
empty-handed although there may be events left for it.

## Main results

* `step_inOrder`: events leave the queue in the order in which they came.
* `step_drained_iff`: which steps return without an event although one is left.
* `pops_iff`: both for whole runs.
-/

namespace ScApi

open Runs

/-- The functions that wait for an event. -/
inductive BlockingPop where
  | tryPopFor
  | tryPopUntil
  | pop
  deriving DecidableEq, Repr

/-- The function gives up at some time. -/
def BlockingPop.timed : BlockingPop → Bool
  | .tryPopFor | .tryPopUntil => true
  | .pop => false

/-- A return without an event: whether the queue was open, and what it held. -/
structure EmptyReturn (α : Type) where
  isOpen : Bool
  left : List α
  deriving DecidableEq, Repr

/-- An `EventQueue` with the calls that wait in it, and the history of its events. -/
structure EventQueue (α : Type) where
  /-- `open_`. -/
  isOpen : Bool
  queue : List α
  waiting : List BlockingPop := []
  pushed : List α
  popped : List α := []
  emptyReturns : List (EmptyReturn α) := []
  deriving DecidableEq, Repr

/-- A section under the mutex. The end of a wait is one: the consumer that has waited at an index of
`waiting` is woken, by a notification, spuriously or because its time is over. -/
inductive QueueStep (α : Type) where
  | push (e : α)
  | close
  | tryPop
  | call (f : BlockingPop)
  | wake (i : ℕ) (timedOut : Bool)
  deriving DecidableEq, Repr

namespace EventQueue

variable {α : Type}

/-- A queue that has been attached to its producer, with its initial events. -/
def opened (queue : List α) : EventQueue α where
  isOpen := true
  queue
  pushed := queue

/-- `EventQueue::push`. -/
def push (e : α) (q : EventQueue α) : EventQueue α :=
  if q.isOpen then { q with queue := q.queue ++ [e], pushed := q.pushed ++ [e] } else q

/-- `EventQueue::close`. The notification is left to the steps. -/
def close (q : EventQueue α) : EventQueue α :=
  { q with isOpen := false }

/-- Return without an event. -/
def returnEmpty (q : EventQueue α) : EventQueue α :=
  { q with emptyReturns := q.emptyReturns ++ [⟨q.isOpen, q.queue⟩] }

/-- Return the first event; an empty queue has none. -/
def takeFront (q : EventQueue α) : Option (EventQueue α) :=
  match q.queue with
  | [] => none
  | e :: queue => some { q with queue, popped := q.popped ++ [e] }

/-- `EventQueue::tryPop`. -/
def tryPop (q : EventQueue α) : Option (EventQueue α) :=
  if q.queue = [] then some q.returnEmpty else q.takeFront

/-- The predicate that ends a wait. -/
def ready (q : EventQueue α) : Bool :=
  q.queue ≠ [] ∨ q.isOpen = false

/-- What a function that waits does when the predicate holds. -/
def afterWait (q : EventQueue α) : Option (EventQueue α) :=
  if ¬ q.isOpen then some q.returnEmpty else q.takeFront

/-- The call of a function that waits, up to its wait. -/
def call (f : BlockingPop) (q : EventQueue α) : Option (EventQueue α) :=
  if q.queue = [] then
    if q.ready then q.afterWait else some { q with waiting := q.waiting ++ [f] }
  else
    q.takeFront

/-- The end of the wait of `f`, which is no longer among the waiting calls. Without the predicate it
returns when its time is over, else it waits again. -/
def wake (f : BlockingPop) (timedOut : Bool) (q : EventQueue α) : Option (EventQueue α) :=
  if q.ready then
    q.afterWait
  else if f.timed ∧ timedOut then
    some q.returnEmpty
  else
    some { q with waiting := q.waiting ++ [f] }

/-- One step. -/
def step (q : EventQueue α) : QueueStep α → Option (EventQueue α)
  | .push e => some (q.push e)
  | .close => some q.close
  | .tryPop => q.tryPop
  | .call f => q.call f
  | .wake i timedOut =>
      match q.waiting[i]? with
      | some f => wake f timedOut { q with waiting := q.waiting.eraseIdx i }
      | none => none

/-- The events that were pushed while the queue was open have left it in this order, or are still in
it. -/
def InOrder (q : EventQueue α) : Prop :=
  q.pushed = q.popped ++ q.queue

/-- Whoever has returned without an event from a closed queue has found it empty. -/
def Drained (q : EventQueue α) : Prop :=
  ∀ r ∈ q.emptyReturns, r.isOpen = false → r.left = []

/-- The condition on a step: no waiting consumer is woken when the queue is closed and holds an
event. -/
def Guarded (q : EventQueue α) : QueueStep α → Prop
  | .wake i _ => i < q.waiting.length → q.isOpen = false → q.queue = []
  | .push _ | .close | .tryPop | .call _ => True

variable {q q' : EventQueue α}

theorem returnEmpty_drained : q.returnEmpty.Drained ↔ q.Drained ∧ (q.isOpen = false → q.queue = []) := by
  rw [Drained, returnEmpty, Drained]
  simp [or_imp, forall_and]

theorem takeFront_cases (h : q.takeFront = some q') :
    ∃ e queue, q.queue = e :: queue ∧ q' = { q with queue, popped := q.popped ++ [e] } := by
  rw [takeFront] at h
  split at h
  · simp at h
  · rename_i e queue hqueue
    exact ⟨e, queue, hqueue, (Option.some.inj h).symm⟩

theorem takeFront_inOrder (hq : q.InOrder) (h : q.takeFront = some q') : q'.InOrder := by
  obtain ⟨e, queue, hqueue, rfl⟩ := takeFront_cases h
  rw [InOrder] at hq ⊢
  rw [hq, hqueue]
  simp

theorem takeFront_drained (h : q.takeFront = some q') : q'.Drained ↔ q.Drained := by
  obtain ⟨e, queue, -, rfl⟩ := takeFront_cases h
  exact Iff.rfl

theorem afterWait_inOrder (hq : q.InOrder) (h : q.afterWait = some q') : q'.InOrder := by
  rw [afterWait] at h
  split at h
  · obtain rfl := Option.some.inj h
    exact hq
  · exact takeFront_inOrder hq h

/-- A function that has waited looks at the open flag first. -/
theorem afterWait_drained (h : q.afterWait = some q') :
    q'.Drained ↔ q.Drained ∧ (q.isOpen = false → q.queue = []) := by
  rw [afterWait] at h
  split at h
  · obtain rfl := Option.some.inj h
    exact returnEmpty_drained
  · rename_i hopen
    rw [takeFront_drained h]
    exact (and_iff_left fun hclosed => absurd (by simp [hclosed]) hopen).symm

/-- **Events leave the queue in the order in which they came.** -/
theorem step_inOrder {l : QueueStep α} (hq : q.InOrder) (h : q.step l = some q') : q'.InOrder := by
  cases l with
  | push e =>
      obtain rfl := Option.some.inj h
      rw [push]
      split
      · rw [InOrder] at hq ⊢
        dsimp only
        rw [hq, List.append_assoc]
      · exact hq
  | close =>
      obtain rfl := Option.some.inj h
      exact hq
  | tryPop =>
      rw [step, tryPop] at h
      split at h
      · obtain rfl := Option.some.inj h
        exact hq
      · exact takeFront_inOrder hq h
  | call f =>
      rw [step, call] at h
      split at h
      · split at h
        · exact afterWait_inOrder hq h
        · obtain rfl := Option.some.inj h
          exact hq
      · exact takeFront_inOrder hq h
  | wake i timedOut =>
      rw [step] at h
      split at h
      · have hq : InOrder { q with waiting := q.waiting.eraseIdx i } := hq
        rw [wake] at h
        split at h
        · exact afterWait_inOrder hq h
        · split at h
          · obtain rfl := Option.some.inj h
            exact hq
          · obtain rfl := Option.some.inj h
            exact hq
      · simp at h

/-- **Which steps return without an event although one is left**: exactly those that do not meet the
condition. -/
theorem step_drained_iff {l : QueueStep α} (h : q.step l = some q') :
    q'.Drained ↔ q.Drained ∧ q.Guarded l := by
  cases l with
  | push e =>
      obtain rfl := Option.some.inj h
      rw [push]
      split <;> exact (and_iff_left trivial).symm
  | close =>
      obtain rfl := Option.some.inj h
      exact (and_iff_left trivial).symm
  | tryPop =>
      rw [Guarded, and_iff_left trivial]
      rw [step, tryPop] at h
      split at h
      · rename_i hempty
        obtain rfl := Option.some.inj h
        rw [returnEmpty_drained, and_iff_left fun _ => hempty]
      · exact takeFront_drained h
  | call f =>
      rw [Guarded, and_iff_left trivial]
      rw [step, call] at h
      split at h
      · rename_i hempty
        split at h
        · rw [afterWait_drained h, and_iff_left fun _ => hempty]
        · obtain rfl := Option.some.inj h
          exact Iff.rfl
      · exact takeFront_drained h
  | wake i timedOut =>
      rw [step] at h
      split at h
      · rename_i f hf
        have hlt : i < q.waiting.length := (List.getElem?_eq_some_iff.mp hf).1
        rw [Guarded, imp_iff_right hlt]
        rw [wake] at h
        split at h
        · have hdrained := afterWait_drained h
          exact hdrained
        · rename_i hready
          have hopen : q.isOpen = true := by
            by_contra hclosed
            exact hready (by simp [ready, hclosed])
          have hguard : q.isOpen = false → q.queue = [] := fun hclosed => by simp [hopen] at hclosed
          rw [and_iff_left hguard]
          split at h
          · obtain rfl := Option.some.inj h
            rw [returnEmpty_drained]
            exact and_iff_left hguard
          · obtain rfl := Option.some.inj h
            exact Iff.rfl
      · simp at h

/-- **What the consumers get.** In every run the events that were pushed while the queue was open
leave it in this order, each once; and the calls that return without an event from the closed queue
have all found it empty exactly if the run meets the condition. -/
theorem pops_iff {queue : List α} {ls : List (QueueStep α)}
    (h : exec step (opened queue) ls = some q) :
    q.InOrder ∧ (q.Drained ↔ Meets step Guarded (opened queue) ls) := by
  have horder : (opened queue).InOrder := rfl
  refine ⟨invariant_of_step step_inOrder horder h, ?_⟩
  rw [meets_iff_of_step step_drained_iff h]
  exact and_iff_right (by simp [Drained, opened])

/-- A consumer is woken by an event, and another one drains the closed queue. -/
theorem pops_iff_drained :
    ∃ q : EventQueue ℕ, exec step (opened []) [.call .pop, .push 1, .wake 0 false, .push 2, .close,
      .tryPop, .call .tryPopFor] = some q ∧ q.InOrder ∧ q.Drained := by
  have hrun : exec step (opened ([] : List ℕ)) [.call .pop, .push 1, .wake 0 false, .push 2, .close,
      .tryPop, .call .tryPopFor] = some _ := rfl
  obtain ⟨horder, hdrained⟩ := pops_iff hrun
  exact ⟨_, hrun, horder, hdrained.mpr (by simp [Meets, step, Guarded, opened, call, push, wake,
    afterWait, takeFront, ready, close, tryPop])⟩

/-- An event is pushed and the queue closed before a waiting consumer is woken. -/
theorem not_drained : ¬ ∀ (queue : List ℕ) (ls : List (QueueStep ℕ)) (q : EventQueue ℕ),
    exec step (opened queue) ls = some q → q.InOrder ∧ q.Drained := by
  intro h
  have hbad := (h [] [.call .pop, .push 1, .close, .wake 0 false] _ rfl).2
    ⟨false, [1]⟩ (by decide) rfl
  simp at hbad

end EventQueue

end ScApi
