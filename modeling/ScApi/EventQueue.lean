import ScApi.Lib.Runs
import ScApi.Register

/-!
# Session events

Every change of the state of a session is followed by an event to the attached queues. A thread that
changes the state holds the mutex of the session until it has notified the producer. A new queue
gets an initial event made under the mutex of the session, and is attached to the producer after
that mutex has been given back; the mutex of the `ApiCore` is held over both, so one queue is created
at a time.

The pointer to the session is left out of the events, and so are the other kinds of events: an
`ApiCore` opens one session here, which is not closed. A queue is modelled by all events that have
been pushed to it, popped or not.

## Main results

* `step_invariant`: what one step keeps.
* `queues_inSync`: in every run that meets the condition, the last event of every queue tells the
  state of the session.
-/

namespace ScApi

open Runs

/-- The sessions and queues of an `ApiCore`. -/
structure EventSystem where
  /-- `active_session_`. -/
  session : Option Session := none
  /-- The attached queues. -/
  queues : List (List SessionStateChanged) := []
  /-- The queue of a `createEventQueue` that has not attached it yet. -/
  creating : Option (List SessionStateChanged) := none
  /-- The event of a thread that has changed the state and still holds the mutex of the session. -/
  notifying : Option SessionStateChanged := none
  deriving DecidableEq, Repr

/-- A section under the mutexes. A change of the state and its `notifyEvent` are two steps, and so
are the two halves of `createEventQueue`. -/
inductive EventStep where
  | openSession (sessionId : UInt32)
  | registerToControl (a : RegisterArgs) (b : Backend)
  | disconnected
  | notifyEvent
  | pushInitialEvent
  | addEventQueue

namespace EventSystem

/-- Push an event to all attached queues. -/
def notify (e : SessionStateChanged) (w : EventSystem) : EventSystem :=
  { w with queues := w.queues.map (· ++ [e]) }

/-- `registerToControl` on the active session, up to its event. -/
def registerToControl (a : RegisterArgs) (b : Backend) (s : Session) (w : EventSystem) :
    Option EventSystem :=
  match s.registerToControl a b with
  | (.undefinedBehaviour, _) => none
  | (.threw, s) => some { w with session := some s }
  | (.returned code, s) =>
      some { w with session := some s, notifying := if code = .ok then some s.current else none }

/-- One step. -/
def step (w : EventSystem) : EventStep → Option EventSystem
  | .openSession sessionId =>
      if w.session = none ∧ w.creating = none then
        some (notify ⟨.connectedMonitor, 0, 0⟩ { w with session := some { sessionId } })
      else
        none
  | .registerToControl a b =>
      match w.notifying, w.session with
      | none, some s => w.registerToControl a b s
      | _, _ => none
  | .disconnected =>
      match w.notifying, w.session with
      | none, some s =>
          some { w with session := some s.disconnected, notifying := some Session.disconnectedEvent }
      | _, _ => none
  | .notifyEvent =>
      match w.notifying with
      | some e => some { w.notify e with notifying := none }
      | none => none
  | .pushInitialEvent =>
      if w.creating = none ∧ w.notifying = none then
        some { w with creating := some (w.session.map Session.current).toList }
      else
        none
  | .addEventQueue =>
      match w.creating with
      | some queue => some { w with queues := w.queues ++ [queue], creating := none }
      | none => none

/-- The event tells the state and the control flags of the session. -/
def Tells (e : SessionStateChanged) (s : Session) : Prop :=
  e.state = s.state ∧ e.controlFlags = s.controlFlags

/-- The last event pushed to a queue tells the state and the control flags of the session. -/
def InSync (queue : List SessionStateChanged) (s : Session) : Prop :=
  ∃ e ∈ queue.getLast?, Tells e s

/-- Every queue that `createEventQueue` has returned is in sync, unless a thread that holds the mutex
of the session has yet to notify. -/
def QueuesInSync (w : EventSystem) : Prop :=
  w.notifying = none → ∀ s ∈ w.session, ∀ queue ∈ w.queues, InSync queue s

/-- The condition on a step: an event that comes between the initial event of a queue and its
attachment tells nothing new, and `disconnected` comes when no control flags are set, or when there
is no queue. -/
def Guarded (w : EventSystem) : EventStep → Prop
  | .notifyEvent =>
      ∀ e ∈ w.notifying, ∀ queue ∈ w.creating, ∃ e' ∈ queue.getLast?,
        e'.state = e.state ∧ e'.controlFlags = e.controlFlags
  | .disconnected =>
      ∀ s ∈ w.session, s.controlFlags = 0 ∨ w.queues = [] ∧ w.creating = none
  | .openSession _ | .registerToControl _ _ | .pushInitialEvent | .addEventQueue => True

/-- **The invariant.** An event about to be sent tells the state of the session, and the queue that
is being created is as good as an attached one. -/
structure Invariant (w : EventSystem) : Prop where
  queues : QueuesInSync w
  creating : w.notifying = none → ∀ s ∈ w.session, ∀ queue ∈ w.creating, InSync queue s
  notifying : ∀ e ∈ w.notifying, ∃ s ∈ w.session,
    Tells e s ∨ w.queues = [] ∧ w.creating = none

theorem invariant_initial : Invariant {} where
  queues := by simp [QueuesInSync]
  creating := by simp
  notifying := by simp

theorem inSync_append (queue : List SessionStateChanged) {e : SessionStateChanged} {s : Session}
    (h : Tells e s) : InSync (queue ++ [e]) s :=
  ⟨e, by simp, h⟩

variable {w w' : EventSystem}

/-- A failed registration keeps the state and the control flags. -/
theorem Tells.registerToControl {a : RegisterArgs} {b : Backend} {s s' : Session} {e : RegisterEnd}
    (h : s.registerToControl a b = (e, s')) (he : e ≠ .returned .ok) (c : SessionStateChanged) :
    Tells c s' ↔ Tells c s := by
  cases Session.registerToControl_cases h with
  | accepted => exact absurd rfl he
  | rejected | alreadyOpen | notOpened | failed => exact Iff.rfl

theorem InSync.congr {queue : List SessionStateChanged} {s s' : Session}
    (h : ∀ c, Tells c s' ↔ Tells c s) (hq : InSync queue s) : InSync queue s' := by
  obtain ⟨e, he, htells⟩ := hq
  exact ⟨e, he, (h e).mpr htells⟩

/-- A call that leaves the state and the control flags as they are keeps the invariant. -/
theorem Invariant.sameSession {s s' : Session} (hw : Invariant w) (hs : w.session = some s)
    (hidle : w.notifying = none) (h : ∀ c, Tells c s' ↔ Tells c s) :
    Invariant { w with session := some s' } where
  queues := by
    rintro - s'' hs'' queue hqueue
    obtain rfl := Option.mem_some_iff.mp hs''
    exact (hw.queues hidle s hs queue hqueue).congr h
  creating := by
    rintro - s'' hs'' queue hqueue
    obtain rfl := Option.mem_some_iff.mp hs''
    exact (hw.creating hidle s hs queue hqueue).congr h
  notifying := by
    intro e he
    rw [Option.mem_def, hidle] at he
    simp at he

theorem invariant_registerToControl {a : RegisterArgs} {b : Backend} {s : Session}
    (hw : Invariant w) (hs : w.session = some s) (hidle : w.notifying = none)
    (h : w.registerToControl a b s = some w') : Invariant w' := by
  obtain ⟨e, s', hcall⟩ : ∃ e s', s.registerToControl a b = (e, s') := ⟨_, _, rfl⟩
  rw [registerToControl, hcall] at h
  cases e with
  | undefinedBehaviour => simp at h
  | threw =>
      obtain rfl := Option.some.inj h
      exact hw.sameSession hs hidle (Tells.registerToControl hcall (by simp))
  | returned code =>
      obtain rfl := Option.some.inj h
      by_cases hok : code = .ok
      · rw [if_pos hok]
        refine ⟨by simp [QueuesInSync], by simp, ?_⟩
        rintro e he
        obtain rfl := Option.mem_some_iff.mp he
        exact ⟨s', rfl, Or.inl ⟨rfl, rfl⟩⟩
      · rw [if_neg hok, ← hidle]
        refine hw.sameSession hs hidle (Tells.registerToControl hcall ?_)
        exact fun he => hok (RegisterEnd.returned.inj he)

/-- **One step that meets the condition keeps the invariant.** -/
theorem step_invariant {l : EventStep} (hw : Invariant w) (hok : w.Guarded l)
    (h : w.step l = some w') : Invariant w' := by
  cases l with
  | openSession sessionId =>
      rw [step, Option.ite_none_right_eq_some, Option.some.injEq] at h
      obtain ⟨⟨hnone, hcreating⟩, rfl⟩ := h
      refine ⟨?_, by simp [notify, hcreating], ?_⟩
      · rintro - s hs queue hqueue
        obtain rfl := Option.mem_some_iff.mp hs
        obtain ⟨queue, -, rfl⟩ := List.mem_map.mp hqueue
        exact inSync_append queue ⟨rfl, rfl⟩
      · intro e he
        obtain ⟨s, hs, -⟩ := hw.notifying e he
        simp [hnone] at hs
  | registerToControl a b =>
      rw [step] at h
      split at h
      · rename_i hidle hs
        exact invariant_registerToControl hw hs hidle h
      · simp at h
  | disconnected =>
      rw [step] at h
      split at h
      · rename_i hidle hs
        obtain rfl := Option.some.inj h
        refine ⟨by simp [QueuesInSync], by simp, ?_⟩
        rintro e he
        obtain rfl := Option.mem_some_iff.mp he
        refine ⟨_, rfl, ?_⟩
        rcases hok _ hs with hflags | hempty
        · exact Or.inl ⟨rfl, hflags.symm⟩
        · exact Or.inr hempty
      · simp at h
  | notifyEvent =>
      rw [step] at h
      split at h
      · rename_i e he
        obtain rfl := Option.some.inj h
        obtain ⟨s, hs, htells⟩ := hw.notifying e he
        refine ⟨?_, ?_, by simp⟩
        · rintro - s' hs' queue hqueue
          obtain rfl := Option.mem_unique hs hs'
          obtain ⟨queue, hold, rfl⟩ := List.mem_map.mp hqueue
          rcases htells with htells | ⟨hempty, -⟩
          · exact inSync_append queue htells
          · simp [hempty] at hold
        · rintro - s' hs' queue hqueue
          obtain rfl := Option.mem_unique hs hs'
          have hcreating : queue ∈ w.creating := hqueue
          rcases htells with htells | ⟨-, hnone⟩
          · obtain ⟨e', he', hstate, hflags⟩ := hok e he queue hcreating
            exact ⟨e', he', hstate.trans htells.1, hflags.trans htells.2⟩
          · simp [hnone] at hcreating
      · simp at h
  | pushInitialEvent =>
      rw [step, Option.ite_none_right_eq_some, Option.some.injEq] at h
      obtain ⟨⟨-, hidle⟩, rfl⟩ := h
      refine ⟨hw.queues, ?_, ?_⟩
      · rintro - s hs queue hqueue
        obtain rfl := Option.mem_some_iff.mp hqueue
        have hsession : w.session = some s := hs
        rw [hsession]
        exact ⟨s.current, rfl, rfl, rfl⟩
      · intro e he
        have hnotifying : e ∈ w.notifying := he
        simp [hidle] at hnotifying
  | addEventQueue =>
      rw [step] at h
      split at h
      · rename_i queue hcreating
        obtain rfl := Option.some.inj h
        refine ⟨?_, by simp, ?_⟩
        · intro hidle s hs queue' hqueue
          rcases List.mem_append.mp hqueue with hold | hnew
          · exact hw.queues hidle s hs queue' hold
          · obtain rfl := List.mem_singleton.mp hnew
            exact hw.creating hidle s hs queue' hcreating
        · intro e he
          obtain ⟨s, hs, htells | ⟨-, hnone⟩⟩ := hw.notifying e he
          · exact ⟨s, hs, Or.inl htells⟩
          · simp [hnone] at hcreating
      · simp at h

/-- **The queues stay in sync**: in every run whose steps meet the condition, whenever no change of
the state is under way, the last event of each queue tells the state and the control flags of the
session. -/
theorem queues_inSync {ls : List EventStep} (hok : Meets step Guarded {} ls)
    (h : exec step {} ls = some w) : QueuesInSync w :=
  (hok.invariant step_invariant invariant_initial h).queues

/-- A queue that is created before the connection of an unregistered session is lost. -/
theorem queues_inSync_lost :
    ∃ w, exec step {} [.openSession 1, .pushInitialEvent, .addEventQueue, .disconnected, .notifyEvent]
      = some w ∧ QueuesInSync w := by
  have hok : Meets step Guarded {} [.openSession 1, .pushInitialEvent, .addEventQueue,
      .disconnected, .notifyEvent] := by
    simp [Meets, step, Guarded, notify]
  exact ⟨_, rfl, queues_inSync hok rfl⟩

/-- The connection is lost between the initial event and the attachment of the queue: the queue
never hears of it. -/
theorem not_queues_inSync : ¬ ∀ (ls : List EventStep) (w : EventSystem),
    exec step {} ls = some w → QueuesInSync w := by
  intro h
  have hbad := h [.openSession 1, .pushInitialEvent, .disconnected, .notifyEvent, .addEventQueue]
    _ rfl rfl _ rfl _ (List.mem_singleton.mpr rfl)
  obtain ⟨e, he, hstate, -⟩ := hbad
  obtain rfl := Option.mem_some_iff.mp he
  exact absurd hstate (by decide)

end EventSystem

end ScApi
