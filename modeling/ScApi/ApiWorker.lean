import ScApi.Lib.Runs
import ScApi.Session

/-!
# The worker thread of an `Api`

The worker of an `Api` runs the io context of its session. A thread that adds or removes a listener,
or destroys the `Api`, leaves its request under the mutex and stops the io context, so that the
worker comes back and takes the requests. The stop is sticky, but `runUntilStateChanges` clears it
before it runs the io context.

The callbacks of the listeners are left out, and so are the condition variables that
`removeListener` and the destructor wait on; a callback that adds a listener is an `addListener` at
the point of the worker where it is called.

## Main results

* `step_invariant`: what one step keeps.
* `not_lostWakeUp`: in every run that meets the condition, the worker never waits for the io context
  while a request is left for it and no stop is pending.
-/

namespace ScApi

open Runs

/-- `Api::ListenerAction`, with the listener's identity. -/
inductive ListenerAction where
  | add (listener : ℕ)
  | remove (listener : ℕ)
  deriving DecidableEq, Repr

/-- Where the worker is in `threadFunc`. -/
inductive WorkerAt where
  /-- At the top of the loop without a session, before `openSession`. -/
  | opening
  /-- A session has been opened; `active_session_` does not point to it yet. -/
  | publishing
  /-- Before the section that takes the requests, with a session or without. -/
  | taking (connected : Bool)
  /-- In the callbacks or at the top of the loop, up to the check of `runUntilStateChanges`. -/
  | checking
  /-- Between that check and `run`. -/
  | entering
  /-- Inside `run`. -/
  | running
  /-- `runUntilStateChanges` has returned a state. -/
  | returned (state : SessionState)
  /-- The lost session is closed; `active_session_` still points to it. -/
  | leaving
  /-- Behind the loop. -/
  | done
  deriving DecidableEq, Repr

/-- An `Api` and its worker. -/
structure Worker where
  place : WorkerAt := .opening
  /-- `running_`. -/
  running : Bool := true
  /-- `listener_action_queue_`. -/
  listenerActionQueue : List ListenerAction := []
  /-- `active_session_` points to the session of the worker. -/
  activeSession : Bool := false
  /-- The session of the worker; without one it is not looked at. -/
  session : Session := { sessionId := 0 }
  /-- `listeners`. -/
  listeners : List ℕ := []
  deriving DecidableEq, Repr

/-- A step of the worker, of a caller, or of the session. -/
inductive WorkerStep where
  | addListener (listener : ℕ)
  | removeListener (listener : ℕ)
  | destroy
  /-- `openSession` fails, or opens a session. -/
  | openSession (opened : Option UInt32)
  | publish
  | take
  | check
  | enter
  | leave
  | handle
  | retire
  /-- `Session::stop` by anyone, or the end of the io context's work. -/
  | stop
  /-- The connection of the session is lost. -/
  | disconnected
  /-- The session is closed by someone else. -/
  | close
  deriving DecidableEq, Repr

namespace Session

/-- `Session::stop`. -/
def stop (s : Session) : Session :=
  { s with ioStopped := true }

/-- The part of `runUntilStateChanges` up to its check: `none` when it returns at once because the
session has been closed. -/
def restart (s : Session) : Option Session :=
  if s.api then some { s with ioStopped := false } else none

end Session

namespace Worker

/-- What `addListener`, `removeListener` and the destructor do with the session. -/
def wake (w : Worker) : Worker :=
  if w.activeSession then { w with session := w.session.stop } else w

/-- The effect of a request on the list of listeners. `std::remove` moves the others to the front,
and one element behind them is erased. -/
def apply (listeners : List ℕ) : ListenerAction → List ℕ
  | .add listener => listeners ++ [listener]
  | .remove listener =>
      let kept := listeners.filter (· ≠ listener)
      kept ++ (listeners.drop kept.length).drop 1

/-- One step. -/
def step (w : Worker) : WorkerStep → Option Worker
  | .addListener listener =>
      some { w.wake with listenerActionQueue := w.listenerActionQueue ++ [.add listener] }
  | .removeListener listener =>
      some { w.wake with listenerActionQueue := w.listenerActionQueue ++ [.remove listener] }
  | .destroy => some { w.wake with running := false }
  | .openSession opened =>
      if w.place = .opening then
        match opened with
        | none => some { w with place := .taking false }
        | some sessionId => some { w with place := .publishing, session := { sessionId } }
      else
        none
  | .publish =>
      if w.place = .publishing then some { w with place := .taking true, activeSession := true } else none
  | .take =>
      match w.place with
      | .taking connected =>
          some { w with
            place := if ¬ w.running then .done else if connected then .checking else .opening
            listeners := w.listenerActionQueue.foldl apply w.listeners
            listenerActionQueue := [] }
      | _ => none
  | .check =>
      if w.place = .checking then
        match w.session.restart with
        | none => some { w with place := .returned .invalid }
        | some session => some { w with place := .entering, session }
      else
        none
  | .enter =>
      if w.place = .entering then
        some { w with place := .running, session := { w.session with isRunning := true } }
      else
        none
  | .leave =>
      if w.place = .running ∧ w.session.ioStopped then
        some { w with
          place := .returned w.session.state
          session := { w.session with isRunning := false } }
      else
        none
  | .handle =>
      match w.place with
      | .returned state =>
          if state = .sessionLost then
            some { w with place := .leaving, session := w.session.close.2 }
          else
            some { w with place := .taking true }
      | _ => none
  | .retire =>
      if w.place = .leaving then some { w with place := .opening, activeSession := false } else none
  | .stop => some { w with session := w.session.stop }
  | .disconnected => some { w with session := w.session.disconnected }
  | .close => some { w with session := w.session.close.2 }

/-- The worker waits for the io context although a request is left for it, and no stop is pending. -/
def LostWakeUp (w : Worker) : Prop :=
  w.place = .running ∧ (w.listenerActionQueue ≠ [] ∨ w.running = false) ∧
    w.session.ioStopped = false

/-- The condition on a step: no request comes while the worker is between the section that takes the
requests and the check of `runUntilStateChanges`. -/
def Guarded (w : Worker) : WorkerStep → Prop
  | .addListener _ | .removeListener _ | .destroy => w.place ≠ .checking
  | _ => True

/-- No request is left. -/
def Served (w : Worker) : Prop :=
  w.listenerActionQueue = [] ∧ w.running = true

/-- The worker has a session to which `active_session_` points. -/
def Connected (w : Worker) : Prop :=
  match w.place with
  | .taking connected => connected = true
  | .checking | .entering | .running | .returned _ => True
  | .opening | .publishing | .leaving | .done => False

/-- **The invariant.** When the worker checks, no request is left, and behind the check there is
none, or a stop is pending. -/
structure Invariant (w : Worker) : Prop where
  active : w.Connected → w.activeSession = true
  checking : w.place = .checking → w.Served
  pending : w.place = .entering ∨ w.place = .running → w.Served ∨ w.session.ioStopped = true

theorem invariant_initial : Invariant {} where
  active := by simp [Connected]
  checking := by simp
  pending := by simp

section

variable {w w' : Worker}

@[simp] theorem wake_place : w.wake.place = w.place := by
  rw [wake]
  split <;> rfl

@[simp] theorem wake_activeSession : w.wake.activeSession = w.activeSession := by
  rw [wake]
  split <;> rfl

/-- A caller stops the io context of the active session. -/
theorem wake_ioStopped (h : w.activeSession = true) : w.wake.session.ioStopped = true := by
  rw [wake, if_pos h]
  rfl

/-- A request that comes when the worker does not check keeps the invariant. -/
theorem Invariant.request {queue : List ListenerAction} {running : Bool} (hw : Invariant w)
    (hplace : w.place ≠ .checking) :
    Invariant { w.wake with listenerActionQueue := queue, running } where
  active := by
    intro h
    rw [wake_activeSession]
    refine hw.active ?_
    simpa [Connected] using h
  checking := by
    intro h
    rw [wake_place] at h
    exact absurd h hplace
  pending := by
    rintro h
    rw [wake_place] at h
    refine Or.inr (wake_ioStopped (hw.active ?_))
    rcases h with h | h <;> simp [Connected, h]

/-- What happens to the session while the worker is at a place keeps the invariant, as long as no
pending stop is lost. -/
theorem Invariant.sessionChange {session : Session} (hw : Invariant w)
    (h : w.session.ioStopped = true → session.ioStopped = true) :
    Invariant { w with session } where
  active := hw.active
  checking := hw.checking
  pending := fun hplace => (hw.pending hplace).imp_right h

theorem close_ioStopped (s : Session) (h : s.ioStopped = true) : s.close.2.ioStopped = true := by
  rw [Session.close]
  split
  · exact h
  · rfl

/-- **One step that meets the condition keeps the invariant.** -/
theorem step_invariant {l : WorkerStep} (hw : Invariant w) (hok : w.Guarded l)
    (h : w.step l = some w') : Invariant w' := by
  cases l with
  | addListener listener =>
      obtain rfl := Option.some.inj h
      exact hw.request hok
  | removeListener listener =>
      obtain rfl := Option.some.inj h
      exact hw.request hok
  | destroy =>
      obtain rfl := Option.some.inj h
      exact hw.request hok
  | openSession opened =>
      cases opened with
      | none =>
          rw [step, Option.ite_none_right_eq_some, Option.some.injEq] at h
          obtain ⟨-, rfl⟩ := h
          exact ⟨by simp [Connected], by simp, by simp⟩
      | some sessionId =>
          rw [step, Option.ite_none_right_eq_some, Option.some.injEq] at h
          obtain ⟨-, rfl⟩ := h
          exact ⟨by simp [Connected], by simp, by simp⟩
  | publish =>
      rw [step, Option.ite_none_right_eq_some, Option.some.injEq] at h
      obtain ⟨-, rfl⟩ := h
      exact ⟨fun _ => rfl, by simp, by simp⟩
  | take =>
      rw [step] at h
      split at h
      · rename_i connected hplace
        obtain rfl := Option.some.inj h
        cases hrunning : w.running with
        | false => exact ⟨by simp [Connected], by simp, by simp⟩
        | true =>
          cases connected with
          | false => exact ⟨by simp [Connected], by simp, by simp⟩
          | true =>
              have hactive := hw.active (by simp [Connected, hplace])
              exact ⟨fun _ => hactive, fun _ => ⟨rfl, rfl⟩, by simp⟩
      · simp at h
  | check =>
      rw [step, Option.ite_none_right_eq_some] at h
      obtain ⟨hplace, h⟩ := h
      have hactive := hw.active (by simp [Connected, hplace])
      split at h
      · obtain rfl := Option.some.inj h
        exact ⟨fun _ => hactive, by simp, by simp⟩
      · obtain rfl := Option.some.inj h
        exact ⟨fun _ => hactive, by simp, fun _ => Or.inl (hw.checking hplace)⟩
  | enter =>
      rw [step, Option.ite_none_right_eq_some, Option.some.injEq] at h
      obtain ⟨hplace, rfl⟩ := h
      exact ⟨fun _ => hw.active (by simp [Connected, hplace]), by simp,
        fun _ => hw.pending (Or.inl hplace)⟩
  | leave =>
      rw [step, Option.ite_none_right_eq_some, Option.some.injEq] at h
      obtain ⟨⟨hplace, -⟩, rfl⟩ := h
      exact ⟨fun _ => hw.active (by simp [Connected, hplace]), by simp, by simp⟩
  | handle =>
      rw [step] at h
      split at h
      · rename_i state hplace
        split at h
        · obtain rfl := Option.some.inj h
          exact ⟨by simp [Connected], by simp, by simp⟩
        · obtain rfl := Option.some.inj h
          exact ⟨fun _ => hw.active (by simp [Connected, hplace]), by simp, by simp⟩
      · simp at h
  | retire =>
      rw [step, Option.ite_none_right_eq_some, Option.some.injEq] at h
      obtain ⟨-, rfl⟩ := h
      exact ⟨by simp [Connected], by simp, by simp⟩
  | stop =>
      obtain rfl := Option.some.inj h
      exact hw.sessionChange fun _ => rfl
  | disconnected =>
      obtain rfl := Option.some.inj h
      exact hw.sessionChange fun hstop => by simp [Session.disconnected, hstop]
  | close =>
      obtain rfl := Option.some.inj h
      exact hw.sessionChange (close_ioStopped w.session)

/-- **No wake-up is lost** in a run in which no request comes between the section that takes the
requests and the check of `runUntilStateChanges`. -/
theorem not_lostWakeUp {ls : List WorkerStep} (hok : Meets step Guarded {} ls)
    (h : exec step {} ls = some w) : ¬ w.LostWakeUp := by
  rintro ⟨hplace, hrequest, hstop⟩
  have hw := hok.invariant step_invariant invariant_initial h
  rcases hw.pending (Or.inr hplace) with ⟨hempty, hrunning⟩ | hpending
  · rcases hrequest with hqueue | hclosing
    · exact hqueue hempty
    · simp [hrunning] at hclosing
  · simp [hstop] at hpending

/-- A listener that is added while the worker runs the io context. -/
theorem not_lostWakeUp_running :
    ∃ w, exec step {} [.openSession (some 1), .publish, .take, .check, .enter, .addListener 0]
      = some w ∧ ¬ w.LostWakeUp := by
  have hok : Meets step Guarded {} [.openSession (some 1), .publish, .take, .check, .enter,
      .addListener 0] := by
    simp [Meets, step, Guarded]
  exact ⟨_, rfl, not_lostWakeUp hok rfl⟩

/-- A listener that is added right before the check: the check clears its stop, and the worker
waits with the request in its queue. -/
theorem not_not_lostWakeUp : ¬ ∀ (ls : List WorkerStep) (w : Worker),
    exec step {} ls = some w → ¬ w.LostWakeUp := by
  intro h
  refine h [.openSession (some 1), .publish, .take, .addListener 0, .check, .enter] _ rfl ?_
  exact ⟨rfl, Or.inl (by decide), rfl⟩

end

end Worker

end ScApi
