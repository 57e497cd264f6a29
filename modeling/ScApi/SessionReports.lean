import ScApi.ApiWorker
import ScApi.RegisterGrant

/-!
# What the listeners of an `Api` know about the session

The worker of an `Api` tells its listeners the state and the control flags of the session. It keeps
the values that it has told last, compares them with those of the session each time
`runUntilStateChanges` has returned, and calls the listeners one after the other, without a mutex.
A registration stops the io context only while the worker runs it, so one that comes in between,
from a callback or from another thread, is not compared before the worker runs the io context again.

A step here is one of the worker without its callbacks, of a callback, or of a comparison. A listener
that registers in its callback is a registration right after it. What the worker still tells when it
ends is left out: it does not run the io context any more.

## Main results

* `step_invariant`: what one step keeps.
* `reported_of_enter`: in every run that meets the condition, all listeners know the session when
  the worker begins to run the io context.
-/

namespace ScApi

open Runs

/-- What the worker has to do before its next step. -/
inductive Callbacks where
  | none
  /-- `runUntilStateChanges` has returned, and its state is not compared yet. -/
  | compareState
  /-- In the loop of the `sessionStateChanged` callbacks, with the listeners that are left. -/
  | sessionStateChanged (state : SessionState) (rest : List ℕ)
  /-- The control flags are not compared yet. -/
  | compareFlags
  /-- In the loop of the `controlFlagsChanged` callbacks. -/
  | controlFlagsChanged (flags : UInt32) (rest : List ℕ)
  deriving DecidableEq, Repr

/-- A worker with its callbacks. -/
structure Reporter where
  worker : Worker := {}
  callbacks : Callbacks := .none
  /-- `prev_session_state`. -/
  prevSessionState : SessionState := .invalid
  /-- `active_control_flags`. -/
  activeControlFlags : UInt32 := 0
  /-- The last state that a listener was told in the session of the worker. -/
  toldState : ℕ → Option SessionState := fun _ => none
  /-- The last control flags that a listener was told. Only changes are told, so they are 0 when the
  session begins. -/
  toldFlags : ℕ → UInt32 := fun _ => 0

/-- A step of the worker or of those that call it, a registration, or what the worker does in
between. -/
inductive ReportStep where
  | worker (l : WorkerStep)
  | registerToControl (a : RegisterArgs) (b : Backend)
  | compareState
  /-- The next callback, or the end of the loop. -/
  | callback
  | compareFlags

/-- The steps that the worker does not take itself. -/
def WorkerStep.Foreign : WorkerStep → Prop
  | .addListener _ | .removeListener _ | .destroy | .stop | .disconnected | .close => True
  | .openSession _ | .publish | .take | .check | .enter | .leave | .handle | .retire => False

instance (l : WorkerStep) : Decidable l.Foreign := by
  cases l <;> rw [WorkerStep.Foreign] <;> infer_instance

namespace Reporter

/-- A new session: its state is known, and all listeners are told. -/
def greet (w : Reporter) : Reporter :=
  { w with
    callbacks := .sessionStateChanged .connectedMonitor w.worker.listeners
    prevSessionState := .connectedMonitor
    activeControlFlags := 0
    toldState := fun _ => none
    toldFlags := fun _ => 0 }

/-- What a step of the worker leaves it to do. -/
def follow (w : Reporter) (l : WorkerStep) : Reporter :=
  match l, w.worker.place with
  | .publish, _ => w.greet
  | .check, .returned _ | .leave, _ => { w with callbacks := .compareState }
  | .handle, .taking _ => { w with callbacks := .compareFlags }
  | _, _ => w

/-- One step. A registration without defined behaviour has no next state. -/
def step (w : Reporter) : ReportStep → Option Reporter
  | .worker l =>
      if l.Foreign ∨ w.callbacks = .none then
        (w.worker.step l).map fun worker => follow { w with worker } l
      else
        none
  | .registerToControl a b =>
      match w.worker.session.registerToControl a b with
      | (.undefinedBehaviour, _) => none
      | (.returned _, session) | (.threw, session) =>
          some { w with worker := { w.worker with session } }
  | .compareState =>
      match w.callbacks, w.worker.place with
      | .compareState, .returned state =>
          if state ≠ w.prevSessionState then
            some { w with
              callbacks := .sessionStateChanged state w.worker.listeners
              prevSessionState := state }
          else
            some { w with callbacks := .none }
      | _, _ => none
  | .callback =>
      match w.callbacks with
      | .sessionStateChanged state (listener :: rest) =>
          some { w with
            callbacks := .sessionStateChanged state rest
            toldState := Function.update w.toldState listener (some state) }
      | .controlFlagsChanged flags (listener :: rest) =>
          some { w with
            callbacks := .controlFlagsChanged flags rest
            toldFlags := Function.update w.toldFlags listener flags }
      | .sessionStateChanged _ [] | .controlFlagsChanged _ [] => some { w with callbacks := .none }
      | _ => none
  | .compareFlags =>
      if w.callbacks = .compareFlags then
        let flags := w.worker.session.controlFlags
        if flags ≠ w.activeControlFlags then
          some { w with
            callbacks := .controlFlagsChanged flags w.worker.listeners
            activeControlFlags := flags }
        else
          some { w with callbacks := .none }
      else
        none

/-- The listener knows the state of the session and, while that is connected, its control flags. -/
def Told (w : Reporter) (listener : ℕ) : Prop :=
  let s := w.worker.session
  w.toldState listener = some s.state ∧
    (s.state = .connectedMonitor ∨ s.state = .connectedControl →
      w.toldFlags listener = s.controlFlags)

/-- All listeners know the session. -/
def Reported (w : Reporter) : Prop :=
  ∀ listener ∈ w.worker.listeners, w.Told listener

/-! ### The condition -/

/-- The worker is on its way to the io context of an open session: it will not read the state of the
session any more before it runs it. There are listeners. -/
def Exposed (w : Reporter) : Prop :=
  w.worker.session.api = true ∧ w.worker.listeners ≠ [] ∧
    match w.worker.place with
    | .publishing | .taking true => w.worker.running = true
    | .returned state => w.worker.running = true ∧ state ≠ .sessionLost
    | .checking | .entering => True
    | .opening | .taking false | .running | .leaving | .done => False

/-- The condition on a step. While the worker is on its way to the io context, no registration is
accepted and the connection is not lost; the session is not closed between the check of
`runUntilStateChanges` and `run`, and no listener is added to an open session. -/
def Guarded (w : Reporter) : ReportStep → Prop
  | .registerToControl a b => w.Exposed → ¬ Session.Accepts a b w.worker.session
  | .worker .disconnected => ¬ w.Exposed
  | .worker .close => w.worker.place = .entering → w.worker.listeners = []
  | .worker .take =>
      w.worker.place = .taking true → w.worker.running = true → w.worker.session.api = true →
        ∀ listener ∈ w.worker.listenerActionQueue.foldl Worker.apply w.worker.listeners,
          listener ∈ w.worker.listeners
  | _ => True

end Reporter

/-! ### The invariant -/

namespace Callbacks

/-- The listeners that are still to be told the state. -/
def stateLeft : Callbacks → List ℕ
  | .sessionStateChanged _ rest => rest
  | _ => []

/-- The listeners that are still to be told the control flags. -/
def flagsLeft : Callbacks → List ℕ
  | .controlFlagsChanged _ rest => rest
  | _ => []

/-- The callbacks tell these values. -/
def Tell (state : SessionState) (flags : UInt32) : Callbacks → Prop
  | .sessionStateChanged told _ => told = state
  | .controlFlagsChanged told _ => told = flags
  | .none | .compareState | .compareFlags => True

end Callbacks

namespace Reporter

/-- What the worker keeps about the session is up to date, as far as it has compared it. -/
def Current (w : Reporter) : Prop :=
  let s := w.worker.session
  match w.worker.place with
  | .publishing => s.state = .connectedMonitor ∧ s.controlFlags = 0
  | .taking _ =>
      s.state = w.prevSessionState ∧
        (w.callbacks ≠ .compareFlags → s.controlFlags = w.activeControlFlags)
  | .checking | .entering =>
      s.state = w.prevSessionState ∧ s.controlFlags = w.activeControlFlags
  | .returned state =>
      s.state = state ∧ (w.callbacks ≠ .compareState → state = w.prevSessionState)
  | .opening | .running | .leaving | .done => True

/-- **The invariant.** While the session is open, the listeners know what the worker keeps, but for
the callbacks that are left, and what it keeps is up to date on the way to the io context. -/
structure Invariant (w : Reporter) : Prop where
  callbacks : w.callbacks.Tell w.prevSessionState w.activeControlFlags
  state : w.worker.Connected → w.worker.session.api = true → ∀ listener ∈ w.worker.listeners,
    listener ∈ w.callbacks.stateLeft ∨ w.toldState listener = some w.prevSessionState
  flags : w.worker.Connected → w.worker.session.api = true → ∀ listener ∈ w.worker.listeners,
    listener ∈ w.callbacks.flagsLeft ∨ w.toldFlags listener = w.activeControlFlags
  current : w.Exposed → w.Current
  entering : w.worker.place = .entering → w.worker.listeners ≠ [] → w.worker.session.api = true

section

variable {w w' : Reporter}

theorem invariant_initial : Invariant {} where
  callbacks := trivial
  state := by simp [Worker.Connected]
  flags := by simp [Worker.Connected]
  current := by simp [Exposed]
  entering := by simp

/-- What others do to the worker and its session keeps the invariant, if no change is missed and a
closed session is not entered. -/
theorem Invariant.foreign {worker : Worker} (hw : Invariant w)
    (hplace : worker.place = w.worker.place) (hlisteners : worker.listeners = w.worker.listeners)
    (hrunning : worker.running = true → w.worker.running = true)
    (hapi : worker.session.api = true → w.worker.session.api = true)
    (hsame : w.Exposed → worker.session.api = true →
      worker.session.state = w.worker.session.state ∧
        worker.session.controlFlags = w.worker.session.controlFlags)
    (hentering : w.worker.place = .entering → w.worker.listeners ≠ [] →
      w.worker.session.api = true → worker.session.api = true) :
    Invariant { w with worker } := by
  have hconnected : worker.Connected → w.worker.Connected := by
    rw [Worker.Connected, Worker.Connected, hplace]
    exact id
  have hexposed : Exposed { w with worker } → w.Exposed ∧ worker.session.api = true := by
    rintro ⟨hopen, hne, h⟩
    dsimp only at hopen hne h
    rw [hplace] at h
    rw [hlisteners] at hne
    refine ⟨⟨hapi hopen, hne, ?_⟩, hopen⟩
    split at h
    · exact hrunning h
    · exact hrunning h
    · exact ⟨hrunning h.1, h.2⟩
    all_goals exact h
  constructor
  · exact hw.callbacks
  · intro hc hopen l hl
    rw [hlisteners] at hl
    exact hw.state (hconnected hc) (hapi hopen) l hl
  · intro hc hopen l hl
    rw [hlisteners] at hl
    exact hw.flags (hconnected hc) (hapi hopen) l hl
  · intro h
    obtain ⟨hex, hopen⟩ := hexposed h
    obtain ⟨hstate, hflags⟩ := hsame hex hopen
    have hcurrent := hw.current hex
    rw [Current] at hcurrent ⊢
    dsimp only at hcurrent ⊢
    rw [hplace, hstate, hflags]
    exact hcurrent
  · intro hp hne
    dsimp only at hp hne ⊢
    rw [hplace] at hp
    rw [hlisteners] at hne
    exact hentering hp hne (hw.entering hp hne)

theorem wake_running (v : Worker) : v.wake.running = v.running := by
  rw [Worker.wake]
  split <;> rfl

/-- A request of a caller. -/
theorem Invariant.request {queue : List ListenerAction} {running : Bool} (hw : Invariant w)
    (hrunning : running = true → w.worker.running = true) :
    Invariant { w with
      worker := { w.worker.wake with listenerActionQueue := queue, running } } := by
  have hwake : w.worker.wake = w.worker ∨
      w.worker.wake = { w.worker with session := w.worker.session.stop } := by
    rw [Worker.wake]
    split
    · exact Or.inr rfl
    · exact Or.inl rfl
  rcases hwake with h | h <;> rw [h]
  · exact hw.foreign rfl rfl hrunning id (fun _ _ => ⟨rfl, rfl⟩) (fun _ _ => id)
  · exact hw.foreign rfl rfl hrunning id (fun _ _ => ⟨rfl, rfl⟩) (fun _ _ => id)

/-- What a registration does to the session. -/
theorem registerToControl_api (a : RegisterArgs) (b : Backend) (s : Session) :
    (s.registerToControl a b).2.api = s.api ∧ (¬ Session.Accepts a b s →
      (s.registerToControl a b).2.state = s.state ∧
        (s.registerToControl a b).2.controlFlags = s.controlFlags) := by
  obtain ⟨e, s', h⟩ : ∃ e s', s.registerToControl a b = (e, s') := ⟨_, _, rfl⟩
  rw [h]
  cases Session.registerToControl_cases h with
  | rejected | alreadyOpen | notOpened | failed => exact ⟨rfl, fun _ => ⟨rfl, rfl⟩⟩
  | accepted haccepts => exact ⟨rfl, fun hnot => absurd haccepts hnot⟩

/-- The step of a worker behind a step here. -/
theorem step_worker {l : WorkerStep} (h : w.step (.worker l) = some w') :
    (l.Foreign ∨ w.callbacks = .none) ∧
      ∃ worker, w.worker.step l = some worker ∧ w' = follow { w with worker } l := by
  rw [step, Option.ite_none_right_eq_some] at h
  obtain ⟨hl, h⟩ := h
  obtain ⟨worker, hworker, rfl⟩ := Option.map_eq_some_iff.mp h
  exact ⟨hl, worker, hworker, rfl⟩

/-- **What others do** keeps the invariant if it meets the condition. -/
theorem foreign_invariant {l : WorkerStep} (hw : Invariant w) (hok : w.Guarded (.worker l))
    (hl : l.Foreign) (h : w.step (.worker l) = some w') : Invariant w' := by
  obtain ⟨-, worker, hworker, rfl⟩ := step_worker h
  cases l with
  | addListener listener =>
      obtain rfl := Option.some.inj hworker
      exact hw.request fun h => (wake_running _).symm.trans h
  | removeListener listener =>
      obtain rfl := Option.some.inj hworker
      exact hw.request fun h => (wake_running _).symm.trans h
  | destroy =>
      obtain rfl := Option.some.inj hworker
      exact hw.request (by simp)
  | stop =>
      obtain rfl := Option.some.inj hworker
      exact hw.foreign rfl rfl id id (fun _ _ => ⟨rfl, rfl⟩) (fun _ _ => id)
  | disconnected =>
      obtain rfl := Option.some.inj hworker
      exact hw.foreign rfl rfl id id (fun hex => absurd hex hok) (fun _ _ => id)
  | close =>
      obtain rfl := Option.some.inj hworker
      have hclose : w.worker.session.close.2 = w.worker.session ∨
          w.worker.session.close.2.api = false := by
        rw [Session.close]
        split
        · exact Or.inl rfl
        · exact Or.inr rfl
      rcases hclose with hsame | hclosed
      · refine hw.foreign rfl rfl id ?_ ?_ ?_ <;> dsimp only <;> rw [hsame]
        · exact id
        · exact fun _ _ => ⟨rfl, rfl⟩
        · exact fun _ _ => id
      · refine hw.foreign rfl rfl id ?_ ?_ ?_ <;> dsimp only <;> rw [hclosed]
        · simp
        · simp
        · exact fun hp hne => absurd (hok hp) hne
  | openSession | publish | take | check | enter | leave | handle | retire => exact absurd hl id

/-- A worker without a session. -/
theorem Invariant.away (hw : w.callbacks.Tell w.prevSessionState w.activeControlFlags)
    (hconnected : ¬ w.worker.Connected) (hplace : w.worker.place ≠ .publishing) : Invariant w where
  callbacks := hw
  state := fun h => absurd h hconnected
  flags := fun h => absurd h hconnected
  current := by
    rintro ⟨-, -, h⟩
    rw [Worker.Connected] at hconnected
    split at h <;> simp_all
  entering := fun h => absurd (by simp [Worker.Connected, h]) hconnected

/-- **A step of the worker itself** keeps the invariant if it meets the condition. -/
theorem own_invariant {l : WorkerStep} (hw : Invariant w) (hok : w.Guarded (.worker l))
    (hl : ¬ l.Foreign) (h : w.step (.worker l) = some w') : Invariant w' := by
  obtain ⟨hidle, worker, hworker, rfl⟩ := step_worker h
  have hnone := hidle.resolve_left hl
  cases l with
  | openSession opened =>
      cases opened with
      | none =>
          rw [Worker.step, Option.ite_none_right_eq_some, Option.some.injEq] at hworker
          obtain ⟨-, rfl⟩ := hworker
          exact .away hw.callbacks (by simp [follow, Worker.Connected]) (by simp [follow])
      | some sessionId =>
          rw [Worker.step, Option.ite_none_right_eq_some, Option.some.injEq] at hworker
          obtain ⟨-, rfl⟩ := hworker
          exact ⟨hw.callbacks, by simp [follow, Worker.Connected], by simp [follow, Worker.Connected],
            fun _ => ⟨rfl, rfl⟩, by simp [follow]⟩
  | publish =>
      rw [Worker.step, Option.ite_none_right_eq_some, Option.some.injEq] at hworker
      obtain ⟨hplace, rfl⟩ := hworker
      refine ⟨rfl, fun _ _ l hl => Or.inl hl, fun _ _ l hl => Or.inr rfl, ?_, by simp [follow, greet]⟩
      rintro ⟨hopen, hne, hrunning⟩
      have hcurrent := hw.current ⟨hopen, hne, by rw [hplace]; exact hrunning⟩
      rw [Current, hplace] at hcurrent
      exact ⟨hcurrent.1, fun _ => hcurrent.2⟩
  | take =>
      rw [Worker.step] at hworker
      split at hworker
      · rename_i connected hplace
        obtain rfl := Option.some.inj hworker
        cases hrunning : w.worker.running with
        | false => exact .away hw.callbacks (by simp [follow, Worker.Connected]) (by simp [follow])
        | true =>
          cases connected with
          | false => exact .away hw.callbacks (by simp [follow, Worker.Connected]) (by simp [follow])
          | true =>
              have hconnected : w.worker.Connected := by simp [Worker.Connected, hplace]
              have hold := hok hplace hrunning
              refine ⟨hw.callbacks, ?_, ?_, ?_, by simp [follow]⟩
              · exact fun _ hopen l hl => hw.state hconnected hopen l (hold hopen l hl)
              · exact fun _ hopen l hl => hw.flags hconnected hopen l (hold hopen l hl)
              · rintro ⟨hopen, hne, -⟩
                obtain ⟨l, hl⟩ := List.exists_mem_of_ne_nil _ hne
                have hcurrent := hw.current ⟨hopen, List.ne_nil_of_mem (hold hopen l hl), by
                  rw [hplace]; exact hrunning⟩
                rw [Current, hplace] at hcurrent
                exact ⟨hcurrent.1, hcurrent.2 (by simp [hnone])⟩
      · simp at hworker
  | check =>
      rw [Worker.step, Option.ite_none_right_eq_some] at hworker
      obtain ⟨hplace, hworker⟩ := hworker
      have hconnected : w.worker.Connected := by simp [Worker.Connected, hplace]
      rw [Session.restart] at hworker
      cases hapi : w.worker.session.api with
      | false =>
          rw [hapi, if_neg Bool.false_ne_true] at hworker
          obtain rfl := Option.some.inj hworker
          have hclosed : ¬ w.worker.session.api = true := by simp [hapi]
          exact ⟨trivial, fun _ hopen => absurd hopen hclosed, fun _ hopen => absurd hopen hclosed,
            fun hex => absurd hex.1 hclosed, by simp [follow]⟩
      | true =>
          rw [hapi, if_pos rfl] at hworker
          obtain rfl := Option.some.inj hworker
          refine ⟨hw.callbacks, fun _ _ => hw.state hconnected hapi, fun _ _ => hw.flags hconnected hapi,
            ?_, fun _ _ => rfl⟩
          rintro ⟨-, hne, -⟩
          have hcurrent := hw.current ⟨hapi, hne, by rw [hplace]; trivial⟩
          rw [Current, hplace] at hcurrent
          exact hcurrent
  | enter =>
      rw [Worker.step, Option.ite_none_right_eq_some, Option.some.injEq] at hworker
      obtain ⟨hplace, rfl⟩ := hworker
      have hconnected : w.worker.Connected := by simp [Worker.Connected, hplace]
      exact ⟨hw.callbacks, fun _ => hw.state hconnected, fun _ => hw.flags hconnected,
        fun _ => trivial, by simp [follow]⟩
  | leave =>
      rw [Worker.step, Option.ite_none_right_eq_some, Option.some.injEq] at hworker
      obtain ⟨⟨hplace, -⟩, rfl⟩ := hworker
      have hconnected : w.worker.Connected := by simp [Worker.Connected, hplace]
      have hstate := hw.state hconnected
      have hflags := hw.flags hconnected
      rw [hnone] at hstate hflags
      exact ⟨trivial, fun _ => hstate, fun _ => hflags, fun _ => ⟨rfl, fun hne => absurd rfl hne⟩,
        by simp [follow]⟩
  | handle =>
      rw [Worker.step] at hworker
      split at hworker
      · rename_i state hplace
        have hconnected : w.worker.Connected := by simp [Worker.Connected, hplace]
        split at hworker
        · obtain rfl := Option.some.inj hworker
          exact .away hw.callbacks (by simp [follow, Worker.Connected]) (by simp [follow])
        · rename_i hlost
          obtain rfl := Option.some.inj hworker
          have hstate := hw.state hconnected
          have hflags := hw.flags hconnected
          rw [hnone] at hstate hflags
          refine ⟨trivial, fun _ => hstate, fun _ => hflags, ?_, by simp [follow]⟩
          rintro ⟨hopen, hne, hrunning⟩
          have hcurrent := hw.current ⟨hopen, hne, by rw [hplace]; exact ⟨hrunning, hlost⟩⟩
          rw [Current, hplace] at hcurrent
          exact ⟨hcurrent.1.trans (hcurrent.2 (by simp [hnone])), fun hne => absurd rfl hne⟩
      · simp at hworker
  | retire =>
      rw [Worker.step, Option.ite_none_right_eq_some, Option.some.injEq] at hworker
      obtain ⟨-, rfl⟩ := hworker
      exact .away hw.callbacks (by simp [follow, Worker.Connected]) (by simp [follow])
  | addListener | removeListener | destroy | stop | disconnected | close => exact absurd trivial hl

/-- The comparison of the state. -/
theorem compareState_invariant (hw : Invariant w) (h : w.step .compareState = some w') :
    Invariant w' := by
  rw [step] at h
  split at h
  · rename_i state hcompare hplace
    have hconnected : w.worker.Connected := by simp [Worker.Connected, hplace]
    have hold := hw.state hconnected
    have hflags := hw.flags hconnected
    have hcurrent := hw.current
    rw [hcompare] at hold hflags
    simp only [Current, hplace, hcompare] at hcurrent
    split at h
    · obtain rfl := Option.some.inj h
      refine ⟨rfl, fun _ _ l hl => Or.inl hl, fun _ => hflags, fun hex => ?_, by simp [hplace]⟩
      rw [Current]
      simp only [hplace]
      exact ⟨(hcurrent hex).1, fun _ => trivial⟩
    · rename_i hsame
      obtain rfl := Option.some.inj h
      refine ⟨trivial, fun _ => hold, fun _ => hflags, fun hex => ?_, by simp [hplace]⟩
      rw [Current]
      simp only [hplace]
      exact ⟨(hcurrent hex).1, fun _ => not_not.mp hsame⟩
  · simp at h

/-- The comparison of the control flags. -/
theorem compareFlags_invariant (hw : Invariant w) (h : w.step .compareFlags = some w') :
    Invariant w' := by
  rw [step, Option.ite_none_right_eq_some] at h
  obtain ⟨hcompare, h⟩ := h
  have hstate := hw.state
  have hold := hw.flags
  rw [hcompare] at hstate hold
  -- the kept flags are those of the session, whether they have changed or not
  have hcurrent : ∀ callbacks, w.Exposed →
      Current { w with callbacks, activeControlFlags := w.worker.session.controlFlags } := by
    intro callbacks hex
    have h := hw.current hex
    cases hplace : w.worker.place with
    | publishing =>
        simp only [Current, hplace] at h ⊢
        exact h
    | taking connected =>
        simp only [Current, hplace] at h ⊢
        exact ⟨h.1, fun _ => trivial⟩
    | checking | entering =>
        simp only [Current, hplace] at h ⊢
        exact ⟨h.1, trivial⟩
    | returned state =>
        simp only [Current, hplace, hcompare] at h ⊢
        exact ⟨h.1, fun _ => h.2 (by simp)⟩
    | opening | running | leaving | done => simp only [Current, hplace]
  dsimp only at h
  split at h
  · obtain rfl := Option.some.inj h
    exact ⟨rfl, hstate, fun _ _ l hl => Or.inl hl, hcurrent _, hw.entering⟩
  · rename_i hsame
    obtain rfl := Option.some.inj h
    have hkept := hcurrent .none
    rw [not_not.mp hsame] at hkept
    exact ⟨trivial, hstate, hold, hkept, hw.entering⟩

/-- A callback says nothing new to the worker. -/
theorem Current.callback {callbacks : Callbacks} {toldState : ℕ → Option SessionState}
    {toldFlags : ℕ → UInt32} (hw : w.Current) (hstate : w.callbacks ≠ .compareState)
    (hflags : w.callbacks ≠ .compareFlags) :
    Current { w with callbacks, toldState, toldFlags } := by
  cases hplace : w.worker.place with
  | taking connected =>
      simp only [Current, hplace] at hw ⊢
      exact ⟨hw.1, fun _ => hw.2 hflags⟩
  | returned state =>
      simp only [Current, hplace] at hw ⊢
      exact ⟨hw.1, fun _ => hw.2 hstate⟩
  | publishing | checking | entering =>
      simp only [Current, hplace] at hw ⊢
      exact hw
  | opening | running | leaving | done => simp only [Current, hplace]

/-- After a callback, the listener knows what it was told. -/
theorem told_update {γ : Type} {told : ℕ → γ} {value kept : γ} {listener l : ℕ} {rest : List ℕ}
    (hvalue : value = kept) (h : l ∈ listener :: rest ∨ told l = kept) :
    l ∈ rest ∨ Function.update told listener value l = kept := by
  by_cases heq : l = listener
  · rw [heq, Function.update_self]
    exact Or.inr hvalue
  · rw [Function.update_of_ne heq]
    exact h.imp_left fun hmem => (List.mem_cons.mp hmem).resolve_left heq

/-- A callback. -/
theorem callback_invariant (hw : Invariant w) (h : w.step .callback = some w') : Invariant w' := by
  have hcallbacks := hw.callbacks
  have hstate := hw.state
  have hflags := hw.flags
  rw [step] at h
  split at h
  · rename_i state listener rest hleft
    obtain rfl := Option.some.inj h
    rw [hleft] at hcallbacks hstate hflags
    exact ⟨hcallbacks,
      fun hc hopen l hl => told_update (congrArg some hcallbacks) (hstate hc hopen l hl), hflags,
      fun hex => (hw.current hex).callback (by simp [hleft]) (by simp [hleft]), hw.entering⟩
  · rename_i flags listener rest hleft
    obtain rfl := Option.some.inj h
    rw [hleft] at hcallbacks hstate hflags
    exact ⟨hcallbacks, hstate,
      fun hc hopen l hl => told_update hcallbacks (hflags hc hopen l hl),
      fun hex => (hw.current hex).callback (by simp [hleft]) (by simp [hleft]), hw.entering⟩
  · rename_i state hleft
    obtain rfl := Option.some.inj h
    rw [hleft] at hstate hflags
    exact ⟨trivial, hstate, hflags,
      fun hex => (hw.current hex).callback (by simp [hleft]) (by simp [hleft]), hw.entering⟩
  · rename_i flags hleft
    obtain rfl := Option.some.inj h
    rw [hleft] at hstate hflags
    exact ⟨trivial, hstate, hflags,
      fun hex => (hw.current hex).callback (by simp [hleft]) (by simp [hleft]), hw.entering⟩
  · simp at h

/-- **One step that meets the condition keeps the invariant.** -/
theorem step_invariant {l : ReportStep} (hw : Invariant w) (hok : w.Guarded l)
    (h : w.step l = some w') : Invariant w' := by
  cases l with
  | worker l =>
      by_cases hl : l.Foreign
      · exact foreign_invariant hw hok hl h
      · exact own_invariant hw hok hl h
  | registerToControl a b =>
      obtain ⟨hapi, hsame⟩ := registerToControl_api a b w.worker.session
      have hkept : Invariant { w with
          worker := { w.worker with session := (w.worker.session.registerToControl a b).2 } } :=
        hw.foreign rfl rfl id (fun h => hapi.symm.trans h) (fun hex _ => hsame (hok hex))
          fun _ _ h => hapi.trans h
      rw [step] at h
      split at h
      · simp at h
      all_goals
        rename_i hcall
        rw [hcall] at hkept
        rw [← Option.some.inj h]
        exact hkept
  | compareState => exact compareState_invariant hw h
  | callback => exact callback_invariant hw h
  | compareFlags => exact compareFlags_invariant hw h

/-- **All listeners know the session when the worker begins to run the io context**, in every run
that meets the condition. -/
theorem reported_of_enter {ls : List ReportStep} (hok : Meets step Guarded {} ls)
    (h : exec step {} ls = some w) (henter : w.step (.worker .enter) = some w') : w.Reported := by
  have hw := hok.invariant step_invariant invariant_initial h
  obtain ⟨hidle, worker, hworker, -⟩ := step_worker henter
  have hnone : w.callbacks = .none := hidle.resolve_left id
  rw [Worker.step, Option.ite_none_right_eq_some] at hworker
  obtain ⟨hplace, -⟩ := hworker
  have hconnected : w.worker.Connected := by simp [Worker.Connected, hplace]
  intro listener hl
  have hne := List.ne_nil_of_mem hl
  have hopen := hw.entering hplace hne
  have hcurrent := hw.current ⟨hopen, hne, by rw [hplace]; trivial⟩
  rw [Current, hplace] at hcurrent
  have hstate := hw.state hconnected hopen listener hl
  have hflags := hw.flags hconnected hopen listener hl
  rw [hnone] at hstate hflags
  refine ⟨?_, fun _ => ?_⟩
  · rw [hstate.resolve_left (by simp [Callbacks.stateLeft]), hcurrent.1]
  · rw [hflags.resolve_left (by simp [Callbacks.flagsLeft]), hcurrent.2]

theorem step_registerToControl {a : RegisterArgs} {b : Backend} {session : Session}
    {code : ResultCode} (h : w.worker.session.registerToControl a b = (.returned code, session)) :
    w.step (.registerToControl a b) = some { w with worker := { w.worker with session } } := by
  rw [step, h]

/-- A session that is registered while the worker runs its io context: the listener is told. -/
theorem reported_of_enter_running :
    ∃ ls w w', exec step {} ls = some w ∧ w.step (.worker .enter) = some w' ∧
      w.worker.session.state = .connectedControl ∧ w.Reported := by
  have hvalid : (⟨1, [], none⟩ : RegisterArgs).Valid 1 := by decide
  have hcall := registerToControl_granting (s := { sessionId := 1, isRunning := true }) hvalid rfl
  have hbefore : exec step {} [.worker (.addListener 0), .worker (.openSession none), .worker .take,
      .worker (.openSession (some 1)), .worker .publish, .callback, .callback, .worker .take,
      .worker .check, .worker .enter] = some
        { worker := {
            place := .running
            activeSession := true
            session := { sessionId := 1, isRunning := true }
            listeners := [0] }
          prevSessionState := .connectedMonitor
          toldState := Function.update (fun _ => none) 0 (some .connectedMonitor) } := rfl
  have hrun := exec_append.mpr ⟨_, hbefore, exec_cons.mpr ⟨_, step_registerToControl hcall,
    (rfl : exec step _ [.worker .leave, .compareState, .callback, .callback, .worker .handle,
      .compareFlags, .callback, .callback, .worker .take, .worker .check] = some _)⟩⟩
  have hnew : ∀ l ∈ [0], l ∈ [0] := fun _ hl => hl
  refine ⟨_, _, _, hrun, rfl, rfl, reported_of_enter ((meets_append hbefore).mpr
    ⟨?_, .cons (step_registerToControl hcall) (fun hex => hex.2.2.elim) ?_⟩) hrun rfl⟩
  · exact .cons rfl trivial <| .cons rfl trivial <| .cons rfl (fun h => by cases h) <|
      .cons rfl trivial <| .cons rfl trivial <| .cons rfl trivial <| .cons rfl trivial <|
      .cons rfl (fun _ _ _ => hnew) <| .cons rfl trivial <| .cons rfl trivial trivial
  · exact .cons rfl trivial <| .cons rfl trivial <| .cons rfl trivial <| .cons rfl trivial <|
      .cons rfl trivial <| .cons rfl trivial <| .cons rfl trivial <| .cons rfl trivial <|
      .cons rfl (fun _ _ _ => hnew) <| .cons rfl trivial trivial

/-- A listener registers when it is told that the session is open, and the worker goes on to run the
io context without telling it that the session is registered. -/
theorem not_reported : ¬ ∀ (ls : List ReportStep) (w w' : Reporter), exec step {} ls = some w →
    w.step (.worker .enter) = some w' → w.Reported := by
  intro h
  have hvalid : (⟨1, [], none⟩ : RegisterArgs).Valid 1 := by decide
  have hcall := registerToControl_granting (s := { sessionId := 1 }) hvalid rfl
  have hbefore : exec step {} [.worker (.addListener 0), .worker (.openSession none), .worker .take,
      .worker (.openSession (some 1)), .worker .publish, .callback] = some
        { worker := {
            place := .taking true
            activeSession := true
            session := { sessionId := 1 }
            listeners := [0] }
          callbacks := .sessionStateChanged .connectedMonitor []
          prevSessionState := .connectedMonitor
          toldState := Function.update (fun _ => none) 0 (some .connectedMonitor) } := rfl
  have hrun := exec_append.mpr ⟨_, hbefore, exec_cons.mpr ⟨_, step_registerToControl hcall,
    (rfl : exec step _ [.callback, .worker .take, .worker .check] = some _)⟩⟩
  have hreported := h _ _ _ hrun rfl
  cases (hreported 0 List.mem_cons_self).1

end

end Reporter

end ScApi
