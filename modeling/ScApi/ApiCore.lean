import ScApi.SessionHeader
import ScApi.SessionRuns

/-!
# One session at a time

An `ApiCore` refuses to open a session by a state of its own, `session_state_`, which nothing ever
sets. So it opens a second session over the first one: `active_session_` then points to the new
session, and the first one stays open for whoever holds a handle to it.

Sessions are named by the order in which they are opened. A session lives as long as
`active_session_` or a handle refers to it; all handles, those in events included, are one flag here,
and its destructor is a call of `close`.

## Main results

* `tryOpeningSession_ne_invalidState`: only the guard itself refuses because of the state.
* `step_single`: what a step that meets the condition keeps.
* `refuses_iff`: in which runs every call over an open session is refused; in these at most one
  session is open.
-/

namespace ScApi

open Runs Bytes BoundedRead

/-! ### Opening -/

/-- How `openCoreShmHandle` ends. -/
inductive CoreShm where
  | notOpened
  | incompatible
  | opened
  deriving DecidableEq, Repr

/-- One turn of the loop of `openSession`. -/
inductive CopyTurn where
  | busy
  /-- The shared memory of the session cannot be opened, or is not that of an active session. -/
  | refused
  /-- The shared memory of an active session, and so its copy, too. -/
  | copied (mem : List UInt8)
  deriving DecidableEq, Repr

/-- What a call of `openSession` meets. -/
structure OpenAttempt where
  coreShm : CoreShm
  /-- The turns there is time for. -/
  turns : List CopyTurn
  /-- The session that the core block names. -/
  coreSessionId : ℕ
  openForReadOnly : List UInt8 → ℕ → Bool

/-- How a call of `openSession` ends. -/
inductive OpenEnd where
  | returned (code : ResultCode)
  | undefinedBehaviour
  deriving DecidableEq, Repr

/-- The loop of `openSession`. -/
def copySession : List CopyTurn → Except ResultCode (List UInt8)
  | [] => .error .errorTimeout
  | .busy :: turns => copySession turns
  | .refused :: _ => .error .errorCannotConnect
  | .copied mem :: _ => .ok mem

/-- What `openSession` does behind its guard, up to the new session. -/
def OpenAttempt.handshake (a : OpenAttempt) : Read (Except ResultCode SessionHandles) :=
  match a.coreShm with
  | .notOpened => pure (.error .errorCannotConnect)
  | .incompatible => pure (.error .errorIncompatible)
  | .opened =>
      match copySession a.turns with
      | .error code => pure (.error code)
      | .ok mem => tryOpeningSession a.coreSessionId a.openForReadOnly mem

/-- A session that has been opened, and whether there is a handle to it. -/
structure OpenedSession where
  session : Session
  held : Bool
  deriving DecidableEq, Repr

/-- The state of an `ApiCore::Impl`, with all sessions that it has opened. -/
structure ApiCore where
  /-- `session_state_`. -/
  sessionState : SessionState := .invalid
  /-- `active_session_`. -/
  activeSession : Option ℕ := none
  sessions : List OpenedSession := []
  deriving DecidableEq, Repr

theorem copySession_ne_invalidState (turns : List CopyTurn) :
    copySession turns ≠ .error .errorInvalidSessionState := by
  induction turns with
  | nil => exact fun h => absurd (Except.error.inj h) (by decide)
  | cons turn turns ih =>
      cases turn with
      | busy => exact ih
      | refused => exact fun h => absurd (Except.error.inj h) (by decide)
      | copied mem => nofun

section

variable {coreSessionId : ℕ} {openForReadOnly : List UInt8 → ℕ → Bool} {mem : List UInt8}

theorem openSelected_ne_invalidState {selected : List ℤ} :
    openSelected coreSessionId openForReadOnly mem selected
      ≠ .ok (.error .errorInvalidSessionState) := by
  intro h
  rw [openSelected] at h
  obtain ⟨sessionId, -, h⟩ := bind_eq_ok.mp h
  split_ifs at h
  · exact absurd (Except.error.inj (Except.ok.inj h)) (by decide)
  obtain ⟨plaintext, -, h⟩ := bind_eq_ok.mp h
  obtain ⟨encrypted, -, h⟩ := bind_eq_ok.mp h
  obtain ⟨opts, hopts, h⟩ := bind_eq_ok.mp h
  cases opts with
  | error code =>
      obtain ⟨keys, -, hopts⟩ := bind_eq_ok.mp hopts
      cases keys with
      | none =>
          obtain rfl := Except.error.inj (Except.ok.inj hopts)
          exact absurd (Except.error.inj (Except.ok.inj h)) (by decide)
      | some keys =>
          obtain ⟨sessionId', -, hopts⟩ := bind_eq_ok.mp hopts
          cases Except.ok.inj hopts
  | ok opts =>
      obtain ⟨opened, -, h⟩ := bind_eq_ok.mp h
      split_ifs at h
      · obtain ⟨sessionId', -, h⟩ := bind_eq_ok.mp h
        cases Except.ok.inj h
      · exact absurd (Except.error.inj (Except.ok.inj h)) (by decide)

theorem tryOpeningSession_ne_invalidState :
    tryOpeningSession coreSessionId openForReadOnly mem
      ≠ .ok (.error .errorInvalidSessionState) := by
  intro h
  rw [tryOpeningSession] at h
  obtain ⟨version, -, h⟩ := bind_eq_ok.mp h
  split_ifs at h
  · exact absurd (Except.error.inj (Except.ok.inj h)) (by decide)
  obtain ⟨small, -, h⟩ := bind_eq_ok.mp h
  split_ifs at h
  · exact absurd (Except.error.inj (Except.ok.inj h)) (by decide)
  obtain ⟨refs, -, h⟩ := bind_eq_ok.mp h
  cases refs with
  | none => exact absurd (Except.error.inj (Except.ok.inj h)) (by decide)
  | some refs =>
      obtain ⟨selected, -, h⟩ := bind_eq_ok.mp h
      cases selected with
      | none => exact absurd (Except.error.inj (Except.ok.inj h)) (by decide)
      | some selected => exact openSelected_ne_invalidState h

end

namespace ApiCore

/-- The session of a name. -/
def session? (c : ApiCore) (i : ℕ) : Option Session :=
  (c.sessions[i]?).map (·.session)

/-- The session of a name, if there is a handle to it. -/
def held? (c : ApiCore) (i : ℕ) : Option OpenedSession :=
  (c.sessions[i]?).filter (·.held)

/-- A new session becomes the active one, and the caller gets a handle to it. -/
def activate (handles : SessionHandles) (c : ApiCore) : ApiCore :=
  { c with
    activeSession := some c.sessions.length
    sessions := c.sessions ++ [⟨{ sessionId := UInt32.ofNat handles.sessionId }, true⟩] }

/-- No handle refers to the active session, so that it is destroyed when it is replaced. -/
def activeUnheld (c : ApiCore) : Bool :=
  c.activeSession.any fun i => c.sessions[i]?.any (!·.held)

/-- `ApiCore::openSession`. The destructor of the session that is replaced would take the mutex of
the core, which is held. -/
def openSession (a : OpenAttempt) (c : ApiCore) : OpenEnd × ApiCore :=
  if c.sessionState ≠ .invalid then
    (.returned .errorInvalidSessionState, c)
  else
    match a.handshake with
    | .error _ => (.undefinedBehaviour, c)
    | .ok (.error code) => (.returned code, c)
    | .ok (.ok handles) =>
        if c.activeUnheld then
          (.undefinedBehaviour, c)
        else
          (.returned .ok, c.activate handles)

/-- `ApiCore::Impl::sessionClosed`. -/
def sessionClosed (i : ℕ) (c : ApiCore) : ApiCore :=
  if c.activeSession = some i then { c with activeSession := none } else c

/-- The session of a name is changed. -/
def put (i : ℕ) (o : OpenedSession) (c : ApiCore) : ApiCore :=
  { c with sessions := c.sessions.set i o }

/-- `Session::close`. -/
def close (i : ℕ) (o : OpenedSession) (c : ApiCore) : ApiCore :=
  let c' := c.put i { o with session := o.session.close.2 }
  if o.session.state ≠ .invalid ∧ o.session.api then c'.sessionClosed i else c'

/-- What can happen to a core and its sessions. -/
inductive Step where
  | openSession (a : OpenAttempt)
  | getOpenSession
  /-- The last handle to a session is given up. -/
  | giveUp (i : ℕ)
  | close (i : ℕ)
  | registerToControl (i : ℕ) (a : RegisterArgs) (b : Backend)
  | disconnected (i : ℕ)

/-- One step. A call without defined behaviour has no next state, and neither has a call on a session
without a handle. -/
def step (c : ApiCore) : Step → Option ApiCore
  | .openSession a =>
      match c.openSession a with
      | (.returned _, c') => some c'
      | (.undefinedBehaviour, _) => none
  | .getOpenSession =>
      match c.activeSession with
      | none => some c
      | some i => (c.sessions[i]?).map fun o => c.put i { o with held := true }
  | .giveUp i => (c.held? i).map fun o =>
      if c.activeSession = some i then
        c.put i { o with held := false }
      else
        c.close i { o with held := false }
  | .close i => (c.held? i).map fun o => c.close i o
  | .registerToControl i a b => do
      let o ← c.held? i
      match o.session.registerToControl a b with
      | (.undefinedBehaviour, _) => none
      | (.returned _, session) | (.threw, session) => some (c.put i { o with session })
  | .disconnected i => (c.held? i).map fun o =>
      c.put i { o with session := o.session.disconnected }

/-- A call of `openSession` over an open session returns `error_invalid_session_state` and changes
nothing. -/
def Refuses (c : ApiCore) : Step → Prop
  | .openSession a =>
      c.activeSession ≠ none → c.openSession a = (.returned .errorInvalidSessionState, c)
  | _ => True

/-- The condition on a step: `openSession` is not called while `active_session_` is set. -/
def Guarded (c : ApiCore) : Step → Prop
  | .openSession _ => c.activeSession = none
  | _ => True

/-- No session is opened while `active_session_` is set. -/
def OpensAlone (c : ApiCore) : Step → Prop
  | .openSession a => c.activeSession ≠ none → ∀ handles, a.handshake ≠ .ok (.ok handles)
  | _ => True

/-- A session that is closed stays closed: no registration is accepted on it, and it is not told that
its connection is lost. -/
def KeepsClosed (c : ApiCore) : Step → Prop
  | .registerToControl i a b => ∀ s ∈ c.session? i, s.state = .invalid → ¬ Session.Accepts a b s
  | .disconnected i => ∀ s ∈ c.session? i, s.state ≠ .invalid
  | _ => True

/-- At most one session is not in state `invalid`. -/
def AtMostOne (c : ApiCore) : Prop :=
  ∀ i j s t, c.session? i = some s → c.session? j = some t →
    s.state ≠ .invalid → t.state ≠ .invalid → i = j

/-- At most one session is open after the step. -/
def LeavesOne (c : ApiCore) (l : Step) : Prop :=
  ∀ c', c.step l = some c' → c'.AtMostOne

/-! ### Refusals -/

/-- **The state of the session is no reason to refuse** for what is behind the guard. -/
theorem handshake_ne_invalidState (a : OpenAttempt) :
    a.handshake ≠ .ok (.error .errorInvalidSessionState) := by
  intro h
  rw [OpenAttempt.handshake] at h
  split at h
  · exact absurd h (by decide)
  · exact absurd h (by decide)
  · split at h
    · rename_i code hcode
      obtain rfl := Except.error.inj (Except.ok.inj h)
      exact copySession_ne_invalidState a.turns hcode
    · exact tryOpeningSession_ne_invalidState h

/-! ### The invariant -/

/-- Whatever is open is the active session. -/
structure Single (c : ApiCore) : Prop where
  sessionState : c.sessionState = .invalid
  active : ∀ i, c.activeSession = some i →
    ∃ s, c.session? i = some s ∧ s.state ≠ .invalid ∧ s.api = true
  live : ∀ i s, c.session? i = some s → s.state ≠ .invalid → c.activeSession = some i

theorem Single.atMostOne {c : ApiCore} (h : c.Single) : c.AtMostOne := by
  intro i j s t hi hj hs ht
  exact Option.some.inj ((h.live i s hi hs).symm.trans (h.live j t hj ht))

theorem single_start : Single {} where
  sessionState := rfl
  active := nofun
  live := by
    intro i s h
    simp [session?] at h

/-- The session of a name after another one was changed, or this one. -/
theorem session?_put (c : ApiCore) {i : ℕ} {o o' : OpenedSession} (h : c.sessions[i]? = some o)
    (j : ℕ) : (c.put i o').session? j = if j = i then some o'.session else c.session? j := by
  obtain ⟨hlt, -⟩ := List.getElem?_eq_some_iff.mp h
  rw [session?, put]
  by_cases hj : j = i
  · subst hj
    rw [if_pos rfl, List.getElem?_set_self hlt, Option.map_some]
  · rw [if_neg hj, List.getElem?_set_ne (Ne.symm hj), session?]

theorem held?_eq_some {c : ApiCore} {i : ℕ} {o : OpenedSession} (h : c.held? i = some o) :
    c.sessions[i]? = some o ∧ c.session? i = some o.session := by
  rw [held?, Option.filter_eq_some_iff] at h
  exact ⟨h.1, by rw [session?, h.1, Option.map_some]⟩

variable {c c' : ApiCore} {i : ℕ} {o o' : OpenedSession}

/-- A change that keeps whether the session is open. -/
theorem Single.put (h : c.Single) (hi : c.sessions[i]? = some o)
    (hstate : o'.session.state = .invalid ↔ o.session.state = .invalid)
    (hapi : o'.session.api = o.session.api) : (c.put i o').Single := by
  have hsession : c.session? i = some o.session := by rw [session?, hi, Option.map_some]
  refine ⟨h.sessionState, fun j hj => ?_, fun j s hs hopen => ?_⟩
  · obtain ⟨s, hs, hopen, hs'⟩ := h.active j hj
    rw [session?_put c hi]
    by_cases hji : j = i
    · subst hji
      obtain rfl := Option.some.inj (hsession.symm.trans hs)
      exact ⟨o'.session, if_pos rfl, fun h' => hopen (hstate.mp h'), hapi.trans hs'⟩
    · exact ⟨s, by rw [if_neg hji, hs], hopen, hs'⟩
  · rw [session?_put c hi] at hs
    by_cases hji : j = i
    · subst hji
      rw [if_pos rfl] at hs
      obtain rfl := Option.some.inj hs
      exact h.live j _ hsession fun h' => hopen (hstate.mpr h')
    · rw [if_neg hji] at hs
      exact h.live j s hs hopen

/-- Closing a session. -/
theorem Single.close (h : c.Single) (hi : c.sessions[i]? = some o)
    (ho : o'.session = o.session) : (c.close i o').Single := by
  have hsession : c.session? i = some o.session := by rw [session?, hi, Option.map_some]
  rw [ApiCore.close, ho]
  by_cases hopen : o.session.state = .invalid
  · rw [if_neg fun h' => h'.1 hopen]
    refine h.put hi ?_ ?_ <;> rw [Session.close, if_pos hopen]
  · have hactive := h.live i _ hsession hopen
    obtain ⟨s, hs, -, hapi⟩ := h.active i hactive
    obtain rfl := Option.some.inj (hsession.symm.trans hs)
    have hclosed : o.session.close.2.state = .invalid := by rw [Session.close, if_neg hopen]
    rw [if_pos ⟨hopen, hapi⟩, sessionClosed]
    have hput : (c.put i { o' with session := o.session.close.2 }).activeSession = some i := hactive
    rw [if_pos hput]
    refine ⟨h.sessionState, fun j hj => absurd hj.symm (Option.some_ne_none _), fun j s hs hopen' => ?_⟩
    have hs' : (c.put i { o' with session := o.session.close.2 }).session? j = some s := hs
    rw [session?_put c hi] at hs'
    by_cases hji : j = i
    · rw [if_pos hji] at hs'
      obtain rfl := Option.some.inj hs'
      exact absurd hclosed hopen'
    · -- no other session was open
      rw [if_neg hji] at hs'
      exact absurd (Option.some.inj ((h.live j s hs' hopen').symm.trans hactive)) hji

theorem session?_activate (c : ApiCore) (handles : SessionHandles) (j : ℕ) :
    (c.activate handles).session? j =
      if j = c.sessions.length then some { sessionId := UInt32.ofNat handles.sessionId }
      else c.session? j := by
  rw [session?, ApiCore.activate]
  dsimp only
  rcases lt_trichotomy j c.sessions.length with hlt | rfl | hgt
  · rw [List.getElem?_append_left hlt, if_neg (Nat.ne_of_lt hlt), session?]
  · rw [List.getElem?_concat_length, if_pos rfl, Option.map_some]
  · rw [List.getElem?_eq_none (by simp; omega), if_neg (Nat.ne_of_gt hgt), session?,
      List.getElem?_eq_none (by omega)]

/-- Opening a session when none is open. -/
theorem Single.activate (h : c.Single) (hnone : c.activeSession = none)
    (handles : SessionHandles) : (c.activate handles).Single := by
  refine ⟨h.sessionState, fun j hj => ?_, fun j s hs hopen => ?_⟩
  · obtain rfl : c.sessions.length = j := Option.some.inj hj
    refine ⟨{ sessionId := UInt32.ofNat handles.sessionId }, ?_, ?_, rfl⟩
    · rw [session?_activate, if_pos rfl]
    · exact fun hinvalid => SessionState.noConfusion hinvalid
  · rw [session?_activate] at hs
    by_cases hj : j = c.sessions.length
    · rw [hj]
      rfl
    · rw [if_neg hj] at hs
      have hactive := h.live j s hs hopen
      rw [hnone] at hactive
      cases hactive

/-- Opening a session over another one. -/
theorem Single.not_atMostOne_activate (h : c.Single) (hactive : c.activeSession ≠ none)
    (handles : SessionHandles) : ¬ (c.activate handles).AtMostOne := by
  intro hone
  obtain ⟨i, hi⟩ := Option.ne_none_iff_exists'.mp hactive
  obtain ⟨s, hs, hopen, -⟩ := h.active i hi
  have hlt : i < c.sessions.length := by
    obtain ⟨o, ho, -⟩ := Option.map_eq_some_iff.mp hs
    exact (List.getElem?_eq_some_iff.mp ho).1
  have hold : (c.activate handles).session? i = some s := by
    rw [session?_activate, if_neg (Nat.ne_of_lt hlt), hs]
  have hnew : (c.activate handles).session? c.sessions.length
      = some { sessionId := UInt32.ofNat handles.sessionId } := by
    rw [session?_activate, if_pos rfl]
  have hi : i = c.sessions.length :=
    hone _ _ _ _ hold hnew hopen fun hinvalid => SessionState.noConfusion hinvalid
  omega

/-- How a call of `openSession` goes while `session_state_` is `invalid`. -/
theorem openSession_cases {a : OpenAttempt} {e : OpenEnd} (hstate : c.sessionState = .invalid)
    (h : c.openSession a = (e, c')) :
    (e = .undefinedBehaviour ∧ c' = c) ∨
      (∃ code, a.handshake = .ok (.error code) ∧ e = .returned code ∧ c' = c) ∨
      ∃ handles, a.handshake = .ok (.ok handles) ∧ e = .returned .ok ∧ c' = c.activate handles := by
  rw [openSession, if_neg (not_not_intro hstate)] at h
  split at h
  · exact .inl ⟨(congrArg Prod.fst h).symm, (congrArg Prod.snd h).symm⟩
  · rename_i code hcode
    exact .inr (.inl ⟨code, hcode, (congrArg Prod.fst h).symm, (congrArg Prod.snd h).symm⟩)
  · rename_i handles hhandles
    split_ifs at h
    · exact .inl ⟨(congrArg Prod.fst h).symm, (congrArg Prod.snd h).symm⟩
    · exact .inr (.inr ⟨handles, hhandles, (congrArg Prod.fst h).symm, (congrArg Prod.snd h).symm⟩)

theorem state_disconnected (s : Session) : s.disconnected.state = .sessionLost := rfl

/-- What a registration leaves of an open session. -/
theorem open_registerToControl {a : RegisterArgs} {b : Backend} {s s' : Session} {e : RegisterEnd}
    (h : s.registerToControl a b = (e, s'))
    (hclosed : s.state = .invalid → ¬ Session.Accepts a b s) :
    (s'.state = .invalid ↔ s.state = .invalid) ∧ s'.api = s.api := by
  have hapi : s'.api = s.api := by
    cases Session.registerToControl_cases h <;> rfl
  refine ⟨?_, hapi⟩
  have hstate := SharedSession.state_registerToControl a b s
  rw [h] at hstate
  rcases hstate with ⟨haccepts, hcontrol⟩ | ⟨-, hsame⟩
  · have hopen : s.state ≠ .invalid := fun hs => hclosed hs haccepts
    dsimp only at hcontrol
    rw [hcontrol]
    exact iff_of_false (by decide) hopen
  · exact (congrArg (· = SessionState.invalid) hsame).to_iff

/-- **What a step keeps**, if it meets the condition. -/
theorem step_single {l : Step} (h : c.Single) (halone : c.OpensAlone l) (hclosed : c.KeepsClosed l)
    (hstep : c.step l = some c') : c'.Single := by
  cases l with
  | openSession a =>
      rw [step] at hstep
      split at hstep
      · rename_i code c₁ hopen
        obtain rfl := Option.some.inj hstep
        rcases openSession_cases h.sessionState hopen with
          ⟨-, rfl⟩ | ⟨_, -, -, rfl⟩ | ⟨handles, hhandles, -, rfl⟩
        · exact h
        · exact h
        · exact h.activate (not_not.mp fun hactive => halone hactive handles hhandles) handles
      · cases hstep
  | getOpenSession =>
      rw [step] at hstep
      split at hstep
      · exact Option.some.inj hstep ▸ h
      · obtain ⟨o, ho, rfl⟩ := Option.map_eq_some_iff.mp hstep
        exact h.put ho Iff.rfl rfl
  | giveUp i =>
      obtain ⟨o, ho, rfl⟩ := Option.map_eq_some_iff.mp hstep
      obtain ⟨ho, -⟩ := held?_eq_some ho
      split_ifs
      · exact h.put ho Iff.rfl rfl
      · exact h.close ho rfl
  | close i =>
      obtain ⟨o, ho, rfl⟩ := Option.map_eq_some_iff.mp hstep
      exact h.close (held?_eq_some ho).1 rfl
  | registerToControl i a b =>
      obtain ⟨o, ho, hstep⟩ := Option.bind_eq_some_iff.mp hstep
      obtain ⟨ho, hsession⟩ := held?_eq_some ho
      split at hstep
      · cases hstep
      all_goals
        rename_i hcall
        obtain ⟨hstate, hapi⟩ := open_registerToControl hcall (hclosed o.session hsession)
        obtain rfl := Option.some.inj hstep
        exact h.put ho hstate hapi
  | disconnected i =>
      obtain ⟨o, ho, rfl⟩ := Option.map_eq_some_iff.mp hstep
      obtain ⟨ho, hsession⟩ := held?_eq_some ho
      refine h.put ho (iff_of_false ?_ (hclosed o.session hsession)) rfl
      rw [state_disconnected]
      decide

theorem sessionState_close (c : ApiCore) (i : ℕ) (o : OpenedSession) :
    (c.close i o).sessionState = c.sessionState := by
  rw [close, sessionClosed]
  split_ifs <;> rfl

/-- **Nothing sets `session_state_`.** -/
theorem sessionState_step {l : Step} (hstate : c.sessionState = .invalid)
    (hstep : c.step l = some c') : c'.sessionState = .invalid := by
  cases l with
  | openSession a =>
      rw [step] at hstep
      split at hstep
      · rename_i code c₁ hopen
        obtain rfl := Option.some.inj hstep
        rcases openSession_cases hstate hopen with
          ⟨-, rfl⟩ | ⟨_, -, -, rfl⟩ | ⟨handles, -, -, rfl⟩ <;>
          exact hstate
      · cases hstep
  | getOpenSession =>
      rw [step] at hstep
      split at hstep
      · exact Option.some.inj hstep ▸ hstate
      · obtain ⟨o, -, rfl⟩ := Option.map_eq_some_iff.mp hstep
        exact hstate
  | giveUp i =>
      obtain ⟨o, -, rfl⟩ := Option.map_eq_some_iff.mp hstep
      split_ifs
      · exact hstate
      · rw [sessionState_close, hstate]
  | close i =>
      obtain ⟨o, -, rfl⟩ := Option.map_eq_some_iff.mp hstep
      rw [sessionState_close, hstate]
  | registerToControl i a b =>
      obtain ⟨o, -, hstep⟩ := Option.bind_eq_some_iff.mp hstep
      split at hstep
      · cases hstep
      all_goals exact Option.some.inj hstep ▸ hstate
  | disconnected i =>
      obtain ⟨o, -, rfl⟩ := Option.map_eq_some_iff.mp hstep
      exact hstate

/-- **Which steps refuse** to open a second session: exactly those that do not try. -/
theorem refuses_iff_guarded {l : Step} (hstate : c.sessionState = .invalid) :
    c.Refuses l ↔ c.Guarded l := by
  cases l with
  | openSession a =>
      rw [Refuses, Guarded]
      constructor
      · intro hrefuses
        by_contra hactive
        obtain ⟨he, -⟩ | ⟨code, hcode, he, -⟩ | ⟨handles, -, he, -⟩ :=
          openSession_cases hstate (hrefuses hactive)
        · cases he
        · obtain rfl := OpenEnd.returned.inj he
          exact handshake_ne_invalidState a hcode
        · exact absurd (OpenEnd.returned.inj he) (by decide)
      · exact fun hnone hactive => absurd hnone hactive
  | _ => exact Iff.rfl

/-- **Which steps leave at most one session open.** -/
theorem leavesOne_iff_opensAlone {l : Step} (h : c.Single) (hclosed : c.KeepsClosed l)
    (hstep : c.step l = some c') : c.LeavesOne l ↔ c.OpensAlone l := by
  constructor
  · intro hone
    cases l with
    | openSession a =>
        intro hactive handles hhandles
        rw [step, openSession, if_neg (not_not_intro h.sessionState), hhandles] at hstep
        dsimp only at hstep
        split_ifs at hstep with hunheld
        have hopen : c.step (.openSession a) = some (c.activate handles) := by
          rw [step, openSession, if_neg (not_not_intro h.sessionState), hhandles]
          dsimp only
          rw [if_neg hunheld]
        exact h.not_atMostOne_activate hactive handles (hone _ hopen)
    | _ => exact trivial
  · intro halone c₁ hstep₁
    exact (step_single h halone hclosed hstep₁).atMostOne

/-- **Every call of `openSession` over an open session is refused** exactly in the runs without such
a call. As long as closed sessions stay closed, at most one session is open all the time exactly when
no such call succeeds. -/
theorem refuses_iff {ls : List Step} (h : exec step {} ls = some c) :
    (Meets step Refuses {} ls ↔ Meets step Guarded {} ls) ∧
      (Meets step KeepsClosed {} ls →
        (Meets step LeavesOne {} ls ↔ Meets step OpensAlone {} ls)) := by
  refine ⟨?_, fun hclosed => ?_⟩
  · exact meets_iff_meets (I := fun c => c.sessionState = .invalid)
      (fun hstate _ _ => refuses_iff_guarded hstate)
      (fun hstate _ _ hstep => sessionState_step hstate hstep) rfl h (meets_true _ _)
  · exact meets_iff_meets leavesOne_iff_opensAlone
      (fun hsingle halone hclosed hstep => step_single hsingle halone hclosed hstep)
      single_start h hclosed

/-- The shared memory of session 1, which is active, with a reference to each block that is required. -/
def sessionCopy : List UInt8 :=
  toLe 4 0 ++ toLe 4 1 ++ toLe 4 1 ++ toLe 4 0 ++ toLe 4 520 ++ List.replicate 74 0
    ++ toLe 2 4096 ++ toLe 2 1400 ++ List.replicate 18 0 ++ toLe 2 5 ++ toLe 2 76 ++ toLe 4 140
    ++ List.replicate 16 0
    ++ requiredShmRefs.flatMap fun req =>
      toLe 4 req.id ++ toLe 4 req.version.toNat ++ toLe 4 0 ++ List.replicate 64 0

/-- A backend that a session can be opened with. -/
def goodAttempt : OpenAttempt :=
  ⟨.opened, [.busy, .copied sessionCopy], 1, fun _ _ => true⟩

/-- The core after some steps. -/
def after (ls : List Step) : ApiCore :=
  (exec step {} ls).getD {}

theorem refuses_iff_reopened :
    Meets step Refuses {} [.openSession goodAttempt, .close 0, .openSession goodAttempt] ∧
      Meets step LeavesOne {} [.openSession goodAttempt, .close 0, .openSession goodAttempt] := by
  have hrun : exec step {} [.openSession goodAttempt, .close 0, .openSession goodAttempt]
      = some (after [.openSession goodAttempt, .close 0, .openSession goodAttempt]) := by
    decide +kernel
  have hopen : ({} : ApiCore).step (.openSession goodAttempt)
      = some (after [.openSession goodAttempt]) := by decide +kernel
  have hclose : (after [.openSession goodAttempt]).step (.close 0)
      = some (after [.openSession goodAttempt, .close 0]) := by decide +kernel
  have hnone : (after [.openSession goodAttempt, .close 0]).activeSession = none := by decide +kernel
  obtain ⟨hrefuses, hone⟩ := refuses_iff hrun
  refine ⟨hrefuses.mpr ?_, (hone ?_).mpr ?_⟩
  · exact .cons hopen rfl (.cons hclose trivial ⟨hnone, fun _ _ => trivial⟩)
  · exact .cons hopen trivial (.cons hclose trivial ⟨trivial, fun _ _ => trivial⟩)
  · exact .cons hopen (fun hactive => absurd rfl hactive)
      (.cons hclose trivial ⟨fun hactive => absurd hnone hactive, fun _ _ => trivial⟩)

/-- **A second session is opened over the first one**, and both are connected. -/
theorem not_refuses :
    ¬ ∀ (ls : List Step) (c : ApiCore), exec step {} ls = some c →
      (c.activeSession ≠ none →
        ∀ a, c.openSession a = (.returned .errorInvalidSessionState, c)) ∧ c.AtMostOne := by
  intro h
  have hrun : exec step {} [.openSession goodAttempt, .openSession goodAttempt]
      = some (after [.openSession goodAttempt, .openSession goodAttempt]) := by decide +kernel
  obtain ⟨-, hone⟩ := h _ _ hrun
  have hsame := hone 0 1 { sessionId := 1 } { sessionId := 1 } (by decide +kernel) (by decide +kernel)
    (by decide) (by decide)
  exact absurd hsame (by decide)

end ApiCore

end ScApi
