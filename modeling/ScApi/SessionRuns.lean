import ScApi.Lib.Runs
import ScApi.Register

/-!
# The states of a session over time

Registration, the periodic update, the loss of the connection and `close` come from several threads.
Each takes the mutex of the session, so a run is a sequence of sections under the mutex; a periodic
update that finds the session dead and a lost connection end in a call of `disconnected` that takes
the mutex again, so other sections can come between.

## Main results

* `step_final_iff`: which steps take a session out of a final state.
* `final_iff`: in which runs a session that is lost or closed stays so.
-/

namespace ScApi

open Runs

/-- A session, and the number of threads that are about to call `disconnected` on it. -/
structure SharedSession where
  session : Session
  disconnecting : ℕ
  deriving DecidableEq, Repr

/-- A section under the mutex of the session, or the begin of the handler that ends the
connection. -/
inductive SessionStep where
  | registerToControl (a : RegisterArgs) (b : Backend)
  | periodicUpdate (expired : Bool)
  | connectionLost
  | disconnected
  | close

namespace SharedSession

/-- A session as it is constructed. -/
def opened (sessionId : UInt32) : SharedSession :=
  ⟨{ sessionId }, 0⟩

/-- The handler of a read that fails because the backend has closed the connection, up to its call
of `disconnected`. It does not take the mutex of the session. -/
def connectionLost (w : SharedSession) : SharedSession :=
  { session := { w.session with
      mainSocketOpen := false
      receiver := { w.session.receiver with receivingInProgress := false } }
    disconnecting := w.disconnecting + 1 }

/-- One step of a session. A call without defined behaviour has no next state. -/
def step (w : SharedSession) : SessionStep → Option SharedSession
  | .registerToControl a b =>
      match w.session.registerToControl a b with
      | (.undefinedBehaviour, _) => none
      | (.returned _, s) | (.threw, s) => some { w with session := s }
  | .periodicUpdate expired =>
      match w.session.periodicUpdate expired with
      | .disconnect => some { w with disconnecting := w.disconnecting + 1 }
      | .goOn | .stop => some w
  | .connectionLost =>
      if w.session.receiver.receivingInProgress then some w.connectionLost else none
  | .disconnected =>
      if 0 < w.disconnecting then
        some ⟨w.session.disconnected, w.disconnecting - 1⟩
      else
        none
  | .close => some { w with session := w.session.close.2 }

/-- The session is lost or closed. -/
def Ended (w : SharedSession) : Prop :=
  w.session.state = .sessionLost ∨ w.session.state = .invalid

/-- What a session in one state allows a later state to be: one that is lost or closed is never
connected again, and one that is closed stays closed. -/
def Final (v w : SharedSession) : Prop :=
  (v.Ended → w.session.state ≠ .connectedMonitor ∧ w.session.state ≠ .connectedControl) ∧
    (v.session.state = .invalid → w.session.state = .invalid)

/-- The condition on a step: no registration is accepted when the session is lost or closed, and
`disconnected` is not called on a closed session. -/
def Guarded (w : SharedSession) : SessionStep → Prop
  | .registerToControl a b => Session.Accepts a b w.session → ¬ w.Ended
  | .disconnected => 0 < w.disconnecting → w.session.state ≠ .invalid
  | .periodicUpdate _ | .connectionLost | .close => True

theorem not_connected_iff_ended (w : SharedSession) :
    (w.session.state ≠ .connectedMonitor ∧ w.session.state ≠ .connectedControl) ↔ w.Ended := by
  rw [Ended]
  cases w.session.state <;> decide

theorem final_iff_ended {v w : SharedSession} :
    Final v w ↔ (v.Ended → w.Ended) ∧ (v.session.state = .invalid → w.session.state = .invalid) := by
  rw [Final, not_connected_iff_ended]

theorem Final.refl (w : SharedSession) : Final w w :=
  final_iff_ended.mpr ⟨id, id⟩

theorem Final.trans {u v w : SharedSession} (h : Final u v) (h' : Final v w) : Final u w := by
  rw [final_iff_ended] at h h' ⊢
  exact ⟨h'.1 ∘ h.1, h'.2 ∘ h.2⟩

/-- A step that keeps the state is harmless. -/
theorem final_of_state_eq {v w : SharedSession} (h : w.session.state = v.session.state) :
    Final v w := by
  rw [final_iff_ended, Ended, Ended, h]
  exact ⟨id, id⟩

/-- A registration changes the state exactly when it is accepted. -/
theorem state_registerToControl (a : RegisterArgs) (b : Backend) (s : Session) :
    Session.Accepts a b s ∧ (s.registerToControl a b).2.state = .connectedControl ∨
      ¬ Session.Accepts a b s ∧ (s.registerToControl a b).2.state = s.state := by
  obtain ⟨e, s', h⟩ : ∃ e s', s.registerToControl a b = (e, s') := ⟨_, _, rfl⟩
  have hok := Session.registerToControl_ok_iff (a := a) (b := b) (s := s)
  rw [h] at hok ⊢
  rw [← hok]
  cases Session.registerToControl_cases h with
  | rejected => exact Or.inr ⟨by simp [ResultCode.errorInvalidArgument, ResultCode.ok], rfl⟩
  | alreadyOpen => exact Or.inr ⟨by simp [ResultCode.errorCannotConnect, ResultCode.ok], rfl⟩
  | notOpened => exact Or.inr ⟨by simp, rfl⟩
  | failed _ _ _ _ he => exact Or.inr ⟨he, rfl⟩
  | accepted => exact Or.inl ⟨rfl, rfl⟩

/-- **Which steps keep a final state**: exactly those that meet the condition. -/
theorem step_final_iff {v w : SharedSession} {l : SessionStep} (h : v.step l = some w) :
    v.Guarded l ↔ Final v w := by
  cases l with
  | registerToControl a b =>
      have hstate : w.session.state = (v.session.registerToControl a b).2.state := by
        rw [step] at h
        split at h
        · simp at h
        all_goals
          rename_i hcall
          rw [hcall, ← Option.some.inj h]
      rcases state_registerToControl a b v.session with ⟨hacc, hcontrol⟩ | ⟨hacc, hsame⟩
      · rw [hcontrol] at hstate
        have hnot : ¬ w.Ended := by simp [Ended, hstate]
        rw [Guarded, imp_iff_right hacc, final_iff_ended]
        constructor
        · intro hv
          exact ⟨fun hended => absurd hended hv, fun hinv => absurd (Or.inr hinv) hv⟩
        · rintro ⟨hended, -⟩ hv
          exact hnot (hended hv)
      · rw [hsame] at hstate
        exact iff_of_true (fun h => absurd h hacc) (final_of_state_eq hstate)
  | periodicUpdate expired =>
      refine iff_of_true trivial (final_of_state_eq ?_)
      rw [step] at h
      split at h <;> rw [← Option.some.inj h]
  | connectionLost =>
      refine iff_of_true trivial (final_of_state_eq ?_)
      rw [step, Option.ite_none_right_eq_some, Option.some.injEq] at h
      rw [← h.2]
      rfl
  | disconnected =>
      rw [step, Option.ite_none_right_eq_some, Option.some.injEq] at h
      obtain ⟨hpos, rfl⟩ := h
      rw [Guarded, imp_iff_right hpos, final_iff_ended]
      have hlost : v.session.disconnected.state = .sessionLost := rfl
      constructor
      · intro hne
        exact ⟨fun _ => Or.inl hlost, fun hinv => absurd hinv hne⟩
      · rintro ⟨-, hinv⟩ hclosed
        exact absurd (hlost.symm.trans (hinv hclosed)) (by decide)
  | close =>
      rw [step, Option.some.injEq] at h
      have hstate : w.session.state = .invalid := by
        rw [← h]
        dsimp only
        rw [Session.close]
        split
        · assumption
        · rfl
      exact iff_of_true trivial (final_iff_ended.mpr ⟨fun _ => Or.inr hstate, fun _ => hstate⟩)

/-- A step that cannot happen meets the condition. -/
theorem guarded_of_step_none {w : SharedSession} {l : SessionStep} (h : w.step l = none) :
    w.Guarded l := by
  cases l with
  | registerToControl a b =>
      intro hacc
      have hok := Session.registerToControl_ok_iff.mpr hacc
      rw [step] at h
      split at h
      · rename_i hcall
        simp [hcall] at hok
      all_goals simp at h
  | disconnected =>
      intro hpos
      rw [step, if_pos hpos] at h
      simp at h
  | periodicUpdate | connectionLost | close => exact trivial

/-- **In which runs a lost or closed session stays so**: exactly in those in which no registration
is accepted by a session that is lost or closed, and `disconnected` is not called on a closed one. -/
theorem final_iff (sessionId : UInt32) (ls : List SessionStep) :
    Along step Final (opened sessionId) ls ↔ Meets step Guarded (opened sessionId) ls :=
  along_iff_of_step Final.refl Final.trans step_final_iff guarded_of_step_none

/-- A session is closed between the check of its keep-alive counter and the call of
`disconnected`, which makes the closed session a lost one. -/
theorem not_final : ¬ ∀ (sessionId : UInt32) (ls : List SessionStep),
    Along step Final (opened sessionId) ls := by
  intro h
  have hbad := h 1 [.periodicUpdate true, .close, .disconnected]
    [.periodicUpdate true, .close] [.disconnected] [] _ _ rfl rfl rfl
  exact absurd (hbad.2 rfl) (by decide)

end SharedSession

end ScApi
