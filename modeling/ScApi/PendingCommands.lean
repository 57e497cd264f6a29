import Mathlib.Data.List.Nodup
import Mathlib.Data.List.Perm.Basic
import ScApi.CommandChannel
import ScApi.RegisterGrant
import ScApi.SessionRuns

/-!
# Commands of a session that ends

A command takes an id and leaves its callback under it. The packet with the id takes the callback
out, and calls it without the mutex; a blocking command waits for its callback. `disconnected` and
`close` do not look at the callbacks that are left, and neither does the handler of a write that has
failed.

The contents of requests and responses are left out here. A packet may come at any time, with any id.

## Main results

* `step_invariant`: what one step keeps.
* `settled_of_run`: in every run that meets the condition, a session that has ended owes nothing.
-/

namespace ScApi

open Bytes Runs

/-- A call of `asyncCommand` or of a blocking command that has its id, and has not registered its
callback yet. -/
structure CommandCall where
  cmdId : ℤ
  blocking : Bool
  deriving DecidableEq, Repr

/-- A session with its commands. Those for which `startSendCommand` has returned `true` are numbered
in this order. -/
structure CommandSession where
  shared : SharedSession
  /-- `command_id_counter`. -/
  commandIdCounter : ℤ := 0
  calls : List CommandCall := []
  /-- `command_result_handlers`, with the numbers of the commands. -/
  handlers : List (ℤ × ℕ) := []
  accepted : ℕ := 0
  /-- The callbacks that `parsePacket` has taken out and not called yet. -/
  taken : List ℕ := []
  /-- The callbacks that have been called. -/
  answered : List ℕ := []
  /-- The commands whose blocking caller waits for the callback. -/
  waiting : List ℕ := []
  deriving DecidableEq, Repr

/-- A step of the session, of a caller, or of the io context. -/
inductive CommandStep where
  | session (l : SessionStep)
  /-- A call takes its id. -/
  | request (blocking : Bool)
  | startSendCommand (i : ℕ)
  /-- `parsePacket` takes out the callback for the id of a packet. -/
  | parsePacket (cmdId : ℤ)
  | callback (i : ℕ)
  /-- The handler of a write, or of a read, prints an error. -/
  | failed

namespace CommandSession

/-- One step. -/
def step (w : CommandSession) : CommandStep → Option CommandSession
  | .session l => (w.shared.step l).map fun shared => { w with shared }
  | .request blocking =>
      some { w with
        commandIdCounter := wrap32 (w.commandIdCounter + 1)
        calls := w.calls ++ [⟨w.commandIdCounter, blocking⟩] }
  | .startSendCommand i =>
      match w.calls[i]? with
      | some call =>
          if w.shared.session.mainSocketOpen then
            some { w with
              calls := w.calls.eraseIdx i
              handlers := CommandChannel.setHandler call.cmdId w.accepted w.handlers
              accepted := w.accepted + 1
              waiting := if call.blocking then w.accepted :: w.waiting else w.waiting }
          else
            some { w with calls := w.calls.eraseIdx i }
      | none => none
  | .parsePacket cmdId =>
      match w.handlers.find? (·.1 = cmdId) with
      | some handler =>
          if cmdId = -1 then
            some w
          else
            some { w with
              handlers := w.handlers.erase handler
              taken := w.taken ++ [handler.2] }
      | none => some w
  | .callback i =>
      match w.taken[i]? with
      | some command =>
          some { w with
            taken := w.taken.eraseIdx i
            answered := w.answered ++ [command]
            waiting := w.waiting.filter (· ≠ command) }
      | none => none
  | .failed => some w

/-- No callback is left to be called. -/
def Idle (w : CommandSession) : Prop :=
  w.handlers = [] ∧ w.taken = []

/-- If the session is lost or closed, the callback of every command has been called once, and no
caller waits. -/
def Settled (w : CommandSession) : Prop :=
  w.shared.Ended → (∀ command < w.accepted, w.answered.count command = 1) ∧ w.waiting = []

/-- The condition on a step. The session ends only when no callback is left; no command is accepted
after that, or with an id under which a callback is left. -/
def Guarded (w : CommandSession) : CommandStep → Prop
  | .session .disconnected | .session .close => w.Idle
  | .startSendCommand i => ∀ call, w.calls[i]? = some call → w.shared.session.mainSocketOpen = true →
      ¬ w.shared.Ended ∧ ∀ handler ∈ w.handlers, handler.1 ≠ call.cmdId
  | .session _ | .request _ | .parsePacket _ | .callback _ | .failed => True

/-- **The invariant.** Every accepted command has its callback in one place: registered, taken out,
or called; a caller waits for one that is not called. -/
structure Invariant (w : CommandSession) : Prop where
  accepted : (w.handlers.map Prod.snd ++ w.taken ++ w.answered).Perm (List.range w.accepted)
  waiting : ∀ command ∈ w.waiting, command ∈ w.handlers.map Prod.snd ++ w.taken
  ended : w.shared.Ended → w.Idle

theorem invariant_initial (sessionId : UInt32) : Invariant ⟨SharedSession.opened sessionId, 0, [], [], 0,
    [], [], []⟩ where
  accepted := List.Perm.refl _
  waiting := by simp
  ended := fun _ => ⟨rfl, rfl⟩

section

variable {w w' : CommandSession}

/-- Only `disconnected` and `close` end a session. -/
theorem ended_of_step {v v' : SharedSession} {l : SessionStep} (hdisconnected : l ≠ .disconnected)
    (hclose : l ≠ .close) (h : v.step l = some v') (hended : v'.Ended) : v.Ended := by
  cases l with
  | registerToControl a b =>
      have hstate : v'.session.state = (v.session.registerToControl a b).2.state := by
        rw [SharedSession.step] at h
        split at h
        · simp at h
        all_goals
          rename_i hcall
          rw [hcall, ← Option.some.inj h]
      rcases SharedSession.state_registerToControl a b v.session with ⟨-, hcontrol⟩ | ⟨-, hsame⟩
      · simp [SharedSession.Ended, hstate, hcontrol] at hended
      · rwa [SharedSession.Ended, hstate, hsame] at hended
  | periodicUpdate expired =>
      rw [SharedSession.step] at h
      split at h <;>
        · obtain rfl := Option.some.inj h
          exact hended
  | connectionLost =>
      rw [SharedSession.step, Option.ite_none_right_eq_some, Option.some.injEq] at h
      obtain ⟨-, rfl⟩ := h
      exact hended
  | disconnected => exact absurd rfl hdisconnected
  | close => exact absurd rfl hclose

/-- What the session does on its own. -/
theorem Invariant.session {l : SessionStep} {shared : SharedSession} (hw : Invariant w)
    (hok : w.Guarded (.session l)) (h : w.shared.step l = some shared) :
    Invariant { w with shared } := by
  refine ⟨hw.accepted, hw.waiting, fun hended => ?_⟩
  cases l with
  | disconnected | close => exact hok
  | registerToControl | periodicUpdate | connectionLost =>
      exact hw.ended (ended_of_step (by simp) (by simp) h hended)

/-- **One step that meets the condition keeps the invariant.** -/
theorem step_invariant {l : CommandStep} (hw : Invariant w) (hok : w.Guarded l)
    (h : w.step l = some w') : Invariant w' := by
  cases l with
  | session l =>
      obtain ⟨shared, hshared, rfl⟩ := Option.map_eq_some_iff.mp h
      exact hw.session hok hshared
  | request blocking =>
      obtain rfl := Option.some.inj h
      exact ⟨hw.accepted, hw.waiting, hw.ended⟩
  | startSendCommand i =>
      rw [step] at h
      split at h
      · rename_i call hcall
        split at h
        · rename_i hopen
          obtain rfl := Option.some.inj h
          obtain ⟨hlive, hfresh⟩ := hok call hcall hopen
          have hset : CommandChannel.setHandler call.cmdId w.accepted w.handlers
              = (call.cmdId, w.accepted) :: w.handlers := by
            rw [CommandChannel.setHandler, List.filter_eq_self.mpr]
            simpa using hfresh
          rw [hset]
          refine ⟨?_, ?_, fun hended => absurd hended hlive⟩
          · dsimp only
            rw [List.range_succ]
            exact (hw.accepted.cons w.accepted).trans (List.perm_append_singleton _ _).symm
          · intro command hwaits
            dsimp only at hwaits
            split at hwaits
            · rcases List.mem_cons.mp hwaits with rfl | hwaits
              · exact List.mem_cons_self
              · exact List.mem_cons_of_mem _ (hw.waiting command hwaits)
            · exact List.mem_cons_of_mem _ (hw.waiting command hwaits)
        · obtain rfl := Option.some.inj h
          exact ⟨hw.accepted, hw.waiting, hw.ended⟩
      · simp at h
  | parsePacket cmdId =>
      rw [step] at h
      split at h
      · rename_i handler hfind
        split at h
        · obtain rfl := Option.some.inj h
          exact hw
        · obtain rfl := Option.some.inj h
          have hmem : handler ∈ w.handlers := List.mem_of_find?_eq_some hfind
          have hmoved : (w.handlers.map Prod.snd ++ w.taken).Perm
              ((w.handlers.erase handler).map Prod.snd ++ (w.taken ++ [handler.2])) := by
            rw [← List.append_assoc]
            exact (((List.perm_cons_erase hmem).map Prod.snd).append_right w.taken).trans
              (List.perm_append_singleton _ _).symm
          refine ⟨(hmoved.append_right w.answered).symm.trans hw.accepted, ?_, fun hended => ?_⟩
          · exact fun command hwaits => hmoved.mem_iff.mp (hw.waiting command hwaits)
          · simp [(hw.ended hended).1] at hmem
      · obtain rfl := Option.some.inj h
        exact hw
  | callback i =>
      rw [step] at h
      split at h
      · rename_i command hcommand
        obtain rfl := Option.some.inj h
        have hmoved := perm_eraseIdx_append hcommand w.answered
        refine ⟨?_, ?_, fun hended => ?_⟩
        · refine List.Perm.trans ?_ hw.accepted
          dsimp only
          rw [List.append_assoc, List.append_assoc]
          exact hmoved.append_left _
        · intro command' hwaits
          obtain ⟨hold, hne⟩ := List.mem_filter.mp hwaits
          rcases List.mem_append.mp (hw.waiting command' hold) with hmem | hmem
          · exact List.mem_append_left _ hmem
          · refine List.mem_append_right _ ?_
            have hrest := (perm_eraseIdx_append hcommand []).mem_iff.mpr
              (List.mem_append_left [] hmem)
            rcases List.mem_append.mp hrest with hrest | hrest
            · exact hrest
            · exact absurd (List.mem_singleton.mp hrest) (by simpa using hne)
        · simp [(hw.ended hended).2] at hcommand
      · simp at h
  | failed =>
      obtain rfl := Option.some.inj h
      exact hw

/-- **A session that has ended owes nothing** in a run that meets the condition. -/
theorem settled_of_run {sessionId : UInt32} {ls : List CommandStep}
    (hok : Meets step Guarded { shared := SharedSession.opened sessionId } ls)
    (h : exec step { shared := SharedSession.opened sessionId } ls = some w) : w.Settled := by
  have hw := hok.invariant step_invariant (invariant_initial sessionId) h
  intro hended
  obtain ⟨hhandlers, htaken⟩ := hw.ended hended
  have hanswered : w.answered.Perm (List.range w.accepted) := by
    simpa [hhandlers, htaken] using hw.accepted
  refine ⟨fun command hlt => ?_, List.eq_nil_iff_forall_not_mem.mpr fun command hwaits => ?_⟩
  · rw [hanswered.count_eq]
    exact List.count_eq_one_of_mem List.nodup_range (List.mem_range.mpr hlt)
  · simpa [hhandlers, htaken] using hw.waiting command hwaits

theorem step_registerToControl {session : Session} {a : RegisterArgs} {b : Backend} {code : ResultCode}
    (h : w.shared.session.registerToControl a b = (.returned code, session)) :
    w.step (.session (.registerToControl a b))
      = some { w with shared := { w.shared with session } } := by
  rw [step, SharedSession.step, h]
  rfl

/-- A blocking command is answered before the connection is lost. -/
theorem settled_of_run_answered : ∃ ls w,
    exec step { shared := SharedSession.opened 1 } ls = some w ∧ w.accepted = 1 ∧ w.shared.Ended ∧
      w.Settled := by
  have hvalid : (⟨1, [], none⟩ : RegisterArgs).Valid 1 := by decide
  have hcall := registerToControl_granting (s := { sessionId := 1 }) hvalid rfl
  have hregister : ({ shared := SharedSession.opened 1 } : CommandSession).step
      (.session (.registerToControl ⟨1, [], none⟩ grantingBackend)) = some _ :=
    step_registerToControl hcall
  have hrun := exec_cons.mpr ⟨_, hregister,
    (rfl : exec step _ [.request true, .startSendCommand 0, .parsePacket 0, .callback 0,
      .session .connectionLost, .session .disconnected] = some _)⟩
  refine ⟨_, _, hrun, rfl, Or.inl rfl, settled_of_run ?_ hrun⟩
  refine .cons hregister trivial <| .cons rfl trivial <| .cons rfl ?_ <| .cons rfl trivial <|
    .cons rfl trivial <| .cons rfl trivial <| .cons rfl ⟨rfl, rfl⟩ trivial
  exact fun _ _ _ => ⟨by simp [SharedSession.Ended, Session.registered], by simp⟩

/-- The connection is lost while a command waits for its response. -/
theorem not_settled : ¬ ∀ (sessionId : UInt32) (ls : List CommandStep) (w : CommandSession),
    exec step { shared := SharedSession.opened sessionId } ls = some w → w.Settled := by
  intro h
  have hvalid : (⟨1, [], none⟩ : RegisterArgs).Valid 1 := by decide
  have hcall := registerToControl_granting (s := { sessionId := 1 }) hvalid rfl
  have hregister : ({ shared := SharedSession.opened 1 } : CommandSession).step
      (.session (.registerToControl ⟨1, [], none⟩ grantingBackend)) = some _ :=
    step_registerToControl hcall
  have hrun := exec_cons.mpr ⟨_, hregister,
    (rfl : exec step _ [.request true, .startSendCommand 0, .session .connectionLost,
      .session .disconnected] = some _)⟩
  have hsettled := h 1 _ _ hrun (Or.inl rfl)
  simpa using hsettled.1 0 Nat.one_pos

end

end CommandSession

end ScApi
