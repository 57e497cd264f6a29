import Mathlib.Data.List.Nodup
import Mathlib.Data.List.Perm.Basic
import ScApi.CommandChannel
import ScApi.ResponseBytes

/-!
# Callbacks and packets

Any thread may take an id for a command, finalize its request with it and register the callback under
it. Packets come in any order, with any bytes, and `parsePacket` takes out the callback for the
`user-data` of the packet, and calls it without the mutex.

## Main results

* `step_invariant`: what one step keeps.
* `told_iff_of_step`: when a step leaves what the callbacks get right.
* `callbacks_of_run`: each callback is called at most once, for a packet with the id of its request; it
  gets what the packet says exactly when every failure comes with a text.
-/

namespace ScApi

open Bytes Runs Bson

/-- A callback with the packet and the result that it is called with. -/
structure Invocation where
  command : ℕ
  packet : List UInt8
  /-- What lies behind the packet in the receive buffer. -/
  behind : List UInt8
  result : AsyncCommandResult
  deriving DecidableEq, Repr

/-- The commands of a session. Those for which `startSendCommand` has returned `true` are numbered in
this order. -/
structure CommandCallbacks where
  /-- `main_socket.is_open()`. -/
  mainSocketOpen : Bool := false
  /-- `command_id_counter`. -/
  commandIdCounter : ℤ := 0
  /-- The ids of the requests that are finalized, but not handed to `startSendCommand` yet. -/
  calls : List ℤ := []
  /-- `command_result_handlers`, with the numbers of the commands. -/
  handlers : List (ℤ × ℕ) := []
  /-- The ids with which the requests of the commands were finalized. -/
  ids : List ℤ := []
  /-- The callbacks that `parsePacket` has taken out and not called yet. -/
  taken : List Invocation := []
  invoked : List Invocation := []
  deriving DecidableEq, Repr

/-- A step of a thread that calls `asyncCommand`, or of the io context. -/
inductive CallbackStep where
  /-- The main socket is opened or closed. -/
  | socket (isOpen : Bool)
  /-- A call takes its id and finalizes its request. -/
  | request
  | startSendCommand (i : ℕ)
  | parsePacket (packet behind : List UInt8)
  | callback (i : ℕ)
  deriving DecidableEq, Repr

/-- The packet carries the id with which the request of the command was finalized. -/
def Invocation.Answers (v : Invocation) (ids : List ℤ) : Prop :=
  ∃ fs id, ids[v.command]? = some id ∧ IsResponse (v.packet ++ v.behind) v.packet.length fs ∧
    lastOf (Field.userData (v.packet ++ v.behind)) fs = some id

/-- A command that is accepted later does not change the ids of earlier ones. -/
theorem getElem?_append_of_some {ids : List ℤ} {i : ℕ} {id : ℤ} (h : ids[i]? = some id) (id' : ℤ) :
    (ids ++ [id'])[i]? = some id := by
  rw [List.getElem?_append_left (List.getElem?_eq_some_iff.mp h).1, h]

theorem Invocation.Answers.append {v : Invocation} {ids : List ℤ} (h : v.Answers ids) (id : ℤ) :
    v.Answers (ids ++ [id]) := by
  obtain ⟨fs, id', hid, hfs, huser⟩ := h
  exact ⟨fs, id', getElem?_append_of_some hid id, hfs, huser⟩

/-- If the packet is a well-formed response, in whatever order, the callback gets what it says. -/
def Invocation.Told (v : Invocation) : Prop :=
  ∀ entries entries', WellFormed entries' → entries'.Perm entries → v.packet = responseBytes entries' →
    Tells (v.packet ++ v.behind) entries v.result

namespace CommandCallbacks

/-- One step. A packet that is read outside of the memory has none. -/
def step (w : CommandCallbacks) : CallbackStep → Option CommandCallbacks
  | .socket isOpen => some { w with mainSocketOpen := isOpen }
  | .request =>
      some { w with
        commandIdCounter := wrap32 (w.commandIdCounter + 1)
        calls := w.calls ++ [w.commandIdCounter] }
  | .startSendCommand i =>
      match w.calls[i]? with
      | some id =>
          if w.mainSocketOpen then
            some { w with
              calls := w.calls.eraseIdx i
              handlers := CommandChannel.setHandler id w.ids.length w.handlers
              ids := w.ids ++ [id] }
          else
            some { w with calls := w.calls.eraseIdx i }
      | none => none
  | .parsePacket packet behind =>
      match ScApi.parsePacket (packet ++ behind) packet.length w.handlers with
      | .ok (handlers, some (command, result)) =>
          some { w with handlers, taken := w.taken ++ [⟨command, packet, behind, result⟩] }
      | .ok (handlers, none) => some { w with handlers }
      | .error _ => none
  | .callback i =>
      match w.taken[i]? with
      | some v => some { w with taken := w.taken.eraseIdx i, invoked := w.invoked ++ [v] }
      | none => none

/-- Every callback is called at most once, and only for a packet with the id of its request; and a
well-formed response with the id of a callback that is registered takes it out. -/
structure Correct (w : CommandCallbacks) : Prop where
  once : (w.invoked.map Invocation.command).Nodup
  paired : ∀ v ∈ w.invoked, v.Answers w.ids
  answered : ∀ entries behind id command, WellFormed entries → responseId entries = some id →
    (id, command) ∈ w.handlers → ∃ result, w.step (.parsePacket (responseBytes entries) behind)
      = some { w with
          handlers := w.handlers.erase (id, command)
          taken := w.taken ++ [⟨command, responseBytes entries, behind, result⟩] }

/-- The callbacks get what the responses say. -/
def Told (w : CommandCallbacks) : Prop :=
  ∀ v ∈ w.taken ++ w.invoked, v.Told

/-- The condition on a step: a well-formed response for a callback that is registered has the text of
the error, without a NUL byte in it, if it reports a failure. -/
def Guarded (w : CommandCallbacks) : CallbackStep → Prop
  | .parsePacket packet _ => ∀ entries id command, WellFormed entries → packet = responseBytes entries →
      responseId entries = some id → id ≠ -1 → (id, command) ∈ w.handlers → HasText entries
  | .socket _ | .request | .startSendCommand _ | .callback _ => True

/-- **The invariant.** Ids are new, every command has its callback in one place, registered under its
id, taken out or called. -/
structure Invariant (w : CommandCallbacks) : Prop where
  counter : 0 ≤ w.commandIdCounter
  fresh : ∀ id ∈ w.calls ++ w.ids, 0 ≤ id ∧ id < w.commandIdCounter
  nodup : (w.calls ++ w.ids).Nodup
  places : (w.handlers.map Prod.snd ++ (w.taken ++ w.invoked).map Invocation.command).Perm
    (List.range w.ids.length)
  handlers : ∀ handler ∈ w.handlers, w.ids[handler.2]? = some handler.1
  paired : ∀ v ∈ w.taken ++ w.invoked, v.Answers w.ids

theorem invariant_initial : Invariant {} where
  counter := le_rfl
  fresh := by simp
  nodup := List.nodup_nil
  places := List.Perm.refl _
  handlers := by simp
  paired := by simp

section

variable {w w' : CommandCallbacks} {l : CallbackStep}

/-- The number of ids that are taken in a step. -/
def requests : CallbackStep → ℕ
  | .request => 1
  | _ => 0

/-- The id of a call that has not registered its callback yet is not that of another command. -/
theorem Invariant.id_notMem (hw : Invariant w) {i : ℕ} {id : ℤ} (hid : w.calls[i]? = some id) :
    id ∉ w.ids :=
  fun hmem => (List.nodup_append.mp hw.nodup).2.2 id (List.mem_of_getElem? hid) id hmem rfl

/-- **A command is accepted**: its callback is registered under its id. -/
theorem Invariant.accepted (hw : Invariant w) {i : ℕ} {id : ℤ} (hid : w.calls[i]? = some id) :
    Invariant { w with
      calls := w.calls.eraseIdx i
      handlers := CommandChannel.setHandler id w.ids.length w.handlers
      ids := w.ids ++ [id] } := by
  have hnew := hw.id_notMem hid
  have hset : CommandChannel.setHandler id w.ids.length w.handlers
      = (id, w.ids.length) :: w.handlers := by
    rw [CommandChannel.setHandler, List.filter_eq_self.mpr]
    intro handler hhandler
    have hmem : handler.1 ∈ w.ids := List.mem_of_getElem? (hw.handlers handler hhandler)
    exact decide_eq_true fun heq => hnew (heq ▸ hmem)
  have hmoved := perm_eraseIdx_append hid w.ids
  rw [hset]
  refine ⟨hw.counter, fun id' hid' => hw.fresh id' (hmoved.mem_iff.mp hid'),
    hmoved.nodup_iff.mpr hw.nodup, ?_, ?_, fun v hv => (hw.paired v hv).append id⟩
  · dsimp only
    rw [List.length_append, List.length_singleton, List.range_succ]
    exact (hw.places.cons w.ids.length).trans (List.perm_append_singleton _ _).symm
  · refine List.forall_mem_cons.mpr ⟨?_, fun handler hhandler => ?_⟩
    · simp
    · exact getElem?_append_of_some (hw.handlers handler hhandler) id

/-- **A callback is taken out** for the packet with the id of its request. -/
theorem Invariant.taken {packet behind : List UInt8} {handlers : List (ℤ × ℕ)} {command : ℕ}
    {result : AsyncCommandResult} (hw : Invariant w)
    (h : ScApi.parsePacket (packet ++ behind) packet.length w.handlers
      = .ok (handlers, some (command, result))) :
    Invariant { w with handlers, taken := w.taken ++ [⟨command, packet, behind, result⟩] } := by
  obtain ⟨fs, id, hfs, huser, -, hfind, rfl, -⟩ := (parsePacket_eq_some_iff (by simp)).mp h
  have hmem := List.mem_of_find?_eq_some hfind
  have hmoved : ∀ v : Invocation, (w.taken ++ [v] ++ w.invoked).Perm (v :: (w.taken ++ w.invoked)) := by
    intro v
    rw [List.append_assoc]
    exact List.perm_middle
  refine ⟨hw.counter, hw.fresh, hw.nodup, ?_, fun handler hhandler => ?_, fun v hv => ?_⟩
  · refine (((hmoved _).map Invocation.command).append_left _).trans (List.perm_middle.trans ?_)
    have herase := (List.perm_cons_erase hmem).symm.map Prod.snd
    exact (herase.append_right _).trans hw.places
  · exact hw.handlers handler (List.mem_of_mem_erase hhandler)
  · rcases List.mem_cons.mp ((hmoved _).mem_iff.mp hv) with rfl | hv
    · exact ⟨fs, id, hw.handlers _ hmem, hfs, huser⟩
    · exact hw.paired v hv

/-- **What one step keeps**, as long as there are ids left. -/
theorem step_invariant (hw : Invariant w)
    (hids : w.commandIdCounter + requests l < 2147483648) (h : w.step l = some w') :
    Invariant w' ∧ w'.commandIdCounter = w.commandIdCounter + requests l := by
  cases l with
  | socket isOpen =>
      obtain rfl := Option.some.inj h
      exact ⟨⟨hw.counter, hw.fresh, hw.nodup, hw.places, hw.handlers, hw.paired⟩, (add_zero _).symm⟩
  | request =>
      obtain rfl := Option.some.inj h
      have hcounter := hw.counter
      have hwrap : wrap32 (w.commandIdCounter + 1) = w.commandIdCounter + 1 :=
        wrap32_of_range (by omega) hids
      have hperm : (w.calls ++ [w.commandIdCounter] ++ w.ids).Perm
          (w.commandIdCounter :: (w.calls ++ w.ids)) := by
        rw [List.append_assoc]
        exact List.perm_middle
      refine ⟨⟨?_, ?_, ?_, hw.places, hw.handlers, hw.paired⟩, hwrap⟩
      · dsimp only
        omega
      · intro id hid
        dsimp only at hid ⊢
        rw [hwrap]
        rcases List.mem_cons.mp (hperm.mem_iff.mp hid) with rfl | hid
        · omega
        · have hfresh := hw.fresh id hid
          omega
      · refine hperm.nodup_iff.mpr (List.nodup_cons.mpr ⟨fun hmem => ?_, hw.nodup⟩)
        have hfresh := hw.fresh _ hmem
        omega
  | startSendCommand i =>
      rw [step] at h
      split at h
      · rename_i id hid
        split at h
        · obtain rfl := Option.some.inj h
          exact ⟨hw.accepted hid, (add_zero _).symm⟩
        · obtain rfl := Option.some.inj h
          have hsub := (List.eraseIdx_sublist w.calls i).append_right w.ids
          exact ⟨⟨hw.counter, fun id hid => hw.fresh id (hsub.subset hid), hsub.nodup hw.nodup, hw.places,
            hw.handlers, hw.paired⟩, (add_zero _).symm⟩
      · simp at h
  | parsePacket packet behind =>
      rw [step] at h
      split at h
      · rename_i handlers command result hparse
        obtain rfl := Option.some.inj h
        exact ⟨hw.taken hparse, (add_zero _).symm⟩
      · rename_i handlers hparse
        obtain rfl := Option.some.inj h
        obtain rfl := handlers_of_parsePacket hparse
        exact ⟨⟨hw.counter, hw.fresh, hw.nodup, hw.places, hw.handlers, hw.paired⟩, (add_zero _).symm⟩
      · simp at h
  | callback i =>
      rw [step] at h
      split at h
      · rename_i v hv
        obtain rfl := Option.some.inj h
        have hmoved := perm_eraseIdx_append hv w.invoked
        refine ⟨⟨hw.counter, hw.fresh, hw.nodup, ?_, hw.handlers, fun v hv => ?_⟩, (add_zero _).symm⟩
        · exact ((hmoved.map Invocation.command).append_left _).trans hw.places
        · exact hw.paired v (hmoved.mem_iff.mp hv)
      · simp at h

/-- What a run keeps, if there are fewer commands than ids. -/
theorem invariant_of_run {ls : List CallbackStep} (hw : Invariant w)
    (hids : w.commandIdCounter + ls.count .request < 2147483648) (h : exec step w ls = some w') :
    Invariant w' := by
  induction ls generalizing w with
  | nil =>
      obtain rfl : w = w' := Option.some.inj h
      exact hw
  | cons l ls ih =>
      obtain ⟨w₁, hstep, hrun⟩ := exec_cons.mp h
      have hcount : (l :: ls).count .request = ls.count .request + requests l := by
        cases l <;> simp [requests]
      rw [hcount] at hids
      push_cast at hids
      obtain ⟨hw₁, hcounter⟩ := step_invariant hw (by omega) hstep
      exact ih hw₁ (by omega) hrun

/-- No two callbacks are registered under one id. -/
theorem Invariant.find?_eq (hw : Invariant w) {id : ℤ} {command : ℕ}
    (h : (id, command) ∈ w.handlers) : w.handlers.find? (·.1 = id) = some (id, command) := by
  obtain ⟨command', hhandler⟩ := find?_of_mem h
  have hmem := hw.handlers _ (List.mem_of_find?_eq_some hhandler)
  obtain ⟨hlt, hget⟩ := List.getElem?_eq_some_iff.mp hmem
  obtain ⟨hlt', hget'⟩ := List.getElem?_eq_some_iff.mp (hw.handlers _ h)
  have hids : w.ids.Nodup := (List.nodup_append.mp hw.nodup).2.1
  obtain rfl : command' = command := (hids.getElem_inj_iff).mp (hget.trans hget'.symm)
  exact hhandler

/-- **What the invariant says** about the callbacks. -/
theorem Invariant.correct (hw : Invariant w) : w.Correct where
  once := by
    have hall := hw.places.nodup_iff.mpr List.nodup_range
    rw [List.map_append] at hall
    exact (List.nodup_append.mp (List.nodup_append.mp hall).2.1).2.1
  paired := fun v hv => hw.paired v (List.mem_append_right _ hv)
  answered := by
    intro entries behind id command hentries hid hmem
    have hnonneg := (hw.fresh id (List.mem_append_right _
      (List.mem_of_getElem? (hw.handlers _ hmem)))).1
    have huser := (fieldsSay_responseFields hentries behind).userData.trans hid
    have hparse := (parsePacket_eq_some_iff (by simp)).mpr
      ⟨_, id, isResponse_bytes hentries behind, huser, by omega, hw.find?_eq hmem, rfl, rfl⟩
    exact ⟨_, by rw [step, hparse]⟩

/-- What a callback gets for a packet, and whether that is what the packet says. -/
theorem told_iff {packet behind : List UInt8} {command : ℕ} {fs : List Field}
    (hfs : IsResponse (packet ++ behind) packet.length fs) :
    Invocation.Told ⟨command, packet, behind, (Response.ofFields (packet ++ behind) fs).result⟩ ↔
      ∀ entries, WellFormed entries → packet = responseBytes entries → HasText entries := by
  constructor
  · intro h entries hentries heq
    subst heq
    have htells := h entries entries hentries (List.Perm.refl _) rfl
    obtain rfl := hfs.unique (isResponse_bytes hentries behind)
    exact (tells_iff hentries).mp htells
  · intro h entries entries' hentries hperm heq
    dsimp only at heq ⊢
    subst heq
    obtain rfl := hfs.unique (isResponse_bytes hentries behind)
    exact ((tells_iff hentries).mpr (h entries' hentries rfl)).perm hentries hperm

/-- The packet for a registered callback meets the condition exactly when the callback gets what it
says. -/
theorem told_iff_guarded {packet behind : List UInt8} {handlers : List (ℤ × ℕ)} {command : ℕ}
    {result : AsyncCommandResult}
    (h : ScApi.parsePacket (packet ++ behind) packet.length w.handlers
      = .ok (handlers, some (command, result))) :
    Invocation.Told ⟨command, packet, behind, result⟩ ↔ w.Guarded (.parsePacket packet behind) := by
  obtain ⟨fs, id, hfs, huser, hid, hfind, -, rfl⟩ := (parsePacket_eq_some_iff (by simp)).mp h
  rw [told_iff hfs]
  constructor
  · exact fun htext entries _ _ hentries heq _ _ _ => htext entries hentries heq
  · intro hok entries hentries heq
    subst heq
    obtain rfl := hfs.unique (isResponse_bytes hentries behind)
    have hsays := (fieldsSay_responseFields hentries behind).userData.symm.trans huser
    exact hok entries id command hentries rfl hsays hid (List.mem_of_find?_eq_some hfind)

/-- A packet for which no callback is called meets the condition. -/
theorem guarded_of_none {packet behind : List UInt8} {handlers : List (ℤ × ℕ)}
    (h : ScApi.parsePacket (packet ++ behind) packet.length w.handlers = .ok (handlers, none)) :
    w.Guarded (.parsePacket packet behind) := by
  rintro entries id command hentries rfl hsays hid hmem
  obtain ⟨command', hfind⟩ := find?_of_mem hmem
  have huser := (fieldsSay_responseFields hentries behind).userData.trans hsays
  have hcalled := (parsePacket_eq_some_iff (by simp)).mpr
    ⟨_, id, isResponse_bytes hentries behind, huser, hid, hfind, rfl, rfl⟩
  exact absurd (hcalled.symm.trans h) (by simp)

/-- **When a step leaves what the callbacks get right.** -/
theorem told_iff_of_step (h : w.step l = some w') : w'.Told ↔ w.Told ∧ w.Guarded l := by
  cases l with
  | socket isOpen | request =>
      obtain rfl := Option.some.inj h
      exact (and_iff_left trivial).symm
  | startSendCommand i =>
      rw [step] at h
      split at h
      · split at h <;>
          · obtain rfl := Option.some.inj h
            exact (and_iff_left trivial).symm
      · simp at h
  | parsePacket packet behind =>
      rw [step] at h
      split at h
      · rename_i handlers command result hparse
        obtain rfl := Option.some.inj h
        rw [← told_iff_guarded hparse, Told, Told]
        simp only [List.mem_append, List.mem_singleton]
        constructor
        · intro hall
          exact ⟨fun v hv => hall v (hv.imp_left Or.inl), hall _ (Or.inl (Or.inr rfl))⟩
        · rintro ⟨hall, hnew⟩ v ((hv | rfl) | hv)
          · exact hall v (Or.inl hv)
          · exact hnew
          · exact hall v (Or.inr hv)
      · rename_i handlers hparse
        obtain rfl := Option.some.inj h
        exact (and_iff_left (guarded_of_none hparse)).symm
      · simp at h
  | callback i =>
      rw [step] at h
      split at h
      · rename_i v hv
        obtain rfl := Option.some.inj h
        have hmoved := perm_eraseIdx_append hv w.invoked
        refine Iff.trans ?_ (and_iff_left trivial).symm
        exact forall_congr' fun v => imp_congr_left hmoved.mem_iff
      · simp at h

/-- **Each callback is called at most once, and only for a packet with the id of its request**, in every
run with fewer commands than ids. **It gets what a well-formed response says exactly when** every
response that reports a failure has the text of the error, without a NUL byte in it. -/
theorem callbacks_of_run {ls : List CallbackStep} (hids : ls.count .request < 2147483648)
    (h : exec step {} ls = some w) : w.Correct ∧ (w.Told ↔ Meets step Guarded {} ls) := by
  have hinitial : Told {} := by simp [Told]
  have hcount : ({} : CommandCallbacks).commandIdCounter + ls.count .request < 2147483648 := by
    dsimp only
    omega
  refine ⟨(invariant_of_run invariant_initial hcount h).correct, ?_⟩
  rw [meets_iff_of_step told_iff_of_step h, and_iff_right hinitial]

/-- A command that is answered. -/
theorem callbacks_of_run_answered : ∃ ls w, exec step {} ls = some w ∧
    w.invoked.map Invocation.command = [0] ∧ w.Correct ∧ (w.Told ↔ Meets step Guarded {} ls) := by
  have hrun : exec step {} [.socket true, .request, .startSendCommand 0, .parsePacket bareResponse [],
      .callback 0] = some ⟨true, 1, [], [], [0], [], [⟨0, bareResponse, [], ⟨.ok, none⟩⟩]⟩ := by
    decide +kernel
  exact ⟨_, _, hrun, rfl, callbacks_of_run (by decide) hrun⟩

/-- A failure whose text has a NUL byte in it. -/
def cutResponse : List Entry :=
  [(ascii "user-data", .leaf (.i32 0)), (ascii "result", .leaf (.i32 1)),
    (ascii "error_message", .leaf (.string [97, 0, 98]))]

theorem wellFormed_cutResponse : WellFormed cutResponse where
  keys := by decide
  clean := by
    refine List.forall_mem_cons.mpr ⟨⟨by decide, trivial⟩, List.forall_mem_cons.mpr
      ⟨⟨by decide, trivial⟩, List.forall_mem_cons.mpr ⟨⟨by decide, trivial⟩, by simp⟩⟩⟩
  size := by decide

/-- Its callback gets the part in front of the NUL byte. -/
theorem not_told : ¬ ∀ (ls : List CallbackStep) (w : CommandCallbacks),
    ls.count .request < 2147483648 → exec step {} ls = some w → w.Correct ∧ w.Told := by
  intro h
  have hrun : exec step {} [.socket true, .request, .startSendCommand 0,
      .parsePacket (responseBytes cutResponse) [], .callback 0]
      = some ⟨true, 1, [], [], [0], [], [⟨0, responseBytes cutResponse, [], ⟨⟨1⟩, some 62⟩⟩]⟩ := by
    decide +kernel
  have htold := (h _ _ (by decide) hrun).2 _ List.mem_cons_self cutResponse cutResponse
    wellFormed_cutResponse (List.Perm.refl _) rfl
  have hread : AsyncCommandResult.getErrorMessage (responseBytes cutResponse ++ [])
      ⟨⟨1⟩, some 62⟩ = .ok [97] := by decide +kernel
  have hwhole : (responseMessage cutResponse).getD [] = [97, 0, 98] := by decide +kernel
  have hmessage := htold.message rfl
  rw [hwhole] at hmessage
  exact absurd (hread.symm.trans hmessage) (by decide)

end

end CommandCallbacks

end ScApi
