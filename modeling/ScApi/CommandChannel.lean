import Mathlib.Data.Int.Notation
import Mathlib.Data.List.Perm.Basic
import ScApi.Lib.Runs

/-!
# Sending commands

Commands of all threads go out over one TCP connection. A thread leaves its packet in a queue under
`main_socket_mutex` and starts a write if none is in progress; the completion handler of a write
starts the next one. The handler clears `send_in_progress` before it takes the mutex, so another
thread can come between, and the packet that the handler wanted to start may be on its way already.

A write hands its packet to the connection in pieces; the bytes of two writes at a time would be mixed
up. The other ways to use the connection are left out, and writes do not fail.

## Main results

* `step_invariant`: what one step keeps.
* `packets_inOrder`: the packets go out one at a time, in the order in which they were queued, and
  none is left lying.
-/

namespace ScApi

open Runs

/-- An `async_write` that has not completed: its packet, and how many bytes of it are sent. -/
structure PendingWrite where
  packet : List UInt8
  sent : ℕ
  deriving DecidableEq, Repr

/-- The connection for commands, with the history of its packets. -/
structure CommandChannel where
  /-- `main_socket.is_open()`. -/
  mainSocketOpen : Bool := false
  /-- `main_socket_tx_queue`. -/
  txQueue : List (List UInt8) := []
  /-- `command_result_handlers`, with the identity of the callback. -/
  handlers : List (ℤ × ℕ) := []
  sendInProgress : Bool := false
  /-- A thread holds `main_socket_mutex` and is about to call `startNextSendNoLock`. -/
  locked : Bool := false
  writes : List PendingWrite := []
  /-- The number of completion handlers that are about to call `startNextSend`. -/
  completing : ℕ := 0
  queued : List (List UInt8) := []
  written : List (List UInt8) := []
  stream : List UInt8 := []
  deriving DecidableEq, Repr

/-- A step. The calls of `startSendCommand` and `startNextSend` take the mutex, and give it back at
the end of `startNextSendNoLock`. -/
inductive ChannelStep where
  /-- The main socket is opened or closed. -/
  | socket (isOpen : Bool)
  | startSendCommand (txData : List UInt8) (cmdId : ℤ) (cb : ℕ)
  | startNextSendNoLock
  /-- A write hands at most so many bytes to the connection. -/
  | transmit (i n : ℕ)
  /-- A write has handed over its packet, and its handler clears `send_in_progress`. -/
  | complete (i : ℕ)
  | startNextSend
  deriving DecidableEq, Repr

/-- An element that moves from one list to the end of another. -/
theorem perm_eraseIdx_append {α : Type} {l : List α} {i : ℕ} {a : α} (h : l[i]? = some a)
    (l' : List α) : (l.eraseIdx i ++ (l' ++ [a])).Perm (l ++ l') := by
  obtain ⟨hi, rfl⟩ := List.getElem?_eq_some_iff.mp h
  rw [← List.append_assoc]
  refine (List.perm_append_singleton _ _).trans ?_
  exact (List.getElem_cons_eraseIdx_perm hi).append_right l'

namespace CommandChannel

/-- `command_result_handlers[cmd_id] = cb`. -/
def setHandler (cmdId : ℤ) (cb : ℕ) (handlers : List (ℤ × ℕ)) : List (ℤ × ℕ) :=
  (cmdId, cb) :: handlers.filter (·.1 ≠ cmdId)

/-- `startNextSendNoLock`. -/
def startNextSendNoLock (c : CommandChannel) : CommandChannel :=
  match c.sendInProgress, c.txQueue with
  | false, txData :: txQueue =>
      { c with txQueue, sendInProgress := true, writes := c.writes ++ [⟨txData, 0⟩] }
  | _, _ => c

/-- One step. -/
def step (c : CommandChannel) : ChannelStep → Option CommandChannel
  | .socket isOpen => some { c with mainSocketOpen := isOpen }
  | .startSendCommand txData cmdId cb =>
      if c.locked then
        none
      else if ¬ c.mainSocketOpen then
        -- the call returns `false`
        some c
      else
        some { c with
          handlers := setHandler cmdId cb c.handlers
          txQueue := c.txQueue ++ [txData]
          queued := c.queued ++ [txData]
          locked := true }
  | .startNextSendNoLock =>
      if c.locked then some { c.startNextSendNoLock with locked := false } else none
  | .transmit i n =>
      match c.writes[i]? with
      | some w =>
          let piece := (w.packet.drop w.sent).take n
          some { c with
            writes := c.writes.set i ⟨w.packet, w.sent + piece.length⟩
            stream := c.stream ++ piece }
      | none => none
  | .complete i =>
      match c.writes[i]? with
      | some w =>
          if w.sent = w.packet.length then
            some { c with
              writes := c.writes.eraseIdx i
              written := c.written ++ [w.packet]
              sendInProgress := false
              completing := c.completing + 1 }
          else
            none
      | none => none
  | .startNextSend =>
      if c.locked = false ∧ 0 < c.completing then
        some { c with locked := true, completing := c.completing - 1 }
      else
        none

/-- The packets go out in the order in which they were queued, each whole and once. -/
structure InOrder (c : CommandChannel) : Prop where
  packets : c.queued = c.written ++ c.writes.map PendingWrite.packet ++ c.txQueue
  bytes : c.stream = c.written.flatten ++ c.writes.flatMap fun w => w.packet.take w.sent

/-- **The invariant.** There is one write at most, and `send_in_progress` tells whether there is one;
someone is about to start the first packet of the queue unless a write is under way. -/
structure Invariant (c : CommandChannel) : Prop where
  inOrder : c.InOrder
  writing : c.sendInProgress = true → ∃ w, c.writes = [w]
  idle : c.sendInProgress = false → c.writes = []
  progress : c.txQueue ≠ [] → c.writes ≠ [] ∨ 0 < c.completing ∨ c.locked = true

theorem invariant_initial : Invariant {} where
  inOrder := ⟨rfl, rfl⟩
  writing := by simp
  idle := by simp
  progress := by simp

variable {c c' : CommandChannel}

/-- The only write is the first one. -/
theorem Invariant.writes_eq (hc : Invariant c) {i : ℕ} {w : PendingWrite}
    (h : c.writes[i]? = some w) : i = 0 ∧ c.writes = [w] ∧ c.sendInProgress = true := by
  cases hflag : c.sendInProgress with
  | false => simp [hc.idle hflag] at h
  | true =>
      obtain ⟨w', hw'⟩ := hc.writing hflag
      rw [hw', List.getElem?_singleton] at h
      split at h
      · rename_i h0
        obtain rfl := Option.some.inj h
        exact ⟨h0, hw', rfl⟩
      · simp at h

/-- **The start of the next write**, by whoever holds the mutex. -/
theorem Invariant.startNextSendNoLock (hc : Invariant c) :
    Invariant { c.startNextSendNoLock with locked := false } := by
  rw [CommandChannel.startNextSendNoLock]
  split
  · rename_i txData txQueue hflag hqueue
    have hnone := hc.idle hflag
    refine ⟨⟨?_, ?_⟩, ?_, by simp, by simp [hnone]⟩
    · simp [hc.inOrder.packets, hqueue]
    · simp [hc.inOrder.bytes]
    · exact fun _ => ⟨⟨txData, 0⟩, by simp [hnone]⟩
  · rename_i hother
    refine ⟨⟨hc.inOrder.packets, hc.inOrder.bytes⟩, hc.writing, hc.idle, fun hqueue => Or.inl ?_⟩
    cases hflag : c.sendInProgress with
    | false =>
        obtain ⟨txData, txQueue, hcons⟩ := List.exists_cons_of_ne_nil hqueue
        exact absurd hcons (hother txData txQueue hflag)
    | true =>
        obtain ⟨w, hw⟩ := hc.writing hflag
        simp [hw]

/-- **One step keeps the invariant.** -/
theorem step_invariant {l : ChannelStep} (hc : Invariant c) (h : c.step l = some c') :
    Invariant c' := by
  cases l with
  | socket isOpen =>
      obtain rfl := Option.some.inj h
      exact ⟨⟨hc.inOrder.packets, hc.inOrder.bytes⟩, hc.writing, hc.idle, hc.progress⟩
  | startSendCommand txData cmdId cb =>
      rw [step] at h
      split at h
      · simp at h
      split at h
      · obtain rfl := Option.some.inj h
        exact hc
      · obtain rfl := Option.some.inj h
        refine ⟨⟨?_, hc.inOrder.bytes⟩, hc.writing, hc.idle, fun _ => Or.inr (Or.inr rfl)⟩
        dsimp only
        rw [hc.inOrder.packets, List.append_assoc]
  | startNextSendNoLock =>
      rw [step, Option.ite_none_right_eq_some, Option.some.injEq] at h
      obtain ⟨-, rfl⟩ := h
      exact hc.startNextSendNoLock
  | transmit i n =>
      rw [step] at h
      split at h
      · rename_i w hw
        obtain rfl := Option.some.inj h
        obtain ⟨rfl, hwrites, hflag⟩ := hc.writes_eq hw
        refine ⟨⟨?_, ?_⟩, ?_, ?_, ?_⟩
        · simp [hc.inOrder.packets, hwrites]
        · have hpiece : (w.packet.drop w.sent).take ((w.packet.drop w.sent).take n).length =
              (w.packet.drop w.sent).take n :=
            (List.prefix_iff_eq_take.mp (List.take_prefix n (w.packet.drop w.sent))).symm
          dsimp only
          rw [hc.inOrder.bytes, hwrites, List.set_cons_zero, List.flatMap_singleton,
            List.flatMap_singleton, List.take_add, hpiece, List.append_assoc]
        · simp [hwrites]
        · simp [hflag]
        · simp [hwrites]
      · simp at h
  | complete i =>
      rw [step] at h
      split at h
      · rename_i w hw
        rw [Option.ite_none_right_eq_some, Option.some.injEq] at h
        obtain ⟨hsent, rfl⟩ := h
        obtain ⟨rfl, hwrites, hflag⟩ := hc.writes_eq hw
        refine ⟨⟨?_, ?_⟩, by simp, by simp [hwrites], fun _ => Or.inr (Or.inl (by simp))⟩
        · simp [hc.inOrder.packets, hwrites]
        · simp [hc.inOrder.bytes, hwrites, hsent]
      · simp at h
  | startNextSend =>
      rw [step, Option.ite_none_right_eq_some, Option.some.injEq] at h
      obtain ⟨-, rfl⟩ := h
      exact ⟨⟨hc.inOrder.packets, hc.inOrder.bytes⟩, hc.writing, hc.idle,
        fun _ => Or.inr (Or.inr rfl)⟩

/-- **What goes out.** In every run at most one write is under way, the packets go out in the order in
which they were queued, each whole and once, and whenever the mutex is free and a packet is queued, a
write is under way or a completion handler is about to start the next one. -/
theorem packets_inOrder {ls : List ChannelStep} (h : exec step {} ls = some c) :
    c.writes.length ≤ 1 ∧ c.InOrder ∧
      (c.locked = false → c.txQueue ≠ [] → c.writes ≠ [] ∨ 0 < c.completing) := by
  have hc := invariant_of_step step_invariant invariant_initial h
  refine ⟨?_, hc.inOrder, fun hfree hqueue => ?_⟩
  · cases hflag : c.sendInProgress with
    | false => simp [hc.idle hflag]
    | true =>
        obtain ⟨w, hw⟩ := hc.writing hflag
        simp [hw]
  · rcases hc.progress hqueue with hwrites | hcompleting | hlocked
    · exact Or.inl hwrites
    · exact Or.inr hcompleting
    · simp [hfree] at hlocked

/-- A second packet is queued while the handler of the first one has yet to start the next write. -/
theorem packets_inOrder_between :
    ∃ c, exec step {} [.socket true, .startSendCommand [1, 2] 0 0, .startNextSendNoLock,
      .transmit 0 2, .complete 0, .startSendCommand [3] 1 1, .startNextSendNoLock, .startNextSend,
      .startNextSendNoLock] = some c ∧ c.writes.length ≤ 1 ∧ c.InOrder ∧
      (c.locked = false → c.txQueue ≠ [] → c.writes ≠ [] ∨ 0 < c.completing) :=
  have hrun : exec step {} [.socket true, .startSendCommand [1, 2] 0 0, .startNextSendNoLock,
      .transmit 0 2, .complete 0, .startSendCommand [3] 1 1, .startNextSendNoLock, .startNextSend,
      .startNextSendNoLock] = some _ := rfl
  ⟨_, hrun, packets_inOrder hrun⟩

end CommandChannel

end ScApi
