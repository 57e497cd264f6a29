import ScApi.CommandCallbacks
import ScApi.DeviceDescriptions
import ScApi.Receive
import ScApi.SubDocuments

/-!
# Commands and their responses

The parts of the command protocol put together: threads finalize requests and queue them, one write at
a time takes them to the backend, the backend answers the requests that it has read, in any order, the
io context reads the answers in pieces and hands each one to `parsePacket`, and `parsePacket` calls
the callback of the command.

The connection is open all the time, and keeps the bytes of either side in order. The backend is not
part of the program: what it is relied on for is the condition on its step, namely that it answers with
the `user-data` of the request, which it reads as the program's own reader does.

## Main results

* `requestId_encoding`: the `user-data` of a request is read back.
* `step_invariant`: what one step keeps.
* `answers_arrive`: the callbacks are called in the order of the answers, each with the answer to its own
  request, and none is missed.
* `answers_drained`: from every state the io context can go on until all callbacks are called.
-/

namespace ScApi

open Bytes BoundedRead Runs Bson CommandRequest BsonReader

/-- The `user-data` of a request, as a backend that uses a `BsonReader` gets it. -/
def requestId (packet : List UInt8) : Option ℤ :=
  let found : Read (Option ℤ × BsonReader) := do
    let r ← BsonReader.ofBufferSize (some packet) packet.length
    r.tryFindAndGetI32 packet (ascii "user-data")
  match found with
  | .ok (id, _) => id
  | .error _ => none

/-- A request carries the id of its call. -/
def Carries (id : ℤ) (packet : List UInt8) : Prop :=
  requestId packet = some id

/-- The client and the backend, and the connection between them. -/
structure CommandLink where
  commands : CommandCallbacks := { mainSocketOpen := true }
  /-- The requests that are finalized, but not handed to `startSendCommand` yet. -/
  drafts : List (List UInt8) := []
  channel : CommandChannel := { mainSocketOpen := true }
  /-- What the backend has answered, with the numbers of the commands. -/
  answers : List (ℕ × List Entry) := []
  /-- The number of bytes of the answers that the client has read. -/
  delivered : ℕ := 0
  receiver : Receiver
  /-- The packets that `tryParsePacket` has yet to hand to `parsePacket`. -/
  inbox : List (List UInt8) := []

/-- A step of a thread, of the io context or of the backend. -/
inductive LinkStep where
  /-- A call takes its id and finalizes a new request. -/
  | request (service command : List UInt8) (calls : List BuilderCall)
  | startSendCommand (i : ℕ)
  | startNextSendNoLock
  | transmit (i n : ℕ)
  | complete (i : ℕ)
  | startNextSend
  /-- The backend answers a request that it has read. -/
  | answer (command : ℕ) (entries : List Entry)
  /-- The completion handler of a read of at most so many bytes, up to `tryParsePacket`. -/
  | read (n : ℕ)
  /-- `tryParsePacket` hands on the next packet. -/
  | parsePacket (behind : List UInt8)
  | callback

/-- A step of the io context. -/
def LinkStep.ofIoContext : LinkStep → Bool
  | .read _ | .parsePacket _ | .callback => true
  | .request _ _ _ | .startSendCommand _ | .startNextSendNoLock | .transmit _ _ | .complete _
  | .startNextSend | .answer _ _ => false

namespace CommandLink

/-- The bytes that the backend has sent. -/
def replies (w : CommandLink) : List UInt8 :=
  (w.answers.map fun a => responseBytes a.2).flatten

/-- The backend has read the request of a command. -/
def Arrived (w : CommandLink) (command : ℕ) : Prop :=
  command < w.channel.queued.length ∧
    (w.channel.queued.take (command + 1)).flatten.length ≤ w.channel.stream.length

instance (w : CommandLink) (command : ℕ) : Decidable (w.Arrived command) :=
  inferInstanceAs (Decidable (_ ∧ _))

/-- A step of the connection to the backend. -/
def send (w : CommandLink) (l : ChannelStep) : Option CommandLink :=
  (w.channel.step l).map fun channel => { w with channel }

/-- A call takes its id and finalizes a new request. -/
def request (platform : Platform) (service command : List UInt8) (calls : List BuilderCall)
    (w : CommandLink) : Option CommandLink :=
  (finalized platform calls (BitVec.ofInt 32 w.commands.commandIdCounter)
    (initializeCommand platform service command {})).toOption.bind fun packet =>
      (w.commands.step .request).map fun commands => { w with commands, drafts := w.drafts ++ [packet] }

/-- `startSendCommand`, up to `startNextSendNoLock`. -/
def startSendCommand (i : ℕ) (w : CommandLink) : Option CommandLink :=
  match w.commands.calls[i]?, w.drafts[i]?, w.commands.step (.startSendCommand i) with
  | some id, some packet, some commands =>
      (w.channel.step (.startSendCommand packet id w.commands.ids.length)).map fun channel =>
        { w with commands, channel, drafts := w.drafts.eraseIdx i }
  | _, _, _ => none

/-- The backend answers a command, if it has read its request and not answered it yet. -/
def answer (command : ℕ) (entries : List Entry) (w : CommandLink) : Option CommandLink :=
  if w.Arrived command ∧ command ∉ w.answers.map Prod.fst then
    some { w with answers := w.answers ++ [(command, entries)] }
  else
    none

/-- The bytes that a read of at most `n` bytes brings, if `size` bytes are asked for. -/
def chunk (w : CommandLink) (n size : ℕ) : List UInt8 :=
  (w.replies.drop w.delivered).take (min n size)

/-- The io context reads on, when all packets of the last read are handed on and their callbacks have
returned. There is no state behind a read whose bytes are moved from outside the buffer. -/
def read (n : ℕ) (w : CommandLink) : Option CommandLink :=
  if w.inbox = [] ∧ w.commands.taken = [] then
    match w.receiver.startReceive with
    | (receiver, some (offset, size)) =>
        let parsed := receiver.onRead offset (w.chunk n size)
        parsed.receiver.map fun receiver => { w with
          delivered := w.delivered + (w.chunk n size).length
          receiver
          inbox := parsed.packets }
    | (_, none) => none
  else
    none

/-- The next packet is handed on, when the callback of the last one has returned. -/
def handOn (behind : List UInt8) (w : CommandLink) : Option CommandLink :=
  match w.inbox, w.commands.taken with
  | packet :: inbox, [] =>
      (w.commands.step (.parsePacket packet behind)).map fun commands => { w with commands, inbox }
  | _, _ => none

/-- One step. -/
def step (platform : Platform) (w : CommandLink) : LinkStep → Option CommandLink
  | .request service command calls => w.request platform service command calls
  | .startSendCommand i => w.startSendCommand i
  | .startNextSendNoLock => w.send .startNextSendNoLock
  | .transmit i n => w.send (.transmit i n)
  | .complete i => w.send (.complete i)
  | .startNextSend => w.send .startNextSend
  | .answer command entries => w.answer command entries
  | .read n => w.read n
  | .parsePacket behind => w.handOn behind
  | .callback => (w.commands.step (.callback 0)).map fun commands => { w with commands }

/-- The condition on a step. A call has an id left, and its request has room for the fields that are
added. The backend answers with the `user-data` of the request, in a response that fits into the receive
buffer and has a text if it reports a failure. What a read moves to the front fits into the buffer. -/
def Guarded (bound : ℕ) (w : CommandLink) : LinkStep → Prop
  | .request service command calls =>
      w.commands.commandIdCounter < 2147483647 ∧ 0 ∉ command ∧
        ∃ fields, AddsFields StoredArray calls fields ∧ fields.CleanKeys ∧
          (document (encoding service command fields 0).bytes).length ≤ bound
  | .answer command entries =>
      WellFormed entries ∧ HasText entries ∧ (responseBytes entries).length ≤ kRxBufferSize ∧
        ∀ packet, w.channel.queued[command]? = some packet → responseId entries = requestId packet
  | .read n =>
      Receiver.MoveFits
        (w.receiver.pending ++ w.chunk n (kRxBufferSize - w.receiver.receiveBufferUsed))
  | .startSendCommand _ | .startNextSendNoLock | .transmit _ _ | .complete _ | .startNextSend
  | .parsePacket _ | .callback => True

/-- A callback is called for an answer, and gets what it says. -/
structure Gets (v : Invocation) (answer : ℕ × List Entry) : Prop where
  command : v.command = answer.1
  packet : v.packet = responseBytes answer.2
  tells : Tells (v.packet ++ v.behind) answer.2 v.result

/-- An answer to one of the commands with these ids. -/
structure Sound (ids : List ℤ) (answer : ℕ × List Entry) : Prop where
  wellFormed : WellFormed answer.2
  text : HasText answer.2
  fits : (responseBytes answer.2).length ≤ kRxBufferSize
  id : ∃ id, ids[answer.1]? = some id ∧ responseId answer.2 = some id

/-- **The invariant.** The requests that are queued carry the ids under which the callbacks are
registered; and what the client has read of the answers are the packets for which callbacks were taken
out, those that are yet to be handed on, and the bytes kept in the receive buffer. -/
structure Invariant (w : CommandLink) : Prop where
  commands : w.commands.Invariant
  counter : w.commands.commandIdCounter ≤ 2147483647
  channel : w.channel.Invariant
  isOpen : w.commands.mainSocketOpen = true ∧ w.channel.mainSocketOpen = true
  drafts : List.Forall₂ Carries w.commands.calls w.drafts
  queued : List.Forall₂ Carries w.commands.ids w.channel.queued
  sound : ∀ a ∈ w.answers, Sound w.commands.ids a
  once : (w.answers.map Prod.fst).Nodup
  delivered : w.delivered ≤ w.replies.length
  received : Receiver.Received (w.replies.take w.delivered)
    ((w.commands.invoked ++ w.commands.taken).map Invocation.packet ++ w.inbox) w.receiver
  told : ∃ answered rest, w.answers = answered ++ rest ∧
    List.Forall₂ Gets (w.commands.invoked ++ w.commands.taken) answered

end CommandLink

/-! ### Requests -/

/-- **The `user-data` of a request is read back.** -/
theorem requestId_encoding {service command : List UInt8} {body : Elements} (cmdId : BitVec 32)
    (hcommand : 0 ∉ command) (hbody : body.CleanKeys)
    (hsize : (document (encoding service command body cmdId).bytes).length < 2147483648) :
    requestId (document (encoding service command body cmdId).bytes) = some cmdId.toInt := by
  obtain ⟨entries, hentries⟩ : ∃ entries, entries = (encoding service command body cmdId).entries :=
    ⟨_, rfl⟩
  have hbytes : document (encoding service command body cmdId).bytes
      = document (entries.flatMap Entry.bytes) := by
    rw [hentries, Elements.flatMap_entries]
  have hclean : ∀ e ∈ entries, 0 ∉ e.1 ∧ e.2.CleanKeys := by
    rw [hentries]
    exact Elements.CleanKeys.entries
      ⟨by decide, by decide, by decide, ⟨hcommand, hbody, trivial⟩, by decide, trivial⟩
  rw [hbytes] at hsize ⊢
  obtain ⟨c, hc⟩ : ∃ c, c = documentContainer entries [] hclean hsize := ⟨_, rfl⟩
  have henters := @enters_document entries [] hclean hsize
    (document (entries.flatMap Entry.bytes)).length
  have hctor := ofBufferSize_document hsize [] le_rfl
  rw [← hc] at henters
  have hsplit : c.entries = [(ascii "00type", .leaf (.i32 1)), (ascii "service", .leaf (.string service)),
      (ascii "cmd", .sub .doc (.sub .doc command body .nil))]
        ++ (ascii "user-data", .leaf (.i32 cmdId)) :: [] := by
    rw [hc]
    exact hentries
  obtain ⟨r', hfind, -, -⟩ := DeviceInfo.tryFindAndGetI32_entry (.enter henters) hsplit (by
    simp only [List.forall_mem_cons]
    decide)
  rw [List.append_nil] at hctor hfind
  rw [requestId, hctor, ok_bind, hfind]

theorem wellSized_responseBytes {entries : List Entry}
    (hfits : (responseBytes entries).length ≤ kRxBufferSize) : WellSized (responseBytes entries) where
  declared := toI32_take_document (hfits.trans_lt (by decide))
  min := by
    rw [length_responseBytes, kMinValidBsonSize]
    omega
  fits := hfits

/-- Related elements are taken out of two lists. -/
theorem forall₂_eraseIdx {α β : Type} {R : α → β → Prop} {l : List α} {l' : List β}
    (h : List.Forall₂ R l l') (i : ℕ) : List.Forall₂ R (l.eraseIdx i) (l'.eraseIdx i) := by
  rw [List.eraseIdx_eq_take_drop_succ, List.eraseIdx_eq_take_drop_succ]
  exact List.rel_append (List.forall₂_take i h) (List.forall₂_drop (i + 1) h)

/-- What stands in one of two lists of related elements. -/
theorem forall₂_getElem? {α β : Type} {R : α → β → Prop} {l : List α} {l' : List β}
    (h : List.Forall₂ R l l') {i : ℕ} {a : α} (ha : l[i]? = some a) : ∃ b, l'[i]? = some b ∧ R a b := by
  obtain ⟨hi, rfl⟩ := List.getElem?_eq_some_iff.mp ha
  have hi' : i < l'.length := h.length_eq ▸ hi
  exact ⟨l'[i], List.getElem?_eq_getElem hi', h.get hi hi'⟩

/-- Related elements have the same image. -/
theorem map_eq_map_of_forall₂ {α β γ : Type} {R : α → β → Prop} {f : α → γ} {g : β → γ} {l : List α}
    {l' : List β} (h : List.Forall₂ R l l') (hR : ∀ a b, R a b → f a = g b) : l.map f = l'.map g := by
  induction h with
  | nil => rfl
  | cons hab _ ih => rw [List.map_cons, List.map_cons, hR _ _ hab, ih]

/-- A step of the writes of a channel. -/
def ChannelStep.writes : ChannelStep → Bool
  | .socket _ | .startSendCommand _ _ _ => false
  | .startNextSendNoLock | .transmit _ _ | .complete _ | .startNextSend => true

/-- The writes queue nothing, and leave the socket open. -/
theorem CommandChannel.queued_of_writes {c c' : CommandChannel} {l : ChannelStep}
    (h : c.step l = some c') (hl : l.writes = true) :
    c'.queued = c.queued ∧ c'.mainSocketOpen = c.mainSocketOpen := by
  cases l with
  | socket isOpen | startSendCommand txData cmdId cb => cases hl
  | startNextSendNoLock =>
      rw [step, Option.ite_none_right_eq_some, Option.some.injEq] at h
      obtain ⟨-, rfl⟩ := h
      rw [startNextSendNoLock]
      split <;> exact ⟨rfl, rfl⟩
  | transmit i n =>
      rw [step] at h
      split at h
      · obtain rfl := Option.some.inj h
        exact ⟨rfl, rfl⟩
      · cases h
  | complete i =>
      rw [step] at h
      split at h
      · rw [Option.ite_none_right_eq_some, Option.some.injEq] at h
        obtain ⟨-, rfl⟩ := h
        exact ⟨rfl, rfl⟩
      · cases h
  | startNextSend =>
      rw [step, Option.ite_none_right_eq_some, Option.some.injEq] at h
      obtain ⟨-, rfl⟩ := h
      exact ⟨rfl, rfl⟩

namespace CommandLink

section

variable {platform : Platform} {bound : ℕ} {w w' : CommandLink} {l : LinkStep}

/-! ### What one step keeps -/

/-- The callbacks change without a call. -/
theorem Invariant.counter_lt (hw : Invariant w) {l : CallbackStep} (hl : CommandCallbacks.requests l = 0) :
    w.commands.commandIdCounter + CommandCallbacks.requests l < 2147483648 := by
  have hcounter := hw.counter
  rw [hl]
  omega

/-- **A call takes its id** and finalizes its request with it. -/
theorem Invariant.request (hgrow : platform.GrowsWithin bound) (hbound : bound < 2147483648)
    (hsize : 100 ≤ bound) {service command : List UInt8} {calls : List BuilderCall}
    (hw : Invariant w) (hok : Guarded bound w (.request service command calls))
    (h : w.request platform service command calls = some w') : Invariant w' := by
  obtain ⟨hids, hcommand, fields, hfields, hclean, hfits⟩ := hok
  obtain ⟨cmdId, hid⟩ : ∃ cmdId, cmdId = w.commands.commandIdCounter := ⟨_, rfl⟩
  have hfits' : (document (encoding service command fields (BitVec.ofInt 32 cmdId)).bytes).length
      ≤ bound := by
    rw [length_encoding] at hfits ⊢
    exact hfits
  have hpacket := finalized_eq hfields hgrow hbound hsize service command (BitVec.ofInt 32 cmdId) hfits'
  have hread := @requestId_encoding service _ _ (BitVec.ofInt 32 cmdId) hcommand hclean
    (hfits'.trans_lt hbound)
  have hnonneg := hw.commands.counter
  have hback : (BitVec.ofInt 32 cmdId).toInt = cmdId :=
    BitVec.toInt_ofInt_eq_self (by decide) (by omega) (by omega)
  rw [CommandLink.request, ← hid, hpacket] at h
  obtain rfl := Option.some.inj h
  have hcommands := CommandCallbacks.step_invariant (l := .request) hw.commands
    (by rw [CommandCallbacks.requests]; omega) rfl
  exact {
    hw with
    commands := hcommands.1
    counter := by
      rw [hcommands.2, CommandCallbacks.requests]
      omega
    drafts := List.rel_append hw.drafts (.cons (by rw [Carries, ← hid, hread, hback]) .nil) }

/-- **A request is queued**, and its callback is registered. -/
theorem Invariant.startSendCommand {i : ℕ} (hw : Invariant w) (h : w.startSendCommand i = some w') :
    Invariant w' := by
  rw [CommandLink.startSendCommand] at h
  split at h
  · rename_i cmdId packet commands hid hpacket hcommands
    obtain ⟨channel, hchannel, rfl⟩ := Option.map_eq_some_iff.mp h
    have hinv := CommandCallbacks.step_invariant hw.commands (hw.counter_lt rfl) hcommands
    have hchannel' := CommandChannel.step_invariant hw.channel hchannel
    rw [CommandCallbacks.step, hid] at hcommands
    dsimp only at hcommands
    rw [if_pos hw.isOpen.1] at hcommands
    obtain rfl := Option.some.inj hcommands
    rw [CommandChannel.step] at hchannel
    split at hchannel
    · cases hchannel
    rw [if_neg (not_not_intro hw.isOpen.2)] at hchannel
    obtain rfl := Option.some.inj hchannel
    obtain ⟨packet', hpacket', hcarries⟩ := forall₂_getElem? hw.drafts hid
    obtain rfl := Option.some.inj (hpacket.symm.trans hpacket')
    exact {
      hw with
      commands := hinv.1
      channel := hchannel'
      drafts := forall₂_eraseIdx hw.drafts i
      queued := List.rel_append hw.queued (.cons hcarries .nil)
      sound := by
        intro a ha
        obtain ⟨ha₁, ha₂, ha₃, cmdId', hk, hresponse⟩ := hw.sound a ha
        exact ⟨ha₁, ha₂, ha₃, cmdId', getElem?_append_of_some hk _, hresponse⟩ }
  · cases h

/-- **The connection takes requests to the backend.** -/
theorem Invariant.send {l : ChannelStep} (hw : Invariant w) (hl : l.writes = true)
    (h : w.send l = some w') : Invariant w' := by
  obtain ⟨channel, hchannel, rfl⟩ := Option.map_eq_some_iff.mp h
  obtain ⟨hsame, hopen⟩ := CommandChannel.queued_of_writes hchannel hl
  exact {
    hw with
    channel := CommandChannel.step_invariant hw.channel hchannel
    isOpen := ⟨hw.isOpen.1, hopen.trans hw.isOpen.2⟩
    queued := by rw [hsame]; exact hw.queued }

/-- **The backend answers a request.** -/
theorem Invariant.answer {command : ℕ} {entries : List Entry} (hw : Invariant w)
    (hok : Guarded bound w (.answer command entries)) (h : w.answer command entries = some w') :
    Invariant w' := by
  obtain ⟨hentries, htext, hfits, hid⟩ := hok
  rw [CommandLink.answer, Option.ite_none_right_eq_some, Option.some.injEq] at h
  obtain ⟨⟨⟨hlt, -⟩, hnew⟩, rfl⟩ := h
  have hlt' : command < w.commands.ids.length := by rwa [hw.queued.length_eq]
  have hget := List.getElem?_eq_getElem hlt'
  obtain ⟨packet, hpacket, hcarries⟩ := forall₂_getElem? hw.queued hget
  have hreplies : replies { w with answers := w.answers ++ [(command, entries)] }
      = w.replies ++ responseBytes entries := by
    rw [replies, replies, List.map_append, List.flatten_append]
    exact congrArg _ (List.append_nil _)
  obtain ⟨answered, rest, hsplit, htold⟩ := hw.told
  exact {
    hw with
    sound := by
      intro a ha
      rcases List.mem_append.mp ha with ha | ha
      · exact hw.sound a ha
      · obtain rfl := List.mem_singleton.mp ha
        exact ⟨hentries, htext, hfits, _, hget, (hid packet hpacket).trans hcarries⟩
    once := by
      rw [List.map_append, List.map_singleton, ← List.concat_eq_append]
      exact List.Nodup.concat hnew hw.once
    delivered := by
      rw [hreplies, List.length_append]
      exact Nat.le_add_right_of_le hw.delivered
    received := by
      rw [hreplies, List.take_append_of_le_length hw.delivered]
      exact hw.received
    told := ⟨answered, rest ++ [(command, entries)], by rw [hsplit, List.append_assoc], htold⟩ }

theorem length_chunk (w : CommandLink) (n size : ℕ) : (w.chunk n size).length ≤ size := by
  rw [chunk, List.length_take]
  omega

/-- **The io context reads on**: the next bytes of the answers are cut into packets. -/
theorem Invariant.read {n : ℕ} (hw : Invariant w) (h : w.read n = some w') : Invariant w' := by
  rw [CommandLink.read] at h
  split at h
  · rename_i hidle
    rw [hw.received.startReceive_eq] at h
    dsimp only at h
    obtain ⟨receiver, hgoes, rfl⟩ := Option.map_eq_some_iff.mp h
    have hfit := w.length_chunk n (kRxBufferSize - w.receiver.receiveBufferUsed)
    obtain ⟨chunk, hchunk⟩ :
        ∃ chunk, chunk = w.chunk n (kRxBufferSize - w.receiver.receiveBufferUsed) := ⟨_, rfl⟩
    rw [← hchunk] at hgoes hfit ⊢
    have hmore : w.replies.take (w.delivered + chunk.length)
        = w.replies.take w.delivered ++ chunk := by
      have hpiece : (w.replies.drop w.delivered).take chunk.length = chunk := by
        rw [hchunk, CommandLink.chunk]
        exact (List.prefix_iff_eq_take.mp (List.take_prefix _ _)).symm
      rw [List.take_add, hpiece]
    have hlength := congrArg List.length hmore
    have hdelivered := hw.delivered
    rw [List.length_append, List.length_take, List.length_take] at hlength
    have hreceived := hw.received.read hfit hgoes
    rw [hidle.1, List.append_nil] at hreceived
    exact {
      hw with
      delivered := by
        show w.delivered + chunk.length ≤ w.replies.length
        omega
      received := by
        show Receiver.Received (w.replies.take (w.delivered + chunk.length)) _ _
        rw [hmore]
        exact hreceived }
  · cases h

/-- **A single byte can be read** as long as there are bytes to read. -/
theorem Invariant.read_one (hw : Invariant w) (hinbox : w.inbox = []) (htaken : w.commands.taken = [])
    (hleft : w.delivered < w.replies.length) (hspace : w.receiver.receiveBufferUsed < kRxBufferSize) :
    Guarded bound w (.read 1) ∧ ∃ receiver inbox,
      w.read 1 = some { w with delivered := w.delivered + 1, receiver, inbox } := by
  obtain ⟨b, hb⟩ : ∃ b, w.chunk 1 (kRxBufferSize - w.receiver.receiveBufferUsed) = [b] := by
    have hmin : min 1 (kRxBufferSize - w.receiver.receiveBufferUsed) = 1 := by omega
    rw [chunk, hmin, List.drop_eq_getElem_cons hleft]
    exact ⟨_, rfl⟩
  have hfit := w.length_chunk 1 (kRxBufferSize - w.receiver.receiveBufferUsed)
  have hnone := Framing.frame?_split (F := docFraming) (w.replies.take w.delivered)
  rw [hw.received.split] at hnone
  have hmoves := Receiver.moveFits_concat hnone b
  rw [← hb] at hmoves
  obtain ⟨receiver, hgoes⟩ : ∃ receiver,
      (Receiver.onRead { w.receiver with receivingInProgress := true } w.receiver.receiveBufferUsed
        (w.chunk 1 (kRxBufferSize - w.receiver.receiveBufferUsed))).receiver = some receiver :=
    (hw.received.goesOn_iff hfit).mpr hmoves
  refine ⟨hmoves, receiver, (Receiver.onRead { w.receiver with receivingInProgress := true }
    w.receiver.receiveBufferUsed [b]).packets, ?_⟩
  rw [CommandLink.read, if_pos ⟨hinbox, htaken⟩, hw.received.startReceive_eq]
  dsimp only
  rw [hgoes, hb]
  rfl

/-- The answers are frames of the stream that the client reads. -/
theorem Invariant.isFrame (hw : Invariant w) :
    ∀ d ∈ w.answers.map fun a => responseBytes a.2, docFraming.IsFrame d := by
  intro d hd
  obtain ⟨a, ha, rfl⟩ := List.mem_map.mp hd
  exact (wellSized_responseBytes (hw.sound a ha).fits).isFrame

/-- What has been cut from the answers is the front of their list. -/
theorem Invariant.packets (hw : Invariant w) :
    (w.commands.invoked ++ w.commands.taken).map Invocation.packet ++ w.inbox
      <+: w.answers.map fun a => responseBytes a.2 := by
  have hfront := (Framing.split_prefix hw.isFrame (List.take_prefix w.delivered w.replies)).1
  rwa [hw.received.split] at hfront

/-- The callback of a command that is answered, but not taken out, is registered. -/
theorem Invariant.registered (hw : Invariant w) {a : ℕ × List Entry} {id : ℤ}
    (hid : w.commands.ids[a.1]? = some id)
    (hnot : a.1 ∉ (w.commands.taken ++ w.commands.invoked).map Invocation.command) :
    (id, a.1) ∈ w.commands.handlers := by
  have hmem := hw.commands.places.mem_iff.mpr
    (List.mem_range.mpr (List.getElem?_eq_some_iff.mp hid).1)
  rcases List.mem_append.mp hmem with hmem | hmem
  · obtain ⟨handler, hhandler, heq⟩ := List.mem_map.mp hmem
    have hget := hw.commands.handlers handler hhandler
    rw [heq, hid] at hget
    obtain rfl := Option.some.inj hget
    rwa [← heq]
  · exact absurd hmem hnot

/-- **The next packet is an answer to a command whose callback is registered.** It is taken out, and
gets what the answer says. -/
theorem Invariant.handOn_eq (hw : Invariant w) {packet : List UInt8} {inbox : List (List UInt8)}
    (hinbox : w.inbox = packet :: inbox) (htaken : w.commands.taken = []) (behind : List UInt8) :
    ∃ answered a rest id result, w.answers = answered ++ a :: rest ∧
      List.Forall₂ Gets w.commands.invoked answered ∧ Gets ⟨a.1, packet, behind, result⟩ a ∧
      w.handOn behind = some { w with
        commands := { w.commands with
          handlers := w.commands.handlers.erase (id, a.1)
          taken := [⟨a.1, packet, behind, result⟩] }
        inbox } := by
  obtain ⟨answered, rest, hsplit, htold⟩ := hw.told
  have hpackets := hw.packets
  rw [htaken, List.append_nil] at htold hpackets
  -- the packets in front are those of the answers in front
  have hfront : w.commands.invoked.map Invocation.packet
      = answered.map fun a => responseBytes a.2 :=
    map_eq_map_of_forall₂ htold fun _ _ h => h.packet
  rw [hinbox, hsplit, List.map_append, hfront, List.prefix_append_right_inj] at hpackets
  cases rest with
  | nil => cases List.prefix_nil.mp hpackets
  | cons a rest =>
      obtain ⟨rfl, -⟩ := List.cons_prefix_cons.mp hpackets
      obtain ⟨hentries, htext, -, id, hid, hresponse⟩ :=
        hw.sound a (by rw [hsplit]; exact List.mem_append_right _ List.mem_cons_self)
      have hnot : a.1 ∉ (w.commands.taken ++ w.commands.invoked).map Invocation.command := by
        have hcommands : w.commands.invoked.map Invocation.command = answered.map Prod.fst :=
          map_eq_map_of_forall₂ htold fun _ _ h => h.command
        have honce := hw.once
        rw [hsplit, List.map_append, List.map_cons] at honce
        rw [htaken, List.nil_append, hcommands]
        exact fun hmem => (List.nodup_append.mp honce).2.2 _ hmem _ List.mem_cons_self rfl
      have hmem := hw.registered hid hnot
      have hnonneg := (hw.commands.fresh id (List.mem_append_right _ (List.mem_of_getElem? hid))).1
      have huser := (fieldsSay_responseFields hentries behind).userData.trans hresponse
      have hparse := (parsePacket_eq_some_iff (by simp)).mpr
        ⟨_, id, isResponse_bytes hentries behind, huser, by omega, hw.commands.find?_eq hmem, rfl, rfl⟩
      refine ⟨answered, a, rest, id, (Response.ofFields (responseBytes a.2 ++ behind)
        (responseFields a.2)).result, hsplit, htold, ⟨rfl, rfl, (tells_iff hentries).mpr htext⟩, ?_⟩
      rw [CommandLink.handOn, hinbox, htaken]
      dsimp only
      rw [CommandCallbacks.step, hparse]
      dsimp only
      rw [htaken, List.nil_append, Option.map_some]

/-- **A packet is handed on.** -/
theorem Invariant.handOn {behind : List UInt8} (hw : Invariant w) (h : w.handOn behind = some w') :
    Invariant w' := by
  obtain ⟨packet, inbox, hinbox, htaken, commands, hstep, hcommands⟩ : ∃ packet inbox,
      w.inbox = packet :: inbox ∧ w.commands.taken = [] ∧ ∃ commands,
        w.commands.step (.parsePacket packet behind) = some commands ∧ commands = w'.commands := by
    rw [CommandLink.handOn] at h
    split at h
    · rename_i packet inbox hinbox htaken
      obtain ⟨commands, hstep, rfl⟩ := Option.map_eq_some_iff.mp h
      exact ⟨packet, inbox, hinbox, htaken, commands, hstep, rfl⟩
    · cases h
  have hinv := CommandCallbacks.step_invariant hw.commands (hw.counter_lt rfl) hstep
  obtain ⟨answered, a, rest, id, result, hsplit, htold, hgets, heq⟩ :=
    hw.handOn_eq hinbox htaken behind
  obtain rfl := Option.some.inj (heq.symm.trans h)
  subst hcommands
  have hreceived := hw.received
  rw [htaken, hinbox, List.append_nil, ← List.singleton_append, ← List.append_assoc] at hreceived
  exact {
    hw with
    commands := hinv.1
    received := by
      rw [List.map_append]
      exact hreceived
    told := ⟨answered ++ [a], rest, by rw [hsplit, List.append_assoc]; rfl,
      List.rel_append htold (.cons hgets .nil)⟩ }

/-- **A callback is called.** -/
theorem Invariant.callback {commands : CommandCallbacks} (hw : Invariant w)
    (h : w.commands.step (.callback 0) = some commands) : Invariant { w with commands } := by
  have hinv := CommandCallbacks.step_invariant hw.commands (hw.counter_lt rfl) h
  rw [CommandCallbacks.step] at h
  split at h
  · rename_i v hv
    obtain rfl := Option.some.inj h
    have hmoved : w.commands.invoked ++ [v] ++ w.commands.taken.eraseIdx 0
        = w.commands.invoked ++ w.commands.taken := by
      cases htaken : w.commands.taken with
      | nil => simp [htaken] at hv
      | cons v' taken =>
          rw [htaken] at hv
          obtain rfl := Option.some.inj hv
          rw [List.eraseIdx_cons_zero, List.append_assoc]
          rfl
    exact {
      hw with
      commands := hinv.1
      received := by rw [hmoved]; exact hw.received
      told := by rw [hmoved]; exact hw.told }
  · cases h

/-- **What one step keeps.** -/
theorem step_invariant (hgrow : platform.GrowsWithin bound) (hbound : bound < 2147483648)
    (hsize : 100 ≤ bound) (hw : Invariant w) (hok : Guarded bound w l)
    (h : step platform w l = some w') : Invariant w' := by
  cases l with
  | request service command calls => exact hw.request hgrow hbound hsize hok h
  | startSendCommand i => exact hw.startSendCommand h
  | startNextSendNoLock => exact hw.send rfl h
  | transmit i n => exact hw.send rfl h
  | complete i => exact hw.send rfl h
  | startNextSend => exact hw.send rfl h
  | answer command entries => exact hw.answer hok h
  | read n => exact hw.read h
  | parsePacket behind => exact hw.handOn h
  | callback =>
      obtain ⟨commands, hstep, rfl⟩ := Option.map_eq_some_iff.mp h
      exact hw.callback hstep

/-! ### Whole runs -/

/-- The connection has just been opened. -/
def opened (buffer : List UInt8) : CommandLink where
  receiver := ⟨buffer, 0, false⟩

theorem invariant_opened {buffer : List UInt8} (hbuffer : buffer.length = kRxBufferSize) :
    Invariant (opened buffer) where
  commands := (CommandCallbacks.step_invariant (l := .socket true) CommandCallbacks.invariant_initial
    (by decide) rfl).1
  counter := (by decide : (0 : ℤ) ≤ 2147483647)
  channel := CommandChannel.step_invariant (l := .socket true) CommandChannel.invariant_initial rfl
  isOpen := ⟨rfl, rfl⟩
  drafts := .nil
  queued := .nil
  sound := fun _ ha => absurd ha List.not_mem_nil
  once := List.nodup_nil
  delivered := le_rfl
  received := {
    size := hbuffer
    used := Nat.zero_le _
    idle := rfl
    split := Framing.split_of_none rfl
    fits := fun _ hp => absurd hp List.not_mem_nil }
  told := ⟨[], [], rfl, .nil⟩

/-- **What becomes of the commands.** -/
structure Faithful (w : CommandLink) : Prop where
  /-- The requests carry the ids of their commands. -/
  requests : List.Forall₂ Carries w.commands.ids w.channel.queued
  /-- The backend reads them in the order in which the commands were accepted, byte for byte. -/
  stream : w.channel.stream <+: w.channel.queued.flatten
  /-- Each answer is for the id of its command, and no command is answered twice. -/
  answers : ∀ a ∈ w.answers, ∃ id, w.commands.ids[a.1]? = some id ∧ responseId a.2 = some id
  once : (w.answers.map Prod.fst).Nodup
  /-- The callbacks are called in the order of the answers, each with the answer to its command. -/
  called : ∃ answered rest, w.answers = answered ++ rest ∧
    List.Forall₂ Gets w.commands.invoked answered
  /-- When all answers are read and handed on, all their callbacks are called. -/
  complete : w.delivered = w.replies.length → w.inbox = [] → w.commands.taken = [] →
    List.Forall₂ Gets w.commands.invoked w.answers
  /-- A command whose callback is not called has it registered, or taken out. -/
  waiting : ∀ k < w.commands.ids.length, k ∉ w.commands.invoked.map Invocation.command →
    (∃ id, (id, k) ∈ w.commands.handlers) ∨ k ∈ w.commands.taken.map Invocation.command

/-- What has gone out is a part of what was queued. -/
theorem Invariant.stream (hw : Invariant w) : w.channel.stream <+: w.channel.queued.flatten := by
  rw [hw.channel.inOrder.packets, hw.channel.inOrder.bytes, List.flatten_append,
    List.flatten_append, List.append_assoc, List.prefix_append_right_inj]
  cases hflag : w.channel.sendInProgress with
  | false =>
      rw [hw.channel.idle hflag]
      exact List.nil_prefix
  | true =>
      obtain ⟨packet, hwrites⟩ := hw.channel.writing hflag
      rw [hwrites, List.flatMap_singleton, List.map_singleton, List.flatten_singleton]
      exact (List.take_prefix _ _).trans (List.prefix_append _ _)

/-- **When everything is read, all answers are packets.** -/
theorem Invariant.packets_all (hw : Invariant w) (hdelivered : w.delivered = w.replies.length) :
    (w.commands.invoked ++ w.commands.taken).map Invocation.packet ++ w.inbox
      = w.answers.map (fun a => responseBytes a.2) ∧ w.receiver.pending = [] := by
  have hsplit := hw.received.split
  have hframes := Framing.split_frames hw.isFrame []
  rw [hdelivered, List.take_length, replies] at hsplit
  rw [List.append_nil, Framing.split_of_none (l := []) rfl, List.append_nil, hsplit] at hframes
  exact Prod.mk.inj hframes

/-- **What the invariant says** about the commands. -/
theorem Invariant.faithful (hw : Invariant w) : w.Faithful where
  requests := hw.queued
  stream := hw.stream
  answers := fun a ha => (hw.sound a ha).id
  once := hw.once
  called := by
    obtain ⟨answered, rest, hsplit, htold⟩ := hw.told
    have hfront := List.forall₂_take w.commands.invoked.length htold
    rw [List.take_left] at hfront
    refine ⟨_, answered.drop w.commands.invoked.length ++ rest, ?_, hfront⟩
    rw [hsplit, ← List.append_assoc, List.take_append_drop]
  complete := by
    intro hdelivered hinbox htaken
    obtain ⟨answered, rest, hsplit, htold⟩ := hw.told
    have hall := congrArg List.length (hw.packets_all hdelivered).1
    have hlength := htold.length_eq
    rw [hinbox, List.append_nil, List.length_map, List.length_map, hlength, hsplit,
      List.length_append] at hall
    obtain rfl := List.eq_nil_of_length_eq_zero (show rest.length = 0 by omega)
    rwa [htaken, List.append_nil, ← List.append_nil answered, ← hsplit] at htold
  waiting := by
    intro k hk hnot
    by_cases htaken : k ∈ w.commands.taken.map Invocation.command
    · exact .inr htaken
    · refine .inl ⟨w.commands.ids[k], hw.registered (a := (k, [])) (List.getElem?_eq_getElem hk) ?_⟩
      rw [List.map_append]
      exact fun hmem => (List.mem_append.mp hmem).elim htaken hnot

/-- **Every command is answered by its own answer.** In every run in which the backend answers with the
`user-data` of the requests, whatever the order of its answers, however the streams are cut into pieces
and the steps of the threads are mixed, the callbacks are called in the order of the answers, each once
and with what the answer to its command says, and none is missed. -/
theorem answers_arrive (hgrow : platform.GrowsWithin bound) (hbound : bound < 2147483648)
    (hsize : 100 ≤ bound) {buffer : List UInt8} (hbuffer : buffer.length = kRxBufferSize)
    {ls : List LinkStep} (hok : Runs.Meets (step platform) (Guarded bound) (opened buffer) ls)
    (h : exec (step platform) (opened buffer) ls = some w) : w.Faithful :=
  (hok.invariant (fun hw hok h => step_invariant hgrow hbound hsize hw hok h)
    (invariant_opened hbuffer) h).faithful

/-! ### No answer is left lying -/

/-- What the io context has yet to do for the answers: to read the bytes that are left, to hand on the
packets, and to call the callbacks. -/
def remaining (w : CommandLink) : ℕ :=
  2 * (w.answers.length - (w.commands.invoked.length + w.commands.taken.length))
    + w.commands.taken.length + (w.replies.length - w.delivered)

/-- **There is always space to read more**, as no answer is longer than the buffer. -/
theorem Invariant.space (hw : Invariant w) : w.receiver.receiveBufferUsed < kRxBufferSize := by
  obtain ⟨others, hothers⟩ := hw.packets
  have hflat := Framing.split_flatten (F := docFraming) (w.replies.take w.delivered)
  have hnext := (Framing.split_prefix hw.isFrame (List.take_prefix w.delivered w.replies)).2
  rw [hw.received.split] at hflat hnext
  rw [← hw.received.length_pending]
  cases others with
  | nil =>
      -- everything that was read is handed on
      have hlen := congrArg (fun l : List (List UInt8) => l.flatten.length) hothers
      have htake := congrArg List.length hflat
      rw [List.append_nil] at hlen
      rw [List.length_append, List.length_take] at htake
      have hreplies : w.replies.length = (w.answers.map fun a => responseBytes a.2).flatten.length := rfl
      dsimp only at hlen htake
      have hpos : 0 < kRxBufferSize := by decide
      omega
  | cons d others =>
      have hlt := hnext d ⟨others, by rw [← hothers, List.append_assoc]; rfl⟩
      have hd : d ∈ w.answers.map fun a => responseBytes a.2 := by
        rw [← hothers]
        exact List.mem_append_right _ List.mem_cons_self
      obtain ⟨a, ha, rfl⟩ := List.mem_map.mp hd
      exact hlt.trans_le (hw.sound a ha).fits

/-- The packets that were handed on belong to different answers. -/
theorem Invariant.handed_le (hw : Invariant w) :
    w.commands.invoked.length + w.commands.taken.length + w.inbox.length ≤ w.answers.length := by
  have hle := hw.packets.length_le
  rwa [List.length_append, List.length_map, List.length_append, List.length_map] at hle

/-- **The io context can go on**, as long as a callback is left to be called. -/
theorem Invariant.exists_step (platform : Platform) (bound : ℕ) (hw : Invariant w)
    (hmore : w.commands.invoked.length < w.answers.length) :
    ∃ l w', l.ofIoContext = true ∧ Guarded bound w l ∧ step platform w l = some w' ∧
      w'.answers = w.answers ∧ w'.commands.ids = w.commands.ids ∧ w'.remaining < w.remaining := by
  cases htaken : w.commands.taken with
  | cons v taken =>
      refine ⟨.callback, { w with commands := { w.commands with
        taken, invoked := w.commands.invoked ++ [v] } }, rfl, trivial, ?_, rfl, rfl, ?_⟩
      · rw [step, CommandCallbacks.step, htaken]
        rfl
      · rw [remaining, remaining, htaken]
        dsimp only [replies]
        rw [List.length_append, List.length_singleton, List.length_cons]
        omega
  | nil =>
      cases hinbox : w.inbox with
      | cons packet inbox =>
          obtain ⟨answered, a, rest, id, result, -, -, -, heq⟩ := hw.handOn_eq hinbox htaken []
          have hle := hw.handed_le
          refine ⟨.parsePacket [], _, rfl, trivial, heq, rfl, rfl, ?_⟩
          rw [htaken, hinbox, List.length_nil, List.length_cons] at hle
          rw [remaining, remaining, htaken]
          dsimp only [replies]
          rw [List.length_singleton, List.length_nil]
          omega
      | nil =>
          have hleft : w.delivered < w.replies.length := by
            refine lt_of_le_of_ne hw.delivered fun hall => ?_
            have hlength := (hw.faithful.complete hall hinbox htaken).length_eq
            omega
          obtain ⟨hok, receiver, inbox, hread⟩ := hw.read_one hinbox htaken hleft hw.space
          refine ⟨.read 1, _, rfl, hok, hread, rfl, rfl, ?_⟩
          rw [remaining, remaining]
          dsimp only [replies] at hleft ⊢
          omega

/-- The io context goes on until all callbacks are called. -/
theorem Invariant.drained (hgrow : platform.GrowsWithin bound) (hbound : bound < 2147483648)
    (hsize : 100 ≤ bound) (hw : Invariant w) :
    ∃ ls w', (∀ l ∈ ls, l.ofIoContext = true) ∧ Runs.Meets (step platform) (Guarded bound) w ls ∧
      exec (step platform) w ls = some w' ∧ w'.commands.ids = w.commands.ids ∧
      List.Forall₂ Gets w'.commands.invoked w.answers := by
  induction hn : w.remaining using Nat.strongRecOn generalizing w with
  | ind n ih =>
      by_cases hmore : w.commands.invoked.length < w.answers.length
      · obtain ⟨l, w₁, hl, hok, hstep, hanswers, hids, hless⟩ := hw.exists_step platform bound hmore
        have hw₁ := step_invariant hgrow hbound hsize hw hok hstep
        obtain ⟨ls, w', hall, hoks, hrun, hids', hgets⟩ := ih _ (hn ▸ hless) hw₁ rfl
        rw [hanswers] at hgets
        exact ⟨l :: ls, w', List.forall_mem_cons.mpr ⟨hl, hall⟩, .cons hstep hok hoks,
          exec_cons.mpr ⟨w₁, hstep, hrun⟩, hids'.trans hids, hgets⟩
      · refine ⟨[], w, by simp, trivial, rfl, rfl, ?_⟩
        obtain ⟨answered, rest, hsplit, hgets⟩ := hw.faithful.called
        have hlength := hgets.length_eq
        rw [hsplit, List.length_append] at hmore
        obtain rfl := List.eq_nil_of_length_eq_zero (show rest.length = 0 by omega)
        rwa [hsplit, List.append_nil]

/-- **No answer is left lying.** From every state of such a run the io context alone can go on, with
reads of which nothing is moved from outside the buffer, until the callbacks of all commands that the
backend has answered are called, each with its answer. -/
theorem answers_drained (hgrow : platform.GrowsWithin bound) (hbound : bound < 2147483648)
    (hsize : 100 ≤ bound) {buffer : List UInt8} (hbuffer : buffer.length = kRxBufferSize)
    {ls : List LinkStep} (hok : Runs.Meets (step platform) (Guarded bound) (opened buffer) ls)
    (h : exec (step platform) (opened buffer) ls = some w) :
    ∃ ls' w', (∀ l ∈ ls', l.ofIoContext = true) ∧ Runs.Meets (step platform) (Guarded bound) w ls' ∧
      exec (step platform) w ls' = some w' ∧ w'.commands.ids = w.commands.ids ∧
      List.Forall₂ Gets w'.commands.invoked w.answers :=
  (hok.invariant (fun hw hok h => step_invariant hgrow hbound hsize hw hok h)
    (invariant_opened hbuffer) h).drained hgrow hbound hsize

/-! ### A run -/

/-- A request is finalized. -/
theorem step_request {service command packet : List UInt8} {calls : List BuilderCall}
    (h : finalized platform calls (BitVec.ofInt 32 w.commands.commandIdCounter)
      (initializeCommand platform service command {}) = .ok packet) :
    step platform w (.request service command calls) = some { w with
      commands := { w.commands with
        commandIdCounter := wrap32 (w.commands.commandIdCounter + 1)
        calls := w.commands.calls ++ [w.commands.commandIdCounter] }
      drafts := w.drafts ++ [packet] } := by
  rw [step, CommandLink.request, h]
  rfl

/-- The bytes of a request without fields. -/
def bareRequest : List UInt8 :=
  document (encoding [115] [116] .nil 0).bytes

/-- The answer to it. -/
def bareAnswer : List Entry :=
  [(ascii "user-data", .leaf (.i32 0))]

/-- A command without fields is sent and answered. -/
def bareSteps : List LinkStep :=
  [.request [115] [116] [], .startSendCommand 0, .startNextSendNoLock, .transmit 0 100,
    .answer 0 bareAnswer]

/-- The connection when its request is queued, and when a part of it is sent. -/
def bareSent (sent : List UInt8) : CommandLink where
  commands := { mainSocketOpen := true, commandIdCounter := 1, handlers := [(0, 0)], ids := [0] }
  channel := {
    mainSocketOpen := true
    handlers := [(0, 0)]
    sendInProgress := true
    writes := [⟨bareRequest, sent.length⟩]
    queued := [bareRequest]
    stream := sent }
  receiver := ⟨List.replicate kRxBufferSize 0, 0, false⟩

theorem wellFormed_bareAnswer : WellFormed bareAnswer where
  keys := by decide
  clean := List.forall_mem_cons.mpr ⟨⟨by decide, trivial⟩, by simp⟩
  size := by decide +kernel

theorem run_bareSteps : ∃ w,
    exec (step .tight) (opened (List.replicate kRxBufferSize 0)) bareSteps = some w ∧
      w.answers = [(0, bareAnswer)] ∧
      Runs.Meets (step .tight) (Guarded 200) (opened (List.replicate kRxBufferSize 0)) bareSteps := by
  have hfits : (document (encoding [115] [116] .nil 0).bytes).length ≤ 200 := by decide +kernel
  have hbytes : finalized .tight [] (BitVec.ofInt 32 0) (initializeCommand .tight [115] [116] {})
      = .ok bareRequest :=
    finalized_eq .done (Platform.growsWithin_tight (show 200 < 2147483648 by decide)) (by decide)
      (by decide) [115] [116] 0 hfits
  have hrequest := step_request (w := opened (List.replicate kRxBufferSize 0)) hbytes
  have htransmit : step .tight (bareSent []) (.transmit 0 100) = some (bareSent bareRequest) := by
    have hchannel : (bareSent []).channel.step (.transmit 0 100)
        = some (bareSent bareRequest).channel := by
      decide +kernel
    rw [step, send, hchannel]
    rfl
  have harrived : (bareSent bareRequest).Arrived 0 ∧
      0 ∉ (bareSent bareRequest).answers.map Prod.fst := by
    decide +kernel
  have hanswer : step .tight (bareSent bareRequest) (.answer 0 bareAnswer)
      = some { bareSent bareRequest with answers := [(0, bareAnswer)] } := by
    rw [step, CommandLink.answer, if_pos harrived]
    rfl
  refine ⟨_, exec_cons.mpr ⟨_, hrequest, exec_cons.mpr ⟨_, rfl, exec_cons.mpr ⟨bareSent [], rfl,
    exec_cons.mpr ⟨_, htransmit, exec_cons.mpr ⟨_, hanswer, rfl⟩⟩⟩⟩⟩, rfl, ?_⟩
  refine .cons hrequest ⟨by decide, by decide, .nil, .done, trivial, hfits⟩
    (.cons rfl trivial (.cons (t := bareSent []) rfl trivial
      (.cons htransmit trivial (.cons hanswer ?_ trivial))))
  refine ⟨wellFormed_bareAnswer, .inl (by decide), by decide +kernel, fun packet hpacket => ?_⟩
  obtain rfl := Option.some.inj hpacket
  exact (@requestId_encoding _ _ .nil 0 (by decide) trivial (hfits.trans_lt (by decide))).symm

/-- The answer is read, and the callback of its command gets it. -/
theorem answers_arrive_bare : ∃ ls w,
    exec (step .tight) (opened (List.replicate kRxBufferSize 0)) (bareSteps ++ ls) = some w ∧
      List.Forall₂ Gets w.commands.invoked [(0, bareAnswer)] ∧ w.Faithful := by
  have hgrow := Platform.growsWithin_tight (show 200 < 2147483648 by decide)
  obtain ⟨w, hrun, hanswers, hok⟩ := run_bareSteps
  have hw := hok.invariant
    (fun hw hok h => step_invariant hgrow (by decide) (by decide) hw hok h)
    (invariant_opened List.length_replicate) hrun
  obtain ⟨ls, w', -, hoks, hrun', -, hgets⟩ := hw.drained hgrow (by decide) (by decide)
  rw [hanswers] at hgets
  have hall := exec_append.mpr ⟨w, hrun, hrun'⟩
  exact ⟨ls, w', hall, hgets, answers_arrive hgrow (by decide) (by decide)
    List.length_replicate ((meets_append hrun).mpr ⟨hok, hoks⟩) hall⟩

/-- Its callback gets it. -/
theorem answers_drained_bare : ∃ w ls' w',
    exec (step .tight) (opened (List.replicate kRxBufferSize 0)) bareSteps = some w ∧
      (∀ l ∈ ls', l.ofIoContext = true) ∧ exec (step .tight) w ls' = some w' ∧
      List.Forall₂ Gets w'.commands.invoked [(0, bareAnswer)] := by
  obtain ⟨w, hrun, hanswers, hok⟩ := run_bareSteps
  obtain ⟨ls', w', hall, -, hrun', -, hgets⟩ := answers_drained
    (Platform.growsWithin_tight (show 200 < 2147483648 by decide)) (by decide) (by decide)
    List.length_replicate hok hrun
  exact ⟨w, ls', w', hrun, hall, hrun', hanswers ▸ hgets⟩

end

end CommandLink

end ScApi
