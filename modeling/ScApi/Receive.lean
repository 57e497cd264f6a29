import ScApi.Lib.Bytes
import ScApi.Lib.Framing

/-!
# Receiving packets

The receive loop of a session reads into the free space behind the bytes it has not consumed,
hands every complete document in the buffer to `parsePacket` and moves the rest to the front.

`tryParsePacket` is modelled with the ranges of the buffer it accesses, whether they lie in the
buffer or not. Moving the rest to the front reads behind a buffer that is nearly full; what happens
from there on is left open: there is no state behind such a call. What the loop does to a stream is a
`Framing`: `docFraming` cuts a stream into documents by their size prefixes.

## Main results

* `tryParsePacket_spec`: one call hands on the complete documents and keeps the rest.
* `accesses_inside_iff`: when all bytes that `tryParsePacket` accesses lie in the buffer.
* `Run.received`: in every run that goes on, the packets and the bytes kept are the received stream,
  cut into documents.
* `Run.delivers_iff`: when a stream of documents is handed on document by document.
* `Run.space_iff`: when a run that goes on has free space left.
-/

open Bytes

namespace ScApi

/-- `k_rx_buffer_size`. -/
def kRxBufferSize : ℕ := 0x10000

/-- `k_min_valid_bson_size`. -/
def kMinValidBsonSize : ℕ := 5

/-- The size that the document at the front of some bytes declares. -/
def declaredSize (l : List UInt8) : ℤ :=
  toI32 (l.take 4)

/-- An access of `tryParsePacket` to the receive buffer. -/
inductive Access where
  | lengthPrefix (offset : ℕ)
  | packet (offset size : ℕ)
  | move (source destination count : ℕ)
  deriving DecidableEq, Repr

/-- The access lies in a buffer of `size` bytes. -/
def Access.Inside (size : ℕ) : Access → Prop
  | .lengthPrefix offset => offset + 4 ≤ size
  | .packet offset count => offset + count ≤ size
  | .move source destination count => source + count ≤ size ∧ destination + count ≤ size

theorem Access.Inside.mono {a : Access} {size size' : ℕ} (h : a.Inside size) (hle : size ≤ size') :
    a.Inside size' := by
  cases a <;> simp only [Access.Inside] at h ⊢ <;> omega

/-- The bytes that an access hands to `parsePacket`. -/
def Access.handed (buffer : List UInt8) : Access → Option (List UInt8)
  | .packet offset size => some ((buffer.drop offset).take size)
  | .lengthPrefix _ | .move _ _ _ => none

/-- The receiving half of `Session::Internal`. -/
structure Receiver where
  receiveBuffer : List UInt8
  receiveBufferUsed : ℕ
  receivingInProgress : Bool
  deriving DecidableEq, Repr

/-- What a call of `tryParsePacket` does: its accesses in order, the packets it hands to
`parsePacket`, and the state it leaves, if it has not accessed a byte outside the buffer. -/
structure Parsed where
  accesses : List Access
  packets : List (List UInt8)
  receiver : Option Receiver
  deriving DecidableEq, Repr

namespace Receiver

/-- `startReceive`: the range of the buffer it asks to be read into, an offset and a size. -/
def startReceive (r : Receiver) : Receiver × Option (ℕ × ℕ) :=
  if r.receivingInProgress then
    (r, none)
  else
    ({ r with receivingInProgress := true },
      some (r.receiveBufferUsed, r.receiveBuffer.length - r.receiveBufferUsed))

/-- The loop of `tryParsePacket` from `offset` on: its accesses, and the offset it leaves. Every
turn consumes a byte, so `used` turns are enough; `offset` never exceeds `used`, so the unsigned
difference does not wrap around. -/
def packetLoop (buffer : List UInt8) (used : ℕ) : ℕ → ℕ → List Access × ℕ
  | 0, offset => ([], offset)
  | n + 1, offset =>
      if kMinValidBsonSize ≤ used - offset then
        let totalDocSize := declaredSize (buffer.drop offset)
        if totalDocSize ≤ 0 then
          ([.lengthPrefix offset], offset)
        else if (used - offset : ℕ) < totalDocSize then
          ([.lengthPrefix offset], offset)
        else
          let rest := packetLoop buffer used n (offset + totalDocSize.toNat)
          (.lengthPrefix offset :: .packet offset totalDocSize.toNat :: rest.1, rest.2)
      else
        ([], offset)

/-- `memmove` of `count` bytes from `source` to the front of the buffer. There is no buffer behind it
if it reads or writes outside. -/
def memmove (buffer : List UInt8) (source count : ℕ) : Option (List UInt8) :=
  if source + count ≤ buffer.length then
    some ((buffer.drop source).take count ++ buffer.drop count)
  else
    none

/-- `tryParsePacket`. -/
def tryParsePacket (r : Receiver) : Parsed :=
  let used := r.receiveBufferUsed
  let (accesses, offset) := packetLoop r.receiveBuffer used used 0
  let packets := accesses.filterMap (Access.handed r.receiveBuffer)
  if 0 < offset ∧ offset < used then
    { accesses := accesses ++ [.move offset 0 used]
      packets
      receiver := (memmove r.receiveBuffer offset used).map fun receiveBuffer =>
        { r with receiveBuffer, receiveBufferUsed := used - offset } }
  else
    { accesses, packets, receiver := some { r with receiveBufferUsed := used - offset } }

/-- The completion handler of `startReceive`, up to `tryParsePacket`: `chunk` has been read to the
offset that was asked for. -/
def onRead (r : Receiver) (offset : ℕ) (chunk : List UInt8) : Parsed :=
  tryParsePacket
    { receiveBuffer := r.receiveBuffer.take offset ++ chunk ++
        r.receiveBuffer.drop (offset + chunk.length)
      receiveBufferUsed := r.receiveBufferUsed + chunk.length
      receivingInProgress := false }

/-- The bytes that are kept for the next read. -/
def pending (r : Receiver) : List UInt8 :=
  r.receiveBuffer.take r.receiveBufferUsed

/-- **A run of the receive loop**: the chunks read so far, the packets handed to `parsePacket`, and
the state behind the last `tryParsePacket`. Every read is asked for by `startReceive` and is no
longer than asked for. A run that has accessed a byte outside the buffer has no state and does not go
on. -/
inductive Run : List (List UInt8) → List (List UInt8) → Option Receiver → Prop
  | start {buffer : List UInt8} (h : buffer.length = kRxBufferSize) :
      Run [] [] (some ⟨buffer, 0, false⟩)
  | read {chunks packets : List (List UInt8)} {r r' : Receiver} {offset size : ℕ}
      {chunk : List UInt8} (h : Run chunks packets (some r))
      (hask : r.startReceive = (r', some (offset, size))) (hfit : chunk.length ≤ size) :
      Run (chunks ++ [chunk]) (packets ++ (r'.onRead offset chunk).packets)
        (r'.onRead offset chunk).receiver

end Receiver

/-! ### Streams of documents -/

/-- The length of the document that some bytes start with, when all of it is there. A document is
looked at only when there are enough bytes for an empty one. -/
def docLength? (l : List UInt8) : Option ℕ :=
  if kMinValidBsonSize ≤ l.length ∧ 0 < declaredSize l ∧ declaredSize l ≤ l.length then
    some (declaredSize l).toNat
  else
    none

theorem docLength?_eq_some_iff {l : List UInt8} {n : ℕ} :
    docLength? l = some n ↔
      kMinValidBsonSize ≤ l.length ∧ 0 < n ∧ declaredSize l = n ∧ n ≤ l.length := by
  rw [docLength?, Option.ite_none_right_eq_some, Option.some.injEq]
  constructor
  · rintro ⟨⟨hmin, hpos, hle⟩, rfl⟩
    exact ⟨hmin, by omega, by omega, by omega⟩
  · rintro ⟨hmin, hpos, hsize, hle⟩
    rw [hsize]
    exact ⟨⟨hmin, by omega, by omega⟩, by omega⟩

theorem declaredSize_append {l : List UInt8} (h : kMinValidBsonSize ≤ l.length) (t : List UInt8) :
    declaredSize (l ++ t) = declaredSize l := by
  have h4 : 4 ≤ l.length := le_trans (by decide) h
  rw [declaredSize, declaredSize, List.take_append_of_le_length h4]

/-- A stream is cut into documents by their size prefixes. -/
def docFraming : Framing UInt8 where
  frame? := docLength?
  pos := fun h => (docLength?_eq_some_iff.mp h).2.1
  le_length := fun h => (docLength?_eq_some_iff.mp h).2.2.2
  stable := by
    intro l n t h
    obtain ⟨hmin, hpos, hsize, hle⟩ := docLength?_eq_some_iff.mp h
    have hlen : l.length ≤ (l ++ t).length := by simp
    exact docLength?_eq_some_iff.mpr
      ⟨hmin.trans hlen, hpos, (declaredSize_append hmin t).trans hsize, hle.trans hlen⟩

theorem frame?_eq_some_iff {l : List UInt8} {n : ℕ} :
    docFraming.frame? l = some n ↔
      kMinValidBsonSize ≤ l.length ∧ 0 < n ∧ declaredSize l = n ∧ n ≤ l.length :=
  docLength?_eq_some_iff

theorem frame?_eq_none {l : List UInt8} (h : l.length < kMinValidBsonSize ∨ declaredSize l ≤ 0 ∨
    l.length < declaredSize l) : docFraming.frame? l = none :=
  if_neg (by omega)

/-- A document as the backend sends it: its prefix declares its length, which is at least that of an
empty document and fits into the receive buffer. -/
structure WellSized (d : List UInt8) : Prop where
  declared : declaredSize d = d.length
  min : kMinValidBsonSize ≤ d.length
  fits : d.length ≤ kRxBufferSize

theorem WellSized.isFrame {d : List UInt8} (h : WellSized d) : docFraming.IsFrame d := by
  intro t
  have hpos : 0 < d.length := lt_of_lt_of_le (by decide) h.min
  have hlen : d.length ≤ (d ++ t).length := by simp
  exact frame?_eq_some_iff.mpr
    ⟨h.min.trans hlen, hpos, (declaredSize_append h.min t).trans h.declared, hlen⟩

/-! ### One call of `tryParsePacket` -/

namespace Receiver

/-- **The loop hands on the complete documents** among the used bytes from `offset` on, reads only
used bytes, and leaves the offset of the rest. -/
theorem packetLoop_spec {buffer : List UInt8} {used : ℕ} (hused : used ≤ buffer.length)
    (n offset : ℕ) (hn : used - offset ≤ n) (hoffset : offset ≤ used) :
    (packetLoop buffer used n offset).1.filterMap (Access.handed buffer)
        = (docFraming.split ((buffer.take used).drop offset)).1 ∧
      (buffer.take used).drop (packetLoop buffer used n offset).2
        = (docFraming.split ((buffer.take used).drop offset)).2 ∧
      offset ≤ (packetLoop buffer used n offset).2 ∧
      (packetLoop buffer used n offset).2 ≤ used ∧
      ∀ a ∈ (packetLoop buffer used n offset).1, a.Inside used := by
  induction n generalizing offset with
  | zero =>
      have hnil : (buffer.take used).drop offset = [] := by
        rw [List.drop_eq_nil_iff, List.length_take]
        omega
      have hnone : docFraming.frame? ((buffer.take used).drop offset) = none := by
        rw [hnil]
        rfl
      rw [Framing.split_of_none hnone]
      exact ⟨rfl, rfl, le_rfl, hoffset, by simp [packetLoop]⟩
  | succ n ih =>
      have hlen : ((buffer.take used).drop offset).length = used - offset := by
        rw [List.length_drop, List.length_take]
        omega
      -- the loop stops at `offset`: nothing more is handed on
      have hstop : ∀ accesses : List Access, accesses.filterMap (Access.handed buffer) = [] →
          (∀ a ∈ accesses, a.Inside used) →
          docFraming.frame? ((buffer.take used).drop offset) = none →
          accesses.filterMap (Access.handed buffer)
              = (docFraming.split ((buffer.take used).drop offset)).1 ∧
            (buffer.take used).drop offset
              = (docFraming.split ((buffer.take used).drop offset)).2 ∧
            offset ≤ offset ∧ offset ≤ used ∧ ∀ a ∈ accesses, a.Inside used := by
        intro accesses hhanded hinside hnone
        rw [Framing.split_of_none hnone]
        exact ⟨hhanded, rfl, le_rfl, hoffset, hinside⟩
      rw [packetLoop]
      by_cases hmin : kMinValidBsonSize ≤ used - offset
      · have h4 : 4 ≤ used - offset := le_trans (by decide) hmin
        have hsame : declaredSize ((buffer.take used).drop offset)
            = declaredSize (buffer.drop offset) := by
          rw [declaredSize, declaredSize, List.drop_take, List.take_take, Nat.min_eq_left h4]
        have hfront : Access.Inside used (.lengthPrefix offset) := by
          rw [Access.Inside]
          omega
        have hone : ∀ a ∈ [Access.lengthPrefix offset], a.Inside used := by
          intro a ha
          rw [List.mem_singleton.mp ha]
          exact hfront
        rw [if_pos hmin]
        by_cases hneg : declaredSize (buffer.drop offset) ≤ 0
        · simp only [if_pos hneg]
          exact hstop _ rfl hone (frame?_eq_none (by omega))
        by_cases hmore : (used - offset : ℕ) < declaredSize (buffer.drop offset)
        · simp only [if_neg hneg, if_pos hmore]
          exact hstop _ rfl hone (frame?_eq_none (by omega))
        simp only [if_neg hneg, if_neg hmore]
        obtain ⟨size, hsize⟩ : ∃ size : ℕ, declaredSize (buffer.drop offset) = size :=
          ⟨(declaredSize (buffer.drop offset)).toNat, by omega⟩
        have hframe : docFraming.frame? ((buffer.take used).drop offset) = some size :=
          frame?_eq_some_iff.mpr ⟨by omega, by omega, by omega, by omega⟩
        have hpacket : ((buffer.take used).drop offset).take size
            = (buffer.drop offset).take size := by
          rw [List.drop_take, List.take_take, Nat.min_eq_left (by omega)]
        obtain ⟨hhanded, hrest, hle, hle', hinside⟩ :=
          ih (offset + size) (by omega) (by omega)
        rw [hsize, Int.toNat_natCast, Framing.split_of_some hframe, List.drop_drop]
        refine ⟨?_, hrest, by omega, hle', ?_⟩
        · rw [hpacket, ← hhanded]
          rfl
        · intro a ha
          rcases List.mem_cons.mp ha with rfl | ha
          · exact hfront
          rcases List.mem_cons.mp ha with rfl | ha
          · rw [Access.Inside]
            omega
          · exact hinside a ha
      · rw [if_neg hmin]
        exact hstop _ rfl (by simp) (frame?_eq_none (by omega))

theorem length_memmove {buffer buffer' : List UInt8} {source count : ℕ}
    (h : memmove buffer source count = some buffer') : buffer'.length = buffer.length := by
  rw [memmove] at h
  split_ifs at h with hinside
  rw [← Option.some.inj h, List.length_append, List.length_take, List.length_drop, List.length_drop]
  omega

/-- The bytes that are kept have been moved to the front. -/
theorem take_memmove {buffer buffer' : List UInt8} {source count : ℕ}
    (h : memmove buffer source count = some buffer') :
    buffer'.take (count - source) = (buffer.take count).drop source := by
  rw [memmove] at h
  split_ifs at h with hinside
  have hlen : ((buffer.drop source).take count).length = count := by
    rw [List.length_take, List.length_drop]
    omega
  rw [← Option.some.inj h, List.take_append_of_le_length (by omega), List.take_take,
    Nat.min_eq_left (by omega), List.drop_take]

/-- The packets of a call, and its state if there is one. -/
theorem tryParsePacket_packets {r : Receiver}
    (hused : r.receiveBufferUsed ≤ r.receiveBuffer.length) :
    r.tryParsePacket.packets = (docFraming.split r.pending).1 := by
  obtain ⟨hhanded, -, -, -, -⟩ := packetLoop_spec hused r.receiveBufferUsed 0 (by omega) (by omega)
  rw [List.drop_zero] at hhanded
  rw [tryParsePacket]
  dsimp only
  split <;> exact hhanded

/-- **One call of `tryParsePacket`** that accesses no byte outside the buffer hands on the complete
documents at the front of the used bytes and keeps the rest. -/
theorem tryParsePacket_spec {r r' : Receiver}
    (hused : r.receiveBufferUsed ≤ r.receiveBuffer.length)
    (h : r.tryParsePacket.receiver = some r') :
    r'.pending = (docFraming.split r.pending).2 ∧
      r'.receiveBuffer.length = r.receiveBuffer.length ∧
      r'.receiveBufferUsed ≤ r.receiveBufferUsed ∧
      r'.receivingInProgress = r.receivingInProgress := by
  obtain ⟨-, hrest, -, hle, -⟩ :=
    packetLoop_spec hused r.receiveBufferUsed 0 (by omega) (by omega)
  rw [List.drop_zero] at hrest
  have hpending : r.receiveBuffer.take r.receiveBufferUsed = r.pending := rfl
  rw [hpending] at hrest
  rw [tryParsePacket] at h
  dsimp only at h
  split at h
  · obtain ⟨buffer, hbuffer, rfl⟩ := Option.map_eq_some_iff.mp h
    refine ⟨?_, length_memmove hbuffer, Nat.sub_le _ _, rfl⟩
    rw [← hrest]
    exact take_memmove hbuffer
  · rename_i hmove
    obtain rfl := Option.some.inj h
    refine ⟨?_, rfl, Nat.sub_le _ _, rfl⟩
    rw [← hrest]
    by_cases hzero : (packetLoop r.receiveBuffer r.receiveBufferUsed r.receiveBufferUsed 0).2 = 0
    · rw [hzero, List.drop_zero]
      rfl
    · have hall : (packetLoop r.receiveBuffer r.receiveBufferUsed r.receiveBufferUsed 0).2
          = r.receiveBufferUsed := by omega
      have hnil : r.pending.drop r.receiveBufferUsed = [] := by
        rw [List.drop_eq_nil_iff, pending, List.length_take]
        omega
      rw [hall, hnil]
      dsimp only [pending]
      rw [Nat.sub_self, List.take_zero]

theorem length_pending {r : Receiver} (hused : r.receiveBufferUsed ≤ r.receiveBuffer.length) :
    r.pending.length = r.receiveBufferUsed := by
  rw [pending, List.length_take, Nat.min_eq_left hused]

theorem pending_full {buffer : List UInt8} {used : ℕ} {progress : Bool}
    (h : buffer.length = used) : pending ⟨buffer, used, progress⟩ = buffer := by
  rw [pending, ← h, List.take_length]

/-- The bytes consumed are those of the documents handed on. -/
theorem consumed_eq {r : Receiver} (hused : r.receiveBufferUsed ≤ r.receiveBuffer.length) :
    (packetLoop r.receiveBuffer r.receiveBufferUsed r.receiveBufferUsed 0).2
      = (docFraming.split r.pending).1.flatten.length := by
  obtain ⟨-, hrest, -, hle, -⟩ :=
    packetLoop_spec hused r.receiveBufferUsed 0 (by omega) (by omega)
  rw [List.drop_zero] at hrest
  have hlen := congrArg List.length hrest
  have hall := congrArg List.length (Framing.split_flatten (F := docFraming) r.pending)
  rw [List.length_drop, List.length_take, Nat.min_eq_left hused] at hlen
  rw [List.length_append, length_pending hused, pending, ← hlen] at hall
  rw [pending]
  omega

/-- A call that consumes some of the used bytes but not all moves the others to the front. -/
theorem mem_accesses_move {r : Receiver}
    (hused : r.receiveBufferUsed ≤ r.receiveBuffer.length)
    (hdocs : (docFraming.split r.pending).1 ≠ []) (hrest : (docFraming.split r.pending).2 ≠ []) :
    .move (docFraming.split r.pending).1.flatten.length 0 r.receiveBufferUsed
      ∈ r.tryParsePacket.accesses := by
  have hconsumed := consumed_eq hused
  have hall := congrArg List.length (Framing.split_flatten (F := docFraming) r.pending)
  rw [List.length_append, length_pending hused] at hall
  have hpos : 0 < (docFraming.split r.pending).1.flatten.length := by
    obtain ⟨d, hd⟩ := List.exists_mem_of_ne_nil _ hdocs
    exact (Framing.length_pos_of_mem_split hd).trans_le (List.sublist_flatten_of_mem hd).length_le
  have hlt := List.length_pos_of_ne_nil hrest
  rw [tryParsePacket]
  dsimp only
  rw [hconsumed, if_pos ⟨hpos, by omega⟩]
  exact List.mem_append_right _ List.mem_cons_self

/-- **All bytes that `tryParsePacket` accesses lie in the buffer exactly when** it has nothing to
move to the front, or the complete documents and all used bytes together fit into the buffer: the
move counts the bytes consumed twice. -/
theorem accesses_inside_iff {r : Receiver}
    (hsize : r.receiveBuffer.length = kRxBufferSize) (hused : r.receiveBufferUsed ≤ kRxBufferSize) :
    (∀ a ∈ r.tryParsePacket.accesses, a.Inside kRxBufferSize) ↔
      (docFraming.split r.pending).1 = [] ∨ (docFraming.split r.pending).2 = [] ∨
        (docFraming.split r.pending).1.flatten.length + r.receiveBufferUsed ≤ kRxBufferSize := by
  rw [← hsize] at hused ⊢
  constructor
  · intro hall
    by_contra hbad
    push Not at hbad
    obtain ⟨hdocs, hrest, hlong⟩ := hbad
    have hmove := hall _ (mem_accesses_move hused hdocs hrest)
    exact absurd hmove.1 (by omega)
  · intro hfits a ha
    obtain ⟨-, -, -, -, hloop⟩ :=
      packetLoop_spec hused r.receiveBufferUsed 0 (by omega) (by omega)
    have hinside : ∀ a ∈ (packetLoop r.receiveBuffer r.receiveBufferUsed r.receiveBufferUsed 0).1,
        a.Inside r.receiveBuffer.length := fun a ha => (hloop a ha).mono hused
    rw [tryParsePacket] at ha
    dsimp only at ha
    split at ha
    · rename_i hmove
      rcases List.mem_append.mp ha with ha | ha
      · exact hinside a ha
      · rw [List.mem_singleton.mp ha]
        rw [consumed_eq hused] at hmove ⊢
        have hall := congrArg List.length (Framing.split_flatten (F := docFraming) r.pending)
        rw [List.length_append, length_pending hused] at hall
        rcases hfits with hdocs | hrest | hfits
        · rw [hdocs] at hmove
          exact absurd hmove.1 (by simp)
        · rw [hrest, List.length_nil] at hall
          omega
        · exact ⟨hfits, by omega⟩
    · exact hinside a ha

/-- What moves to the front fits, if anything does: `bytes` are the used ones. -/
def MoveFits (bytes : List UInt8) : Prop :=
  (docFraming.split bytes).1 = [] ∨ (docFraming.split bytes).2 = [] ∨
    (docFraming.split bytes).1.flatten.length + bytes.length ≤ kRxBufferSize

/-- There is a state behind a call exactly when what it moves fits. -/
theorem receiver_iff {r : Receiver} (hsize : r.receiveBuffer.length = kRxBufferSize)
    (hused : r.receiveBufferUsed ≤ kRxBufferSize) :
    (∃ r', r.tryParsePacket.receiver = some r') ↔ MoveFits r.pending := by
  have hused' : r.receiveBufferUsed ≤ r.receiveBuffer.length := by rw [hsize]; exact hused
  have hconsumed := consumed_eq hused'
  have hall := congrArg List.length (Framing.split_flatten (F := docFraming) r.pending)
  rw [List.length_append, length_pending hused'] at hall
  rw [MoveFits, length_pending hused', tryParsePacket]
  dsimp only
  rw [hconsumed, memmove, hsize]
  constructor
  · intro hsome
    split at hsome
    · obtain ⟨r', hr'⟩ := hsome
      obtain ⟨buffer, hbuffer, -⟩ := Option.map_eq_some_iff.mp hr'
      split_ifs at hbuffer with hinside
      exact Or.inr (Or.inr hinside)
    · rename_i hmove
      by_cases hdocs : (docFraming.split r.pending).1 = []
      · exact Or.inl hdocs
      · obtain ⟨d, hd⟩ := List.exists_mem_of_ne_nil _ hdocs
        have hpos := (Framing.length_pos_of_mem_split hd).trans_le
          (List.sublist_flatten_of_mem hd).length_le
        exact Or.inr (Or.inl (List.length_eq_zero_iff.mp (by omega)))
  · intro hfits
    split
    · rename_i hmove
      have hinside : (docFraming.split r.pending).1.flatten.length + r.receiveBufferUsed
          ≤ kRxBufferSize := by
        rcases hfits with hdocs | hrest | hfits
        · rw [hdocs] at hmove
          exact absurd hmove.1 (by simp)
        · rw [hrest, List.length_nil] at hall
          omega
        · exact hfits
      rw [if_pos hinside]
      exact ⟨_, rfl⟩
    · exact ⟨_, rfl⟩

/-- A single byte more leaves nothing to move, or next to nothing. -/
theorem moveFits_concat {l : List UInt8} (h : docFraming.frame? l = none) (b : UInt8) :
    MoveFits (l ++ [b]) := by
  cases hframe : docFraming.frame? (l ++ [b]) with
  | none => exact Or.inl (by rw [Framing.split_of_none hframe])
  | some n =>
      obtain ⟨hmin, hpos, hsize, hle⟩ := frame?_eq_some_iff.mp hframe
      rw [List.length_append, List.length_singleton] at hmin hle
      rcases Nat.lt_or_ge l.length kMinValidBsonSize with hshort | hlong
      · -- the document ends before the fifth byte
        have hall := congrArg List.length (Framing.split_flatten (F := docFraming) (l ++ [b]))
        rw [List.length_append, List.length_append, List.length_singleton] at hall
        refine Or.inr (Or.inr ?_)
        rw [List.length_append, List.length_singleton]
        have hmin5 : kMinValidBsonSize = 5 := rfl
        have hsize : kRxBufferSize = 65536 := rfl
        omega
      · have hlast : n = l.length + 1 := by
          by_contra hne
          have hfront : docFraming.frame? l = some n :=
            frame?_eq_some_iff.mpr ⟨hlong, hpos, (declaredSize_append hlong [b]).symm.trans hsize, by omega⟩
          rw [h] at hfront
          cases hfront
        refine Or.inr (Or.inl ?_)
        rw [Framing.split_of_some hframe, List.drop_of_length_le (by simp [hlast]),
          Framing.split_of_none rfl]

/-- An empty document and the front of another one: three bytes move to the front. -/
theorem accesses_inside_of_partial :
    ∃ r : Receiver, r.pending = [5, 0, 0, 0, 0, 6, 0, 0] ∧
      .move 5 0 8 ∈ r.tryParsePacket.accesses ∧
      ∀ a ∈ r.tryParsePacket.accesses, a.Inside kRxBufferSize := by
  obtain ⟨tail, htail⟩ : ∃ tail : List UInt8, tail.length = 65528 :=
    ⟨List.replicate 65528 0, List.length_replicate⟩
  have hpending : pending ⟨[5, 0, 0, 0, 0, 6, 0, 0] ++ tail, 8, false⟩ = [5, 0, 0, 0, 0, 6, 0, 0] := rfl
  have hfirst : docFraming.frame? [5, 0, 0, 0, 0, 6, 0, 0] = some 5 :=
    frame?_eq_some_iff.mpr ⟨by decide, by decide, by decide, by decide⟩
  have hsecond : docFraming.frame? (List.drop 5 [5, 0, 0, 0, 0, 6, 0, 0]) = none :=
    frame?_eq_none (Or.inl (by decide))
  have hsplit : docFraming.split [5, 0, 0, 0, 0, 6, 0, 0] = ([[5, 0, 0, 0, 0]], [6, 0, 0]) := by
    rw [Framing.split_of_some hfirst, Framing.split_of_none hsecond]
    rfl
  have hused : 8 ≤ kRxBufferSize := by decide
  have hbuffer : ([5, 0, 0, 0, 0, 6, 0, 0] ++ tail).length = kRxBufferSize := by
    simp [htail, kRxBufferSize]
  refine ⟨⟨[5, 0, 0, 0, 0, 6, 0, 0] ++ tail, 8, false⟩, hpending, ?_, ?_⟩
  · have hmove := mem_accesses_move (r := ⟨[5, 0, 0, 0, 0, 6, 0, 0] ++ tail, 8, false⟩)
      (by rw [hbuffer]; exact hused) (by rw [hpending, hsplit]; simp) (by rw [hpending, hsplit]; simp)
    rw [hpending, hsplit] at hmove
    exact hmove
  · have hfits : ([[5, 0, 0, 0, 0]] : List (List UInt8)).flatten.length + 8 ≤ kRxBufferSize := by
      decide
    refine (accesses_inside_iff hbuffer hused).mpr (Or.inr (Or.inr ?_))
    rw [hpending, hsplit]
    exact hfits

/-- A full buffer that holds an empty document and all but the last five bytes of the largest
document: the move would read five bytes behind the buffer. -/
theorem split_overfull : ∃ tail : List UInt8,
    ([5, 0, 0, 0, 0, 0, 0, 1, 0, 0] ++ tail).length = kRxBufferSize ∧
      docFraming.split ([5, 0, 0, 0, 0, 0, 0, 1, 0, 0] ++ tail)
        = ([[5, 0, 0, 0, 0]], [0, 0, 1, 0, 0] ++ tail) := by
  obtain ⟨tail, hlen⟩ : ∃ tail : List UInt8, tail.length = 65526 :=
    ⟨List.replicate 65526 0, List.length_replicate⟩
  have hbuffer : ([5, 0, 0, 0, 0, 0, 0, 1, 0, 0] ++ tail).length = kRxBufferSize := by
    simp [hlen, kRxBufferSize]
  have hfirst : docFraming.frame? ([5, 0, 0, 0, 0, 0, 0, 1, 0, 0] ++ tail) = some 5 :=
    frame?_eq_some_iff.mpr ⟨by rw [hbuffer]; decide, by decide,
      (declaredSize_append (by decide) tail).trans (by decide), by rw [hbuffer]; decide⟩
  have hsecond : docFraming.frame? ([0, 0, 1, 0, 0] ++ tail) = none := by
    refine frame?_eq_none (Or.inr (Or.inr ?_))
    have hsize : declaredSize ([0, 0, 1, 0, 0] ++ tail) = 65536 :=
      (declaredSize_append (by decide) tail).trans (by decide)
    rw [hsize, List.length_append, hlen]
    decide
  refine ⟨tail, hbuffer, ?_⟩
  rw [Framing.split_of_some hfirst]
  have hdrop : ([5, 0, 0, 0, 0, 0, 0, 1, 0, 0] ++ tail).drop 5 = [0, 0, 1, 0, 0] ++ tail := rfl
  rw [hdrop, Framing.split_of_none hsecond]
  rfl

theorem not_accesses_inside :
    ¬ ∀ r : Receiver, r.receiveBuffer.length = kRxBufferSize →
      r.receiveBufferUsed ≤ kRxBufferSize →
      ∀ a ∈ r.tryParsePacket.accesses, a.Inside kRxBufferSize := by
  intro h
  obtain ⟨tail, hbuffer, hsplit⟩ := split_overfull
  have hpending : pending ⟨[5, 0, 0, 0, 0, 0, 0, 1, 0, 0] ++ tail, kRxBufferSize, false⟩
      = [5, 0, 0, 0, 0, 0, 0, 1, 0, 0] ++ tail := pending_full hbuffer
  have hmove := mem_accesses_move (r := ⟨[5, 0, 0, 0, 0, 0, 0, 1, 0, 0] ++ tail, kRxBufferSize, false⟩)
    hbuffer.ge (by rw [hpending, hsplit]; simp) (by rw [hpending, hsplit]; simp)
  rw [hpending, hsplit] at hmove
  have hmoved := (h _ hbuffer le_rfl _ hmove).1
  have hfive : ([[5, 0, 0, 0, 0]] : List (List UInt8)).flatten.length = 5 := rfl
  dsimp only at hmoved
  omega

/-! ### Runs -/

/-- What a run knows of the stream it has received: its packets and the bytes it keeps are the
stream, cut into documents. -/
structure Received (stream : List UInt8) (packets : List (List UInt8)) (r : Receiver) : Prop where
  size : r.receiveBuffer.length = kRxBufferSize
  used : r.receiveBufferUsed ≤ kRxBufferSize
  idle : r.receivingInProgress = false
  split : docFraming.split stream = (packets, r.pending)
  fits : ∀ p ∈ packets, p.length ≤ kRxBufferSize

namespace Received

variable {stream : List UInt8} {packets : List (List UInt8)} {r : Receiver}

theorem startReceive_eq (h : Received stream packets r) :
    r.startReceive = ({ r with receivingInProgress := true },
      some (r.receiveBufferUsed, kRxBufferSize - r.receiveBufferUsed)) := by
  rw [startReceive, h.idle, h.size]
  rfl

theorem length_pending (h : Received stream packets r) :
    r.pending.length = r.receiveBufferUsed :=
  Receiver.length_pending (by rw [h.size]; exact h.used)

/-- The receiver behind a read that fits into the free space, before it is parsed. -/
theorem filled (h : Received stream packets r) {chunk : List UInt8}
    (hfit : chunk.length ≤ kRxBufferSize - r.receiveBufferUsed) :
    ∃ f : Receiver, (∀ progress : Bool,
        onRead { r with receivingInProgress := progress } r.receiveBufferUsed chunk = f.tryParsePacket) ∧
      f.receiveBuffer.length = kRxBufferSize ∧ f.receiveBufferUsed ≤ kRxBufferSize ∧
      f.receivingInProgress = false ∧ f.pending = r.pending ++ chunk := by
  have hused := h.used
  refine ⟨{
    receiveBuffer := r.receiveBuffer.take r.receiveBufferUsed ++ chunk ++
      r.receiveBuffer.drop (r.receiveBufferUsed + chunk.length)
    receiveBufferUsed := r.receiveBufferUsed + chunk.length
    receivingInProgress := false }, fun _ => rfl, ?_, by dsimp only; omega, rfl, ?_⟩
  · simp only [List.length_append, List.length_take, List.length_drop, h.size]
    omega
  · rw [pending, pending]
    dsimp only
    refine List.take_left' ?_
    rw [List.length_append, List.length_take, h.size, Nat.min_eq_left hused]

/-- **A read that fits into the free space** is cut together with the bytes kept. -/
theorem read {r' : Receiver} {chunk : List UInt8} (h : Received stream packets r) {progress : Bool}
    (hfit : chunk.length ≤ kRxBufferSize - r.receiveBufferUsed)
    (hgoes : (onRead { r with receivingInProgress := progress } r.receiveBufferUsed chunk).receiver
      = some r') :
    Received (stream ++ chunk)
      (packets ++ (onRead { r with receivingInProgress := progress } r.receiveBufferUsed chunk).packets)
      r' := by
  obtain ⟨f, hread, hsize, hused, hidle, hpending⟩ := h.filled hfit
  have hused' : f.receiveBufferUsed ≤ f.receiveBuffer.length := by rw [hsize]; exact hused
  rw [hread] at hgoes ⊢
  obtain ⟨hrest, hsize', hle, hidle'⟩ := tryParsePacket_spec hused' hgoes
  have hpackets := tryParsePacket_packets hused'
  rw [hpending] at hpackets hrest
  exact {
    size := hsize'.trans hsize
    used := hle.trans hused
    idle := hidle'.trans hidle
    split := by rw [Framing.split_append, h.split, hpackets, hrest]
    fits := by
      intro p hp
      rcases List.mem_append.mp hp with hp | hp
      · exact h.fits p hp
      · rw [hpackets] at hp
        have hsub := (List.sublist_flatten_of_mem hp).length_le
        have hall := congrArg List.length
          (Framing.split_flatten (F := docFraming) (r.pending ++ chunk))
        have hlen := h.length_pending
        have hused := h.used
        rw [List.length_append, List.length_append, hlen] at hall
        omega }

/-- A read goes on exactly when what it moves fits. -/
theorem goesOn_iff {chunk : List UInt8} (h : Received stream packets r) {progress : Bool}
    (hfit : chunk.length ≤ kRxBufferSize - r.receiveBufferUsed) :
    (∃ r', (onRead { r with receivingInProgress := progress } r.receiveBufferUsed chunk).receiver
      = some r') ↔ MoveFits (r.pending ++ chunk) := by
  obtain ⟨f, hread, hsize, hused, -, hpending⟩ := h.filled hfit
  rw [hread, receiver_iff hsize hused, hpending]

end Received

/-- What moves to the front fits at every read: `front` has been read before. -/
def MovesFit (chunks : List (List UInt8)) : Prop :=
  ∀ front chunk back, chunks = front ++ chunk :: back →
    MoveFits ((docFraming.split front.flatten).2 ++ chunk)

theorem movesFit_append {chunks : List (List UInt8)} {chunk : List UInt8} :
    MovesFit (chunks ++ [chunk]) ↔
      MovesFit chunks ∧ MoveFits ((docFraming.split chunks.flatten).2 ++ chunk) := by
  constructor
  · intro h
    exact ⟨fun front c back hsplit => h front c (back ++ [chunk]) (by rw [hsplit]; simp),
      h chunks chunk [] rfl⟩
  · rintro ⟨hfront, hlast⟩ front c back hsplit
    rcases List.eq_nil_or_concat back with rfl | ⟨back, last, rfl⟩
    · obtain ⟨rfl, hc⟩ := List.append_inj' hsplit rfl
      obtain rfl : chunk = c := List.singleton_inj.mp hc
      exact hlast
    · rw [List.concat_eq_append, ← List.cons_append, ← List.append_assoc] at hsplit
      exact hfront front c back (List.append_inj' hsplit rfl).1

theorem movesFit_singleton {chunk : List UInt8} : MovesFit [chunk] ↔ MoveFits chunk := by
  have hnil : docFraming.split (List.flatten []) = ([], []) := Framing.split_of_none rfl
  rw [← List.nil_append [chunk], movesFit_append, hnil, List.nil_append]
  exact and_iff_right fun front c back h => absurd (congrArg List.length h) (by simp)

/-- **Every run that goes on cuts the stream it has received into documents**, however it was cut into
reads. -/
theorem Run.received {chunks packets : List (List UInt8)} {r : Receiver}
    (h : Run chunks packets (some r)) : Received chunks.flatten packets r := by
  generalize ho : some r = o at h
  induction h generalizing r with
  | @start buffer hbuffer =>
      obtain rfl := Option.some.inj ho
      exact {
        size := hbuffer
        used := Nat.zero_le _
        idle := rfl
        split := by
          rw [List.flatten_nil, Framing.split_of_none rfl]
          rfl
        fits := by simp }
  | @read chunks packets r₁ r' offset size chunk _ hask hfit ih =>
      have hreceived := ih rfl
      rw [hreceived.startReceive_eq] at hask
      obtain ⟨rfl, hasked⟩ := Prod.mk.inj hask
      obtain ⟨rfl, rfl⟩ := Prod.mk.inj (Option.some.inj hasked)
      rw [List.flatten_append, List.flatten_singleton]
      exact hreceived.read hfit ho.symm

/-- **A run goes on exactly when** what moves to the front has fitted at every read. -/
theorem Run.goesOn_iff {chunks packets : List (List UInt8)} {o : Option Receiver}
    (h : Run chunks packets o) : (∃ r, o = some r) ↔ MovesFit chunks := by
  induction h with
  | start hbuffer =>
      refine ⟨fun _ front chunk back hsplit => ?_, fun _ => ⟨_, rfl⟩⟩
      exact absurd (congrArg List.length hsplit) (by simp)
  | @read chunks packets r r' offset size chunk hrun hask hfit ih =>
      have hreceived := hrun.received
      rw [hreceived.startReceive_eq] at hask
      obtain ⟨rfl, hasked⟩ := Prod.mk.inj hask
      obtain ⟨rfl, rfl⟩ := Prod.mk.inj (Option.some.inj hasked)
      have hkept : (docFraming.split chunks.flatten).2 = r.pending := by rw [hreceived.split]
      rw [hreceived.goesOn_iff hfit, movesFit_append, hkept]
      exact (and_iff_right (ih.mp ⟨r, rfl⟩)).symm

/-- A chunk that fits into the free space can be read next. -/
theorem Run.exists_read {chunks packets : List (List UInt8)} {r : Receiver}
    (h : Run chunks packets (some r)) (chunk : List UInt8)
    (hfit : chunk.length ≤ kRxBufferSize - r.receiveBufferUsed) :
    ∃ packets' o, Run (chunks ++ [chunk]) packets' o :=
  ⟨_, _, h.read h.received.startReceive_eq hfit⟩

/-- What has been handed on of a stream of documents, and what is kept of it. -/
structure Delivered (docs chunks packets : List (List UInt8)) (r : Receiver) : Prop where
  handed : packets <+: docs
  kept : packets.flatten ++ r.pending = chunks.flatten
  next : ∀ d, packets ++ [d] <+: docs → r.pending.length < d.length
  complete : chunks.flatten = docs.flatten → packets = docs ∧ r.pending = []
  space : r.receiveBufferUsed < r.receiveBuffer.length

/-- In a run that goes on a stream of documents is handed on. -/
theorem Received.delivered {docs chunks packets : List (List UInt8)} {r : Receiver}
    (hdocs : ∀ d ∈ docs, WellSized d) (hreceived : Received chunks.flatten packets r)
    (hstream : chunks.flatten <+: docs.flatten) : Delivered docs chunks packets r := by
  have hflat := Framing.split_flatten (F := docFraming) chunks.flatten
  obtain ⟨hfront, hnext⟩ :=
    Framing.split_prefix (fun d hd => (hdocs d hd).isFrame) hstream
  rw [hreceived.split] at hflat hfront hnext
  dsimp only at hflat hfront hnext
  obtain ⟨others, hothers⟩ := hfront
  obtain ⟨t, ht⟩ := hstream
  -- what is kept is the front of the documents that are still to come
  have hkept : r.pending ++ t = others.flatten := by
    have hall : packets.flatten ++ (r.pending ++ t) = packets.flatten ++ others.flatten := by
      rw [← List.append_assoc, hflat, ht, ← hothers, List.flatten_append]
    exact List.append_cancel_left hall
  refine ⟨⟨others, hothers⟩, hflat, hnext, ?_, ?_⟩
  · intro hcomplete
    have htnil : t = [] := by
      rw [← hcomplete] at ht
      simpa using ht
    rw [htnil, List.append_nil] at hkept
    cases others with
    | nil => exact ⟨by rw [← hothers, List.append_nil], hkept⟩
    | cons d others =>
        have hlt := hnext d ⟨others, by rw [← hothers, List.append_assoc]; rfl⟩
        rw [hkept, List.flatten_cons, List.length_append] at hlt
        omega
  · rw [hreceived.size, ← hreceived.length_pending]
    cases others with
    | nil =>
        have hnil := (List.append_eq_nil_iff.mp hkept).1
        rw [hnil]
        decide
    | cons d others =>
        have hlt := hnext d ⟨others, by rw [← hothers, List.append_assoc]; rfl⟩
        have hd : d ∈ docs := by
          rw [← hothers]
          simp
        have hfits := (hdocs d hd).fits
        omega

/-- **A stream of documents is handed to `parsePacket` document by document**, in order, each once
and byte for byte, and the bytes of the document that is not yet complete are kept, exactly when what
moves to the front has fitted at every read. -/
theorem Run.delivers_iff {docs chunks packets : List (List UInt8)} {o : Option Receiver}
    (hdocs : ∀ d ∈ docs, WellSized d) (hrun : Run chunks packets o)
    (hstream : chunks.flatten <+: docs.flatten) :
    (∃ r, o = some r ∧ Delivered docs chunks packets r) ↔ MovesFit chunks := by
  rw [← hrun.goesOn_iff]
  constructor
  · rintro ⟨r, hr, -⟩
    exact ⟨r, hr⟩
  · rintro ⟨r, rfl⟩
    exact ⟨r, rfl, hrun.received.delivered hdocs hstream⟩

/-- Two documents in two reads: the second one is moved to the front before it is complete. -/
theorem Run.delivers_two :
    ∃ packets r, Run [[5, 0, 0, 0, 0, 6, 0], [0, 0, 7, 0]] packets (some r) ∧
      Delivered [[5, 0, 0, 0, 0], [6, 0, 0, 0, 7, 0]] [[5, 0, 0, 0, 0, 6, 0], [0, 0, 7, 0]] packets
        r := by
  have hstart : Run [] [] (some ⟨List.replicate kRxBufferSize 0, 0, false⟩) :=
    Run.start List.length_replicate
  have hroom : 18 ≤ kRxBufferSize := by decide
  have hfirst : docFraming.split [5, 0, 0, 0, 0, 6, 0] = ([[5, 0, 0, 0, 0]], [6, 0]) := by
    have hframe : docFraming.frame? [5, 0, 0, 0, 0, 6, 0] = some 5 :=
      frame?_eq_some_iff.mpr ⟨by decide, by decide, by decide, by decide⟩
    rw [Framing.split_of_some hframe, Framing.split_of_none (frame?_eq_none (Or.inl (by decide)))]
    rfl
  have hsecond : docFraming.split [6, 0, 0, 0, 7, 0] = ([[6, 0, 0, 0, 7, 0]], []) := by
    have hframe : docFraming.frame? [6, 0, 0, 0, 7, 0] = some 6 :=
      frame?_eq_some_iff.mpr ⟨by decide, by decide, by decide, by decide⟩
    rw [Framing.split_of_some hframe, Framing.split_of_none (frame?_eq_none (Or.inl (by decide)))]
    rfl
  have hfits : MovesFit [[5, 0, 0, 0, 0, 6, 0]] := by
    refine movesFit_singleton.mpr (Or.inr (Or.inr ?_))
    rw [hfirst]
    exact le_trans (by decide) hroom
  have hfits' : MovesFit [[5, 0, 0, 0, 0, 6, 0], [0, 0, 7, 0]] := by
    refine movesFit_append.mpr ⟨hfits, Or.inr (Or.inl ?_)⟩
    rw [List.flatten_singleton, hfirst]
    exact congrArg Prod.snd hsecond
  obtain ⟨packets, o, hrun⟩ := hstart.exists_read [5, 0, 0, 0, 0, 6, 0]
    (by dsimp only [List.length_cons, List.length_nil]; omega)
  obtain ⟨r, rfl⟩ := hrun.goesOn_iff.mpr hfits
  have hsplit := hrun.received.split
  rw [List.nil_append, List.flatten_singleton, hfirst] at hsplit
  have hused := hrun.received.length_pending
  rw [← (Prod.mk.inj hsplit).2] at hused
  obtain ⟨packets', o', hrun'⟩ := hrun.exists_read [0, 0, 7, 0]
    (by rw [← hused]; dsimp only [List.length_cons, List.length_nil]; omega)
  have hdocs : ∀ d ∈ [[5, 0, 0, 0, 0], [6, 0, 0, 0, 7, 0]], WellSized d := by
    intro d hd
    rcases List.mem_pair.mp hd with rfl | rfl
    · exact ⟨by decide, by decide, by decide⟩
    · exact ⟨by decide, by decide, by decide⟩
  obtain ⟨r', rfl, hdelivered⟩ :=
    (Run.delivers_iff hdocs hrun' (List.prefix_refl _)).mpr hfits'
  exact ⟨packets', r', hrun', hdelivered⟩

/-- An empty document and the largest one, read until the buffer is full: the run does not go on. -/
theorem Run.not_delivers :
    ¬ ∀ (docs chunks packets : List (List UInt8)) (o : Option Receiver),
      (∀ d ∈ docs, WellSized d) → Run chunks packets o → chunks.flatten <+: docs.flatten →
      ∃ r, o = some r ∧ Delivered docs chunks packets r := by
  intro h
  obtain ⟨tail, hbuffer, hsplit⟩ := split_overfull
  have hstart : Run [] [] (some ⟨List.replicate kRxBufferSize 0, 0, false⟩) :=
    Run.start List.length_replicate
  obtain ⟨packets, o, hrun⟩ := hstart.exists_read
    ([5, 0, 0, 0, 0, 0, 0, 1, 0, 0] ++ tail) (by rw [hbuffer, Nat.sub_zero])
  rw [List.nil_append] at hrun
  have hlen : ([0, 0, 1, 0, 0] ++ tail).length = 65531 := by
    have hten : ([5, 0, 0, 0, 0, 0, 0, 1, 0, 0] ++ tail).length = tail.length + 10 := by simp
    have hfive : ([0, 0, 1, 0, 0] ++ tail).length = tail.length + 5 := by simp
    rw [hbuffer] at hten
    have hsize : kRxBufferSize = 65536 := rfl
    omega
  have hdocs : ∀ d ∈ [[5, 0, 0, 0, 0], [0, 0, 1, 0, 0] ++ tail ++ [0, 0, 0, 0, 0]], WellSized d := by
    intro d hd
    rcases List.mem_pair.mp hd with rfl | rfl
    · exact ⟨by decide, by decide, by decide⟩
    · have hlong : ([0, 0, 1, 0, 0] ++ tail ++ [0, 0, 0, 0, 0]).length = 65536 := by
        rw [List.length_append, hlen]
        rfl
      refine ⟨?_, ?_, ?_⟩
      · rw [hlong, List.append_assoc, declaredSize_append (by decide)]
        decide
      · rw [hlong]
        decide
      · rw [hlong]
        decide
  obtain ⟨r, rfl, -⟩ := h _ _ _ _ hdocs hrun ⟨[0, 0, 0, 0, 0], by simp⟩
  have hfits := movesFit_singleton.mp (hrun.goesOn_iff.mp ⟨r, rfl⟩)
  rw [MoveFits, hsplit, hbuffer] at hfits
  rcases hfits with hdocs | hrest | hfits
  · exact absurd hdocs (by simp)
  · exact absurd hrest (by simp)
  · exact absurd hfits (by simp)

/-- **A run that goes on has free space left exactly when** every frame boundary of the stream that is followed
by as many bytes as the buffer holds has a size prefix from 1 to the size of the buffer: a
document that declares anything else is never consumed. -/
theorem Run.space_iff {chunks packets : List (List UInt8)} {r : Receiver}
    (hrun : Run chunks packets (some r)) :
    r.receiveBufferUsed < r.receiveBuffer.length ↔
      ∀ rest, docFraming.Boundary chunks.flatten rest → kRxBufferSize ≤ rest.length →
        0 < declaredSize rest ∧ declaredSize rest ≤ kRxBufferSize := by
  have hreceived := hrun.received
  have hnone := Framing.frame?_split (F := docFraming) chunks.flatten
  have hend := Framing.boundary_split (F := docFraming) chunks.flatten
  rw [hreceived.split] at hnone hend
  dsimp only at hnone hend
  have hlen := hreceived.length_pending
  have hmin : kMinValidBsonSize ≤ kRxBufferSize := by decide
  rw [hreceived.size]
  constructor
  · intro hspace rest hrest hlong
    by_contra hbad
    obtain ⟨docs, hsplit⟩ := hrest.split_eq
    rw [hreceived.split] at hsplit
    obtain ⟨hpackets, hpending⟩ := Prod.mk.inj hsplit
    cases hframe : docFraming.frame? rest with
    | none =>
        rw [Framing.split_of_none hframe] at hpending
        rw [hpending] at hlen
        dsimp only at hlen
        omega
    | some n =>
        -- the document at the boundary would have been handed on, but it does not fit
        obtain ⟨-, hpos, hsize, hle⟩ := frame?_eq_some_iff.mp hframe
        rw [Framing.split_of_some hframe] at hpackets
        have hfits := hreceived.fits (rest.take n) (by rw [hpackets]; simp)
        rw [List.length_take] at hfits
        omega
  · intro hgood
    by_contra hfull
    have hused := hreceived.used
    obtain ⟨hpos, hle⟩ := hgood r.pending hend (by omega)
    have hframe : docFraming.frame? r.pending = some (declaredSize r.pending).toNat :=
      frame?_eq_some_iff.mpr ⟨by omega, by omega, by omega, by omega⟩
    rw [hnone] at hframe
    exact absurd hframe (by simp)

/-- Two documents and the front of a third one leave space. -/
theorem Run.space_of_documents :
    ∃ packets r, Run [[5, 0, 0, 0, 0, 6, 0, 0, 0, 7, 0, 5, 0]] packets (some r) ∧
      r.receiveBufferUsed < r.receiveBuffer.length := by
  have hstart : Run [] [] (some ⟨List.replicate kRxBufferSize 0, 0, false⟩) :=
    Run.start List.length_replicate
  have hroom : 24 < kRxBufferSize := by decide
  obtain ⟨packets, o, hrun⟩ := hstart.exists_read [5, 0, 0, 0, 0, 6, 0, 0, 0, 7, 0, 5, 0]
    (by dsimp only [List.length_cons, List.length_nil]; omega)
  rw [List.nil_append] at hrun
  have hsplit : docFraming.split [5, 0, 0, 0, 0, 6, 0, 0, 0, 7, 0, 5, 0]
      = ([[5, 0, 0, 0, 0], [6, 0, 0, 0, 7, 0]], [5, 0]) := by
    have hframe : docFraming.frame? [5, 0, 0, 0, 0, 6, 0, 0, 0, 7, 0, 5, 0] = some 5 :=
      frame?_eq_some_iff.mpr ⟨by decide, by decide, by decide, by decide⟩
    have hframe' : docFraming.frame? (List.drop 5 [5, 0, 0, 0, 0, 6, 0, 0, 0, 7, 0, 5, 0]) = some 6 :=
      frame?_eq_some_iff.mpr ⟨by decide, by decide, by decide, by decide⟩
    rw [Framing.split_of_some hframe, Framing.split_of_some hframe',
      Framing.split_of_none (frame?_eq_none (Or.inl (by decide)))]
    rfl
  have hfits : MovesFit [[5, 0, 0, 0, 0, 6, 0, 0, 0, 7, 0, 5, 0]] := by
    refine movesFit_singleton.mpr (Or.inr (Or.inr ?_))
    rw [hsplit]
    exact le_trans (by decide) hroom.le
  obtain ⟨r, rfl⟩ := hrun.goesOn_iff.mpr hfits
  refine ⟨packets, r, hrun, hrun.space_iff.mpr fun rest hrest hlong => ?_⟩
  have hshort : rest.length ≤ 13 := hrest.length_le
  omega

/-- A size prefix of zero in front of a full buffer: the run is stuck. -/
theorem Run.stuck :
    ¬ ∀ (chunks packets : List (List UInt8)) (r : Receiver), Run chunks packets (some r) →
      r.receiveBufferUsed < r.receiveBuffer.length := by
  intro h
  obtain ⟨tail, htail⟩ : ∃ tail : List UInt8, tail.length = 65531 :=
    ⟨List.replicate 65531 0, List.length_replicate⟩
  have hlen : ([0, 0, 0, 0, 0] ++ tail).length = kRxBufferSize := by
    simp [htail, kRxBufferSize]
  have hstart : Run [] [] (some ⟨List.replicate kRxBufferSize 0, 0, false⟩) :=
    Run.start List.length_replicate
  obtain ⟨packets, o, hrun⟩ : ∃ packets o, Run [[0, 0, 0, 0, 0] ++ tail] packets o :=
    hstart.exists_read _ (by rw [hlen, Nat.sub_zero])
  have hnone : docFraming.frame? ([0, 0, 0, 0, 0] ++ tail) = none := by
    refine frame?_eq_none (Or.inr (Or.inl ?_))
    rw [declaredSize_append (by decide)]
    decide
  have hfits : MovesFit [[0, 0, 0, 0, 0] ++ tail] := by
    refine movesFit_singleton.mpr (Or.inl ?_)
    rw [Framing.split_of_none hnone]
  obtain ⟨r, rfl⟩ := hrun.goesOn_iff.mpr hfits
  have hsplit := hrun.received.split
  rw [List.flatten_singleton, Framing.split_of_none hnone] at hsplit
  have hspace := h _ _ _ hrun
  have hused := hrun.received.length_pending
  rw [← (Prod.mk.inj hsplit).2, hlen] at hused
  rw [hrun.received.size, ← hused] at hspace
  exact absurd hspace (lt_irrefl _)

end Receiver

end ScApi
