import ScApi.ParsePacket
import ScApi.Lib.Bson

/-!
# What a callback learns about its command

A callback gets one pointer: to the result of a command that succeeded, or to the text of the error.
Neither has a length, so a callback can use it only if there is a complete document at it, or a text
that ends with a NUL byte and has none before.

## Main results

* `parsePacket_eq_some_iff`: which callback is called, and with what.
* `informs_iff_complete`: when a response tells its callback what it says.
* `delivered_iff`: the same for every packet and all registered callbacks.
-/

open Bytes BoundedRead

namespace ScApi

open ElementType BsonReader

/-- There is a document that `validate` accepts, within the packet. -/
def ValidWithin (mem : List UInt8) (size : ℕ) (payload : ℤ) : Prop :=
  0 ≤ payload ∧ payload ≤ size ∧
    validate (mem.drop payload.toNat) (size - payload.toNat) = .ok true

/-- The `error_message` of a packet with these fields, or the empty string. -/
def errorText (mem : List UInt8) (fs : List Field) : List UInt8 :=
  match lastOf (Field.errorMessage mem) fs with
  | some text => (mem.drop text.offset.toNat).take text.length
  | none => []

/-- **The callback learns what the packet says**: after a success it has a document, and after a
failure the text of the error. -/
structure Informs (mem : List UInt8) (size : ℕ) (fs : List Field) (result : AsyncCommandResult) :
    Prop where
  payload : result.isSuccess = true → ∃ p, result.getPayload = some p ∧ ValidWithin mem size p
  message : result.isSuccess = false → result.getErrorMessage mem = .ok (errorText mem fs)
  copied : CommandResult.createFromAsync mem result ≠ .error .nullPointer

/-- The condition on a packet with these fields. A success comes with a document in `data` that
`validate` accepts; a failure with a message that has no NUL byte in it, and one behind it. -/
def Complete (mem : List UInt8) (size : ℕ) (fs : List Field) : Prop :=
  if (lastOf (Field.result mem) fs).getD .ok = .ok then
    ∃ p, lastOf (Field.data mem) fs = some p ∧ ValidWithin mem size p
  else
    ∃ text, lastOf (Field.errorMessage mem) fs = some text ∧ 0 ∉ errorText mem fs ∧
      byteAt mem (text.offset + text.length) = .ok 0

section

variable {mem : List UInt8} {size : ℕ} {fs : List Field} {result : AsyncCommandResult}
  {handlers handlers' : List (ℤ × ℕ)} {command : ℕ}

theorem bytesAt_ne_nullPointer (mem : List UInt8) (i : ℤ) (n : ℕ) :
    bytesAt mem i n ≠ .error .nullPointer := by
  rw [bytesAt]
  split <;> simp

theorem i32At_ne_nullPointer (mem : List UInt8) (i : ℤ) : i32At mem i ≠ .error .nullPointer := by
  intro h
  rcases bind_eq_error.mp h with h | ⟨bytes, -, h⟩
  · exact bytesAt_ne_nullPointer _ _ _ h
  · simp at h

theorem cString_ne_nullPointer (mem : List UInt8) (i : ℤ) : cString mem i ≠ .error .nullPointer := by
  rw [cString]
  split <;> simp

/-- Only a success without a payload, or a failure without a text, is read through a null pointer. -/
theorem createFromAsync_ne_nullPointer (h : result.payloadBson ≠ none) :
    CommandResult.createFromAsync mem result ≠ .error .nullPointer := by
  obtain ⟨p, hp⟩ := Option.ne_none_iff_exists'.mp h
  intro herror
  rw [CommandResult.createFromAsync, AsyncCommandResult.getPayload] at herror
  by_cases hok : result.resultCode = .ok
  · rw [if_neg (by simp [hok]), if_pos hok, hp] at herror
    rcases bind_eq_error.mp herror with herror | ⟨docSize, -, herror⟩
    · exact i32At_ne_nullPointer _ _ herror
    rcases bind_eq_error.mp herror with herror | ⟨bytes, -, herror⟩
    · exact bytesAt_ne_nullPointer _ _ _ herror
    · simp at herror
  · rw [if_pos hok, AsyncCommandResult.getErrorMessage, AsyncCommandResult.isSuccess,
      if_neg (by simp [hok]), hp] at herror
    rcases bind_eq_error.mp herror with herror | ⟨message, -, herror⟩
    · exact cString_ne_nullPointer _ _ herror
    · simp at herror

/-- **Which callback is called**, and with what. -/
theorem parsePacket_eq_some_iff (hsize : size ≤ mem.length) :
    parsePacket mem size handlers = .ok (handlers', some (command, result)) ↔
      ∃ fs id, IsResponse mem size fs ∧ lastOf (Field.userData mem) fs = some id ∧ id ≠ -1 ∧
        handlers.find? (·.1 = id) = some (id, command) ∧ handlers' = handlers.erase (id, command) ∧
        result = (Response.ofFields mem fs).result := by
  constructor
  · intro h
    obtain ⟨found, hfound, h⟩ := bind_eq_ok.mp h
    cases found with
    | none => simp at h
    | some s =>
        obtain ⟨fs, hfs, rfl, hid⟩ := (parseResponse_eq_some_iff hsize).mp hfound
        dsimp only at h
        split at h
        · rename_i handler hhandler
          simp only [pure_eq_ok, Except.ok.injEq, Prod.mk.injEq, Option.some.injEq] at h
          obtain ⟨rfl, rfl, rfl⟩ := h
          have hkey : handler.1 = (Response.ofFields mem fs).cmdId := by
            simpa using List.find?_some hhandler
          have huser : lastOf (Field.userData mem) fs = some handler.1 := by
            rw [hkey, Response.ofFields]
            cases hlast : lastOf (Field.userData mem) fs with
            | none => simp [Response.ofFields, hlast] at hid
            | some id => rfl
          refine ⟨fs, handler.1, hfs, huser, hkey ▸ hid, ?_, rfl, rfl⟩
          rw [hkey, hhandler, ← hkey]
        · simp at h
  · rintro ⟨fs, id, hfs, huser, hid, hhandler, rfl, rfl⟩
    have hcmd : (Response.ofFields mem fs).cmdId = id := by rw [Response.ofFields, huser]; rfl
    have hfound := (parseResponse_eq_some_iff hsize).mpr ⟨fs, hfs, rfl, hcmd ▸ hid⟩
    rw [parsePacket, hfound, ok_bind]
    dsimp only
    rw [hcmd, hhandler]
    rfl

/-- A packet without a callback leaves the callbacks as they are. -/
theorem handlers_of_parsePacket (h : parsePacket mem size handlers = .ok (handlers', none)) :
    handlers' = handlers := by
  obtain ⟨found, -, h⟩ := bind_eq_ok.mp h
  cases found with
  | none => simpa using h.symm
  | some s =>
      dsimp only at h
      split at h
      · simp at h
      · simpa using h.symm

/-- Values begin behind the front of the packet. -/
theorem FieldsFrom.value_nonneg {docEnd start : ℤ} (h : FieldsFrom mem docEnd start fs) :
    ∀ f ∈ fs, 0 ≤ f.value := by
  induction h with
  | docEnd hbyte => simp
  | @field start need count f fs h hcount rest ih =>
      have hs := h.start_nonneg
      have hv := h.start_lt_value
      exact List.forall_mem_cons.mpr ⟨by omega, ih⟩

theorem IsResponse.errorMessage_nonneg {text : Span} (h : IsResponse mem size fs)
    (htext : lastOf (Field.errorMessage mem) fs = some text) : 0 ≤ text.offset := by
  obtain ⟨f, hf, hmessage⟩ := exists_of_lastOf htext
  obtain ⟨-, docSize, value, -, -, -, hfields, -⟩ := h
  have hvalue := hfields.value_nonneg f (List.mem_cons_of_mem _ hf)
  rw [Field.errorMessage] at hmessage
  split at hmessage
  · obtain ⟨byteSize, -, rfl⟩ := Option.map_eq_some_iff.mp hmessage
    dsimp only
    omega
  · simp at hmessage

/-- **When a response tells its callback what it says.** -/
theorem informs_iff_complete (h : IsResponse mem size fs) :
    Informs mem size fs (Response.ofFields mem fs).result ↔ Complete mem size fs := by
  have hcode : (Response.ofFields mem fs).resultCode = (lastOf (Field.result mem) fs).getD .ok := rfl
  have hpayload : (Response.ofFields mem fs).resultPayload = lastOf (Field.data mem) fs := rfl
  have htext : (Response.ofFields mem fs).errorMessage = lastOf (Field.errorMessage mem) fs := rfl
  rw [Response.result, Complete, hcode, hpayload, htext]
  by_cases hok : (lastOf (Field.result mem) fs).getD .ok = .ok
  · rw [if_pos hok, if_pos hok]
    constructor
    · exact fun hinforms => hinforms.payload rfl
    · rintro ⟨p, hp, hvalid⟩
      refine ⟨fun _ => ⟨p, hp, hvalid⟩, fun hfailure => Bool.noConfusion hfailure, ?_⟩
      exact createFromAsync_ne_nullPointer (by simp [AsyncCommandResult.createSuccess, hp])
  · rw [if_neg hok, if_neg hok]
    have hfailure : ∀ message, (AsyncCommandResult.createFailure
        ((lastOf (Field.result mem) fs).getD .ok) message).isSuccess = false := by
      intro message
      simp [AsyncCommandResult.isSuccess, AsyncCommandResult.createFailure, hok]
    constructor
    · intro hinforms
      have hmessage := hinforms.message (hfailure _)
      rw [AsyncCommandResult.getErrorMessage, hfailure, if_neg (by simp)] at hmessage
      cases hlast : lastOf (Field.errorMessage mem) fs with
      | none => simp [hlast, AsyncCommandResult.createFailure] at hmessage
      | some text =>
          rw [errorText, hlast] at hmessage ⊢
          obtain ⟨hnul, hclean⟩ := (cString_eq_take_iff (h.errorMessage_nonneg hlast)).mp hmessage
          exact ⟨text, rfl, hclean, hnul⟩
    · rintro ⟨text, hlast, hclean, hnul⟩
      refine ⟨fun hsuccess => ?_, fun _ => ?_, createFromAsync_ne_nullPointer ?_⟩
      · rw [hfailure] at hsuccess
        exact absurd hsuccess (by simp)
      · rw [errorText, hlast] at hclean
        rw [AsyncCommandResult.getErrorMessage, hfailure, if_neg (by simp), errorText, hlast]
        exact (cString_eq_take_iff (h.errorMessage_nonneg hlast)).mpr ⟨hnul, hclean⟩
      · simp [AsyncCommandResult.createFailure, hlast]

/-- A callback that is registered under an id is found. -/
theorem find?_of_mem {id : ℤ} (h : (id, command) ∈ handlers) :
    ∃ command', handlers.find? (·.1 = id) = some (id, command') := by
  obtain ⟨handler, hhandler⟩ : ∃ handler, handlers.find? (·.1 = id) = some handler := by
    refine Option.isSome_iff_exists.mp (List.find?_isSome.mpr ⟨_, h, ?_⟩)
    simp
  have hkey : handler.1 = id := by simpa using List.find?_some hhandler
  exact ⟨handler.2, hkey ▸ hhandler⟩

/-- **The callback that a packet is for learns what the packet says exactly when** the packet is
complete: whatever the packet is, and whatever lies behind it in the receive buffer. -/
theorem delivered_iff (packet behind : List UInt8) (handlers : List (ℤ × ℕ)) :
    (∀ handlers' command result,
      parsePacket (packet ++ behind) packet.length handlers = .ok (handlers', some (command, result)) →
        ∃ fs, IsResponse (packet ++ behind) packet.length fs ∧
          Informs (packet ++ behind) packet.length fs result) ↔
      ∀ fs id, IsResponse (packet ++ behind) packet.length fs →
        lastOf (Field.userData (packet ++ behind)) fs = some id → id ≠ -1 →
        (∃ command, (id, command) ∈ handlers) → Complete (packet ++ behind) packet.length fs := by
  have hsize : packet.length ≤ (packet ++ behind).length := by simp
  constructor
  · rintro h fs id hfs huser hid ⟨command, hcommand⟩
    obtain ⟨command', hhandler⟩ := find?_of_mem hcommand
    obtain ⟨fs', hfs', hinforms⟩ := h _ command' _ ((parsePacket_eq_some_iff hsize).mpr
      ⟨fs, id, hfs, huser, hid, hhandler, rfl, rfl⟩)
    obtain rfl := hfs.unique hfs'
    exact (informs_iff_complete hfs).mp hinforms
  · intro h handlers' command result hcalled
    obtain ⟨fs, id, hfs, huser, hid, hhandler, -, rfl⟩ := (parsePacket_eq_some_iff hsize).mp hcalled
    refine ⟨fs, hfs, (informs_iff_complete hfs).mpr (h fs id hfs huser hid ⟨command, ?_⟩)⟩
    exact List.mem_of_find?_eq_some hhandler

/-- A response that has nothing but the id of its command. -/
def bareResponse : List UInt8 :=
  Bson.document (Bson.Elements.leaf (ascii "00type") (.i32 1)
    (.leaf (ascii "user-data") (.i32 0) .nil)).bytes

/-- It is a success without a payload. -/
theorem not_delivered : ¬ ∀ (packet behind : List UInt8) (handlers handlers' : List (ℤ × ℕ))
    (command : ℕ) (result : AsyncCommandResult),
    parsePacket (packet ++ behind) packet.length handlers = .ok (handlers', some (command, result)) →
      ∃ fs, IsResponse (packet ++ behind) packet.length fs ∧
        Informs (packet ++ behind) packet.length fs result := by
  intro h
  have hcalled : parsePacket (bareResponse ++ []) bareResponse.length [(0, 0)]
      = .ok ([], some (0, ⟨.ok, none⟩)) := by decide +kernel
  obtain ⟨fs, -, hinforms⟩ := h _ _ _ _ _ _ hcalled
  obtain ⟨p, hp, -⟩ := hinforms.payload rfl
  have hnull : (none : Option ℤ) = some p := hp
  simp at hnull

end

end ScApi
