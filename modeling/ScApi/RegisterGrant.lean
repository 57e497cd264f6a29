import ScApi.Lib.LongerMemory
import ScApi.Register

/-!
# Replies that grant a registration

The reply of a registration is parsed at the front of the receive buffer. Whether it grants the
registration does not depend on what the buffer holds behind it, as long as the parser has a result
on the bytes of the reply alone.

## Main results

* `extends_parseRegisterReply`: the bytes behind the reply do not matter.
* `exchange_of_parse`: what a reply that grants the registration does.
-/

open Bytes BoundedRead

namespace ScApi

open ElementType

section

variable (mem rest : List UInt8) (r : BsonReader)

namespace BsonReader

theorem extends_storedSize (o : ℤ) (t : ElementType) :
    Extends (storedSize mem o t) (storedSize (mem ++ rest) o t) := by
  cases t with
  | elementStr | elementBinary =>
      exact (extends_i32At mem rest o).bind fun _ _ => Extends.refl _
  | elementDoc | elementArray => exact extends_i32At mem rest o
  | _ => exact Extends.refl _

theorem extends_valueSize (o : ℤ) (t : ElementType) :
    Extends (valueSize mem o t) (valueSize (mem ++ rest) o t) := by
  cases t with
  | elementStr | elementBinary =>
      exact (extends_i32At mem rest o).bind fun _ _ => Extends.refl _
  | elementDoc | elementArray => exact extends_i32At mem rest o
  | _ => exact Extends.refl _

theorem extends_readKey : Extends (r.readKey mem) (r.readKey (mem ++ rest)) := by
  refine (extends_findNul mem rest _ _).bind fun found hfound => ?_
  cases found with
  | none => exact Extends.refl _
  | some nul =>
      dsimp only
      rw [slice_append rest hfound]
      exact Extends.refl _

theorem extends_readElement (start : ℤ) :
    Extends (r.readElement mem start) (r.readElement (mem ++ rest) start) := by
  refine (extends_byteAt mem rest start).bind fun b _ => (Extends.refl _).ite ?_
  refine (extends_readKey mem rest _).bind ?_
  rintro ⟨found, r'⟩ -
  cases found with
  | false => exact Extends.refl _
  | true => exact (extends_valueSize mem rest _ _).bind fun _ _ => Extends.refl _

theorem extends_next : Extends (r.next mem) (r.next (mem ++ rest)) := by
  refine (Extends.refl _).ite (Extends.bind ?_ fun start _ => extends_readElement mem rest r start)
  exact (extends_storedSize mem rest _ _).bind fun _ _ => Extends.refl _

theorem extends_scan (found : BsonReader → Bool) (n : ℕ) (t : ElementType) :
    Extends (scan mem found n t r) (scan (mem ++ rest) found n t r) := by
  induction n generalizing t r with
  | zero => exact Extends.refl _
  | succ n ih =>
      refine Extends.ite ((Extends.refl _).ite ?_) (Extends.refl _)
      refine (extends_next mem rest r).bind ?_
      rintro ⟨t', r'⟩ -
      exact ih r' t'

theorem extends_seek (o : ElementOffset) : Extends (r.seek mem o) (r.seek (mem ++ rest) o) :=
  (extends_next mem rest _).ite (Extends.refl _)

theorem extends_seekKey (key : List UInt8) :
    Extends (r.seekKey mem key) (r.seekKey (mem ++ rest) key) := by
  refine (extends_next mem rest _).bind ?_
  rintro ⟨t, r'⟩ -
  refine (extends_scan mem rest r' _ _ t).bind ?_
  rintro ⟨t', r''⟩ -
  exact ((extends_seek mem rest r'' _).bind fun _ _ => Extends.refl _).ite (Extends.refl _)

theorem extends_beginSub : Extends (r.beginSub mem) (r.beginSub (mem ++ rest)) :=
  (Extends.refl _).ite
    ((Extends.refl _).ite ((extends_i32At mem rest _).bind fun _ _ => Extends.refl _))

theorem extends_tryGetI32 : Extends (r.tryGetI32 mem) (r.tryGetI32 (mem ++ rest)) := by
  rw [tryGetI32, tryGetI32]
  split
  · exact (extends_i32At mem rest _).bind fun _ _ => Extends.refl _
  · refine Extends.bind ?_ fun _ _ => Extends.refl _
    exact (extends_bytesAt mem rest _ 8).bind fun _ _ => Extends.refl _
  · refine Extends.bind ?_ fun _ _ => Extends.refl _
    exact (extends_bytesAt mem rest _ 8).bind fun _ _ => Extends.refl _
  · exact Extends.refl _

theorem extends_tryFindAndGetI32 (key : List UInt8) :
    Extends (r.tryFindAndGetI32 mem key) (r.tryFindAndGetI32 (mem ++ rest) key) := by
  refine (extends_seekKey mem rest r key).bind ?_
  rintro ⟨t, r'⟩ -
  exact (Extends.refl _).ite ((extends_tryGetI32 mem rest r').bind fun _ _ => Extends.refl _)

theorem extends_stringValue : Extends (r.stringValue mem) (r.stringValue (mem ++ rest)) :=
  (extends_i32At mem rest _).bind fun _ _ => Extends.refl _

theorem extends_tryFindAndGetString (key : List UInt8) :
    Extends (r.tryFindAndGetString mem key) (r.tryFindAndGetString (mem ++ rest) key) := by
  refine (extends_seekKey mem rest r key).bind ?_
  rintro ⟨t, r'⟩ -
  exact (Extends.refl _).ite ((extends_stringValue mem rest r').bind fun _ _ => Extends.refl _)

end BsonReader

open BsonReader

theorem extends_parseCommandResultHeader :
    Extends (parseCommandResultHeader mem r) (parseCommandResultHeader (mem ++ rest) r) := by
  refine (extends_tryFindAndGetI32 mem rest r _).bind ?_
  rintro ⟨returnCode, r⟩ -
  cases returnCode with
  | none => exact Extends.refl _
  | some returnCode =>
      refine Extends.ite ?_ ?_
      · refine (extends_tryFindAndGetString mem rest r _).bind ?_
        rintro ⟨errorMsg, r⟩ -
        cases errorMsg with
        | none => exact Extends.refl _
        | some text => exact (extends_bytesAt mem rest _ _).bind fun _ _ => Extends.refl _
      · refine (extends_seekKey mem rest r _).bind ?_
        rintro ⟨t, r⟩ -
        refine (Extends.refl _).ite ?_
        refine (extends_beginSub mem rest r).bind ?_
        rintro ⟨begun, r⟩ -
        refine (Extends.refl _).ite ?_
        refine (extends_next mem rest r).bind ?_
        rintro ⟨t, r⟩ -
        refine (Extends.refl _).ite ?_
        refine (extends_beginSub mem rest r).bind ?_
        rintro ⟨begun, r⟩ -
        exact Extends.refl _

theorem extends_addControlFlag (value : Span) (flags : UInt32) :
    Extends (addControlFlag mem value flags) (addControlFlag (mem ++ rest) value flags) := by
  refine Extends.foldlM (fun flags named => ?_) _ flags
  exact ((extends_bytesAt mem rest _ _).bind fun _ _ => Extends.refl _).ite (Extends.refl _)

theorem extends_readControl (n : ℕ) (flags : UInt32) :
    Extends (readControl mem n flags r) (readControl (mem ++ rest) n flags r) := by
  induction n generalizing flags r with
  | zero => exact Extends.refl _
  | succ n ih =>
      refine (extends_next mem rest r).bind ?_
      rintro ⟨e, r⟩ -
      refine (Extends.refl _).ite (Extends.ite ?_ (ih r flags))
      refine (extends_stringValue mem rest r).bind fun value _ => ?_
      exact (extends_addControlFlag mem rest value flags).bind fun flags _ => ih r flags

/-- **The bytes behind the reply do not matter.** -/
theorem extends_parseRegisterReply (size : ℕ) :
    Extends (parseRegisterReply mem size) (parseRegisterReply (mem ++ rest) size) := by
  refine Extends.bind ?_ fun r _ => ?_
  · refine (Extends.refl _).ite ?_
    exact (extends_i32At mem rest 0).bind fun _ _ => Extends.refl _
  refine (extends_parseCommandResultHeader mem rest r).bind ?_
  rintro ⟨result, commandName, r⟩ -
  refine (Extends.refl _).ite ?_
  refine (extends_tryFindAndGetI32 mem rest r _).bind ?_
  rintro ⟨ctrlId, r⟩ -
  cases ctrlId with
  | none => exact Extends.refl _
  | some ctrlId =>
      refine (extends_seekKey mem rest r _).bind ?_
      rintro ⟨t, r⟩ -
      refine (Extends.refl _).ite ?_
      refine (extends_beginSub mem rest r).bind ?_
      rintro ⟨begun, r⟩ -
      refine (Extends.refl _).ite ?_
      exact (extends_readControl mem rest r _ _).bind fun _ _ => Extends.refl _

end

/-- **A reply that registers the caller when it is parsed alone** ends the exchange with a
registration. -/
theorem exchange_of_parse {a : RegisterArgs} {b : Backend} {s : Session} {document : List UInt8}
    {ctrlId : ℤ} {flags : UInt32} (hwritten : b.written = .whole)
    (hreply : readReply b.cut b.stream = .reply document)
    (hparse : parseRegisterReply document document.length = .ok (some (ctrlId, flags))) :
    s.exchange a b = (.returned .ok, s.registered a (b.buffer document) ctrlId flags) := by
  have hbuffer : parseRegisterReply (b.buffer document) document.length = .ok (some (ctrlId, flags)) :=
    extends_parseRegisterReply document _ _ _ hparse
  simp only [Session.exchange, hwritten, hreply, hbuffer]

/-- A reply that registers its caller as the controller 1 with force feedback. -/
def grantingReply : List UInt8 :=
  [87, 0, 0, 0,
    16, 114, 101, 115, 117, 108, 116, 0, 0, 0, 0, 0,
    3, 100, 97, 116, 97, 0, 64, 0, 0, 0,
    3, 114, 101, 103, 105, 115, 116, 101, 114, 0, 49, 0, 0, 0,
    16, 99, 111, 110, 116, 114, 111, 108, 108, 101, 114, 95, 105, 100, 0, 1, 0, 0, 0,
    4, 99, 111, 110, 116, 114, 111, 108, 0, 16, 0, 0, 0,
    2, 48, 0, 4, 0, 0, 0, 102, 102, 98, 0,
    0, 0, 0, 0]

/-- A backend that grants every registration. -/
def grantingBackend : Backend :=
  ⟨true, true, true, .whole, grantingReply, fun _ => 5, fun _ => 0⟩

/-- What a first registration with that backend does. -/
theorem registerToControl_granting {a : RegisterArgs} {s : Session} (hvalid : a.Valid s.sessionId)
    (hclosed : s.highPrioritySocketOpen = false) :
    s.registerToControl a grantingBackend = (.returned .ok,
      Session.registered a (grantingBackend.buffer grantingReply) 1 1 { s with
        secureSession := a.secureSession
        highPrioritySocketOpen := true
        mainSocketOpen := true }) := by
  have hreply : readReply (fun _ => 5) grantingReply = .reply grantingReply := by decide +kernel
  have hparse : parseRegisterReply grantingReply grantingReply.length = .ok (some (1, 1)) := by
    decide +kernel
  rw [Session.registerToControl, if_neg (not_not.mpr hvalid), Session.connect, hclosed,
    if_neg Bool.false_ne_true, if_neg (by decide), if_neg (fun h => h.2 rfl), if_neg (by decide)]
  exact exchange_of_parse rfl hreply hparse

end ScApi
