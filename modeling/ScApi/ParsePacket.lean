import ScApi.BsonElements
import ScApi.Session

/-!
# The responses to commands

`parsePacket` goes through the elements of a packet in any order and keeps the last value of each that
it knows. When the packet ends properly, the callback that is registered under the packet's `user-data`
is called: with a pointer to the result of a command that succeeded, or with a pointer to the text of
the error.

`FieldsFrom` names the elements of the packet, so what is delivered is a function of them.

## Main results

* `responseLoop_sound`, `responseLoop_complete`: the loop and the elements of the packet.
* `parseResponse_eq_some_iff`: which packets are responses, and what is made of their fields.
* `parseResponse_ne_outOfFuel`: the loop ends on every packet.
-/

open Bytes BoundedRead

namespace ScApi

open ElementType BsonReader

/-- `AsyncCommandResult`, with its pointer as an offset into the packet; `none` is the null pointer. -/
structure AsyncCommandResult where
  resultCode : ResultCode := .ok
  payloadBson : Option ℤ := none
  deriving DecidableEq, Repr

namespace AsyncCommandResult

/-- `AsyncCommandResult::createSuccess`. -/
def createSuccess (payload : Option ℤ) : AsyncCommandResult :=
  ⟨.ok, payload⟩

/-- `AsyncCommandResult::createFailure`; the view without a pointer is `none`. -/
def createFailure (errorCode : ResultCode) (message : Option Span) : AsyncCommandResult :=
  ⟨errorCode, message.map Span.offset⟩

/-- `AsyncCommandResult::isSuccess`. -/
def isSuccess (result : AsyncCommandResult) : Bool :=
  result.resultCode = .ok

/-- `AsyncCommandResult::getErrorMessage`. -/
def getErrorMessage (mem : List UInt8) (result : AsyncCommandResult) : Read (List UInt8) :=
  if result.isSuccess then
    pure []
  else
    match result.payloadBson with
    | none => throw .nullPointer
    | some text => cString mem text

/-- `AsyncCommandResult::getPayload`. -/
def getPayload (result : AsyncCommandResult) : Option ℤ :=
  if result.resultCode = .ok then result.payloadBson else none

end AsyncCommandResult

/-- `CommandResult`. -/
structure CommandResult where
  resultCode : ResultCode := .ok
  payloadBson : List UInt8 := []
  deriving DecidableEq, Repr

namespace CommandResult

/-- `CommandResult::createSuccess`. -/
def createSuccess (payload : List UInt8) : CommandResult :=
  ⟨.ok, payload⟩

/-- `CommandResult::createFailure`. -/
def createFailure (errorCode : ResultCode) (message : List UInt8) : CommandResult :=
  ⟨errorCode, message ++ [0]⟩

/-- `CommandResult::createFromAsync`. -/
def createFromAsync (mem : List UInt8) (result : AsyncCommandResult) : Read CommandResult :=
  if result.resultCode ≠ .ok then do
    let message ← result.getErrorMessage mem
    pure (createFailure result.resultCode message)
  else
    match result.getPayload with
    | none => throw .nullPointer
    | some payload => do
        let bsonDataSize ← i32At mem payload
        let bytes ← bytesAt mem payload (toSizeT bsonDataSize)
        pure (createSuccess bytes)

end CommandResult

/-- The variables of the loop of `parsePacket`. -/
structure Response where
  cmdId : ℤ := -1
  resultCode : ResultCode := .ok
  resultPayload : Option ℤ := none
  errorMessage : Option Span := none
  deriving DecidableEq, Repr

/-- A turn of the loop of `parsePacket` behind the call of `next`, with the reader at an element. -/
def Response.element (mem : List UInt8) (e : ElementType) (s : Response) (r : BsonReader) :
    Read (Response × BsonReader) :=
  if r.key = ascii "user-data" ∧ e = elementI32 then do
    let cmdId ← r.int32Value mem
    pure ({ s with cmdId }, r)
  else if r.key = ascii "service" ∧ e = elementStr then
    pure (s, r)
  else if r.key = ascii "data" ∧ e = elementDoc then do
    let (_, r) ← r.beginSub mem
    let (t, r) ← r.next mem
    if t = elementDoc then do
      let payload ← r.subdocument mem
      pure ({ s with resultPayload := payload.map Span.offset }, r.endSub.2)
    else
      pure (s, r.endSub.2)
  else if r.key = ascii "result" ∧ e = elementI32 then do
    let code ← r.int32Value mem
    pure ({ s with resultCode := ⟨code⟩ }, r)
  else if r.key = ascii "error_message" ∧ e = elementStr then do
    let text ← r.stringValue mem
    pure ({ s with errorMessage := some text }, r)
  else
    -- an unexpected element is printed
    pure (s, r)

/-- The loop of `parsePacket`. -/
def responseLoop (mem : List UInt8) : ℕ → Response → BsonReader → Read (ElementType × Response)
  | 0, _, _ => throw .outOfFuel
  | n + 1, s, r => do
      let (e, r) ← r.next mem
      if r.atEnd then
        pure (e, s)
      else do
        let (s, r) ← s.element mem e r
        responseLoop mem n s r

/-- The part of `parsePacket` in front of the search for the callback; `none` when there is no search.
Elements start ever later in the packet, which bounds the loop. -/
def parseResponse (mem : List UInt8) (size : ℕ) : Read (Option Response) := do
  let r ← ofBufferSize (some mem) size
  let (first, r) ← r.next mem
  if first ≠ elementI32 ∨ r.key ≠ ascii "00type" then
    pure none
  else do
    let type ← r.int32Value mem
    if type ≠ 1 then
      pure none
    else do
      let (e, s) ← responseLoop mem (r.curDocEnd.toNat + 2) {} r
      pure (if s.cmdId ≠ -1 ∧ ¬ e.isError then some s else none)

/-- What the callback is called with. -/
def Response.result (s : Response) : AsyncCommandResult :=
  if s.resultCode = .ok then
    AsyncCommandResult.createSuccess s.resultPayload
  else
    AsyncCommandResult.createFailure s.resultCode s.errorMessage

/-- `parsePacket` on the packet of `size` bytes at the front of `mem`: the callbacks that stay in
`command_result_handlers`, and the one that is called. -/
def parsePacket (mem : List UInt8) (size : ℕ) (handlers : List (ℤ × ℕ)) :
    Read (List (ℤ × ℕ) × Option (ℕ × AsyncCommandResult)) := do
  match ← parseResponse mem size with
  | none => pure (handlers, none)
  | some s =>
      match handlers.find? (·.1 = s.cmdId) with
      | some handler => pure (handlers.erase handler, some (handler.2, s.result))
      | none => pure (handlers, none)

/-! ### The fields of a packet -/

/-- An element of a packet. -/
structure Field where
  type : ElementType
  key : List UInt8
  /-- Where the value begins. -/
  value : ℤ
  deriving DecidableEq, Repr

/-- **The elements of a document** from `start` on, up to the byte that ends it. -/
inductive FieldsFrom (mem : List UInt8) (docEnd : ℤ) : ℤ → List Field → Prop
  | docEnd {start : ℤ} (hbyte : byteAt mem start = .ok 0) : FieldsFrom mem docEnd start []
  | field {start need count : ℤ} {f : Field} {fs : List Field}
      (h : ElementAt mem docEnd start f.type f.key f.value need)
      (hcount : storedSize mem f.value f.type = .ok count)
      (rest : FieldsFrom mem docEnd (f.value + count) fs) : FieldsFrom mem docEnd start (f :: fs)

/-- Where the value of the first element of the document at `value` begins, if that is a document. -/
def firstDocument (mem : List UInt8) (value : ℤ) : Read (Option ℤ) := do
  let docSize ← i32At mem value
  let (t, r) ← BsonReader.next mem
    { BsonReader.fresh with
      curType := elementInternalDocBegin
      bufOffset := wrap32 (value + 4)
      curDocBegin := wrap32 (value + 4)
      curDocEnd := value + docSize }
  pure (if t = elementDoc then some r.bufOffset else none)

namespace Field

/-- The field has this key and type. -/
def Is (f : Field) (key : List UInt8) (type : ElementType) : Prop :=
  f.key = key ∧ f.type = type

instance (f : Field) (key : List UInt8) (type : ElementType) : Decidable (f.Is key type) :=
  inferInstanceAs (Decidable (_ ∧ _))

variable (mem : List UInt8) (f : Field)

/-- The id of the command, in the field `user-data`. -/
def userData : Option ℤ :=
  if f.Is (ascii "user-data") elementI32 then (i32At mem f.value).toOption else none

/-- The result code. -/
def result : Option ResultCode :=
  if f.Is (ascii "result") elementI32 then (i32At mem f.value).toOption.map ResultCode.mk else none

/-- The document that is the first element of `data`. -/
def data : Option ℤ :=
  if f.Is (ascii "data") elementDoc then (firstDocument mem f.value).toOption.join else none

/-- The text of the error. -/
def errorMessage : Option Span :=
  if f.Is (ascii "error_message") elementStr then
    (i32At mem f.value).toOption.map fun byteSize =>
      ⟨f.value + 4, toSizeT (wrap32 (byteSize - 1))⟩
  else
    none

/-- The first element of `data` can be read. -/
def Readable : Prop :=
  f.Is (ascii "data") elementDoc → ∃ payload, firstDocument mem f.value = .ok payload

end Field

/-- The last field that has a value. -/
def lastOf {α : Type} (select : Field → Option α) (fs : List Field) : Option α :=
  (fs.filterMap select).getLast?

/-- What a response says. -/
def Response.ofFields (mem : List UInt8) (fs : List Field) : Response where
  cmdId := (lastOf (Field.userData mem) fs).getD (-1)
  resultCode := (lastOf (Field.result mem) fs).getD .ok
  resultPayload := lastOf (Field.data mem) fs
  errorMessage := lastOf (Field.errorMessage mem) fs

/-- **The packet is a response** with these fields behind `00type`. -/
def IsResponse (mem : List UInt8) (size : ℕ) (fs : List Field) : Prop :=
  5 ≤ size ∧ ∃ docSize value, i32At mem 0 = .ok docSize ∧ 0 ≤ docSize ∧ docSize ≤ size ∧
    FieldsFrom mem docSize 4 (⟨elementI32, ascii "00type", value⟩ :: fs) ∧
    i32At mem value = .ok 1 ∧ ∀ f ∈ fs, f.Readable mem

/-! ### The last field with a value -/

section LastOf

variable {α : Type} {select : Field → Option α} {f : Field} {fs : List Field}

@[simp] theorem lastOf_nil : lastOf select [] = none := rfl

theorem lastOf_cons : lastOf select (f :: fs) = (lastOf select fs).or (select f) := by
  rw [lastOf, lastOf, List.filterMap_cons]
  cases select f with
  | none => simp
  | some a => cases h : (fs.filterMap select).getLast? <;> simp [List.getLast?_cons, h]

/-- The value of a field, if there is one. -/
theorem exists_of_lastOf {a : α} (h : lastOf select fs = some a) : ∃ f ∈ fs, select f = some a := by
  simpa using List.mem_of_getLast? h

end LastOf

/-- What one field changes. -/
def Response.apply (mem : List UInt8) (s : Response) (f : Field) : Response where
  cmdId := (f.userData mem).getD s.cmdId
  resultCode := (f.result mem).getD s.resultCode
  resultPayload := (f.data mem).or s.resultPayload
  errorMessage := (f.errorMessage mem).or s.errorMessage

/-- The loop keeps the last value of each. -/
theorem Response.foldl_apply (mem : List UInt8) (fs : List Field) (s : Response) :
    fs.foldl (Response.apply mem) s =
      ⟨(lastOf (Field.userData mem) fs).getD s.cmdId, (lastOf (Field.result mem) fs).getD s.resultCode,
        (lastOf (Field.data mem) fs).or s.resultPayload,
        (lastOf (Field.errorMessage mem) fs).or s.errorMessage⟩ := by
  induction fs generalizing s with
  | nil => rfl
  | cons f fs ih =>
      rw [List.foldl_cons, ih]
      simp only [lastOf_cons, Response.apply, Option.or_assoc]
      cases lastOf (Field.userData mem) fs <;> cases lastOf (Field.result mem) fs <;> rfl

theorem Response.foldl_apply_default (mem : List UInt8) (fs : List Field) :
    fs.foldl (Response.apply mem) {} = Response.ofFields mem fs := by
  rw [foldl_apply, ofFields, Option.or_none, Option.or_none]

/-! ### One field -/

section

variable {mem : List UInt8} {docEnd start need count : ℤ} {f : Field} {fs : List Field}
  {r r₁ : BsonReader} {s : Response}

/-- What `next` finds depends on where the reader is and where its document ends. -/
theorem readElement_congr {r r' : BsonReader} (hend : r.curDocEnd = r'.curDocEnd) :
    (r.readElement mem start).map (fun p => (p.1, p.2.bufOffset))
      = (r'.readElement mem start).map (fun p => (p.1, p.2.bufOffset)) := by
  rw [readElement, readElement]
  cases byteAt mem start with
  | error e => rfl
  | ok b =>
      simp only [ok_bind, readKey, hend]
      split
      · rfl
      cases findNul mem (r'.curDocEnd - wrap32 (start + 1)).toNat (wrap32 (start + 1)) with
      | error e => rfl
      | ok nul =>
          cases nul with
          | none => rfl
          | some nul =>
              simp only [ok_bind, pure_eq_ok]
              cases valueSize mem (nul + 1) (ElementType.ofByte b) with
              | error e => rfl
              | ok need =>
                  simp only [ok_bind]
                  split <;> rfl

theorem next_docBegin {i : ℤ} (hbegin : r.curType = elementInternalDocBegin)
    (hoff : r.bufOffset = wrap32 i) : r.next mem = r.readElement mem (wrap32 i) := by
  have hwrap : wrap32 (wrap32 i + 0) = wrap32 i := by
    obtain ⟨hlo, hhi⟩ := wrap32_range i
    rw [add_zero, wrap32_of_range hlo hhi]
  have hskip : r.skipValue mem = .ok (wrap32 i) := by
    rw [skipValue, hbegin, hoff, storedSize, pure_eq_ok, ok_bind, hwrap, pure_eq_ok]
  exact Inside.next_of_skipValue (by rw [hbegin]; rfl) hskip

/-- **The first element of `data`**, for the reader of the packet. -/
theorem firstDocument_eq (hneed : i32At mem f.value = .ok need)
    (hbegin : r.curType = elementInternalDocBegin) (hoff : r.bufOffset = wrap32 (f.value + 4))
    (hend : r.curDocEnd = f.value + need) :
    firstDocument mem f.value
      = (r.next mem).map fun p => if p.1 = elementDoc then some p.2.bufOffset else none := by
  have hmap : ∀ x : Read (ElementType × BsonReader),
      (x.map fun p => if p.1 = elementDoc then some p.2.bufOffset else none)
        = (x.map fun p => (p.1, p.2.bufOffset)).map
            fun p => if p.1 = elementDoc then some p.2 else none := by
    rintro (e | p) <;> rfl
  rw [firstDocument, hneed, ok_bind, next_docBegin hbegin hoff, hmap, ← readElement_congr, ← hmap,
    next_docBegin rfl rfl]
  · rfl
  · exact hend.symm

theorem firstDocument_ne_outOfFuel (mem : List UInt8) (value : ℤ) :
    firstDocument mem value ≠ .error .outOfFuel := by
  intro h
  rcases bind_eq_error.mp h with h | ⟨docSize, -, h⟩
  · exact i32At_ne_outOfFuel _ _ h
  rcases bind_eq_error.mp h with h | ⟨⟨t, r⟩, -, h⟩
  · exact next_ne_outOfFuel _ _ h
  · simp at h

/-- The number at the front of the value. -/
theorem BsonReader.ElementAt.exists_i32At {t : ElementType} {key : List UInt8} {value : ℤ}
    (h : ElementAt mem docEnd start t key value need) (hend : docEnd ≤ mem.length)
    (ht : t = elementI32 ∨ t = elementStr) : ∃ v, i32At mem value = .ok v := by
  have hneed := h.need_eq
  have hfits := h.fits
  have hs := h.start_nonneg
  have hv := h.start_lt_value
  rcases ht with rfl | rfl
  · obtain rfl : (4 : ℤ) = need := Except.ok.inj hneed
    exact i32At_ok_of_range (by omega) (by omega)
  · obtain ⟨v, hv, -⟩ := bind_eq_ok.mp hneed
    exact ⟨v, hv⟩

theorem BsonReader.ElementAt.byteAt_ne_zero {t : ElementType} {key : List UInt8} {value : ℤ}
    (h : ElementAt mem docEnd start t key value need) : byteAt mem start ≠ .ok 0 := by
  intro hbyte
  obtain ⟨b, hb, rfl⟩ := h.typeByte
  obtain rfl := Except.ok.inj (hbyte.symm.trans hb)
  exact absurd h.pos (by decide)

theorem Field.Is.not_is {key key' : List UInt8} {type type' : ElementType} (h : f.Is key type)
    (hne : key ≠ key') : ¬ f.Is key' type' :=
  fun h' => hne (h.1.symm.trans h'.1)

/-- The reader is in front of the next field, in the same document. -/
structure Behind (mem : List UInt8) (r : BsonReader) (start : ℤ) (r₁ : BsonReader) : Prop where
  before : Before mem r₁ start
  docEnd : r₁.curDocEnd = r.curDocEnd
  docLayers : r₁.docLayers = r.docLayers

theorem behind_atElement (hr : Before mem r start)
    (h : ElementAt mem r.curDocEnd start f.type f.key f.value need)
    (hcount : storedSize mem f.value f.type = .ok count) :
    Behind mem r (f.value + count) (r.atElement start f.type f.key f.value) :=
  ⟨hr.atElement h hcount, rfl, rfl⟩

/-- **The field `data`**: the reader looks at its first element, and is behind it again. -/
theorem element_data (hr : Before mem r start) (hlayers : r.docLayers = [])
    (h : ElementAt mem r.curDocEnd start f.type f.key f.value need)
    (hcount : storedSize mem f.value f.type = .ok count) (hdata : f.Is (ascii "data") elementDoc) :
    (∀ payload, firstDocument mem f.value = .ok payload →
      ∃ r₁, s.element mem f.type (r.atElement start f.type f.key f.value)
          = .ok ({ s with resultPayload := payload.or s.resultPayload }, r₁) ∧
        Behind mem r (f.value + count) r₁) ∧
    ∀ e, firstDocument mem f.value = .error e →
      s.element mem f.type (r.atElement start f.type f.key f.value) = .error e := by
  have hcont : f.type.isContainer = true := by rw [hdata.2]; rfl
  have hneed : i32At mem f.value = .ok need := h.i32At_of_container hcont
  obtain rfl : need = count :=
    Except.ok.inj ((h.storedSize_of_container hcont).symm.trans hcount)
  obtain ⟨hbegin, hsub⟩ := hr.beginSub h hcont (by rw [hlayers]; decide)
  have hfirst := firstDocument_eq hneed (r := (r.atElement start f.type f.key f.value).inSub need)
    rfl rfl rfl
  have hkey : ¬ ((r.atElement start f.type f.key f.value).key = ascii "user-data"
      ∧ f.type = elementI32) := hdata.not_is (by decide)
  have hkey' : ¬ ((r.atElement start f.type f.key f.value).key = ascii "service"
      ∧ f.type = elementStr) := hdata.not_is (by decide)
  have hthis : (r.atElement start f.type f.key f.value).key = ascii "data"
      ∧ f.type = elementDoc := hdata
  rw [Response.element, if_neg hkey, if_neg hkey', if_pos hthis, hbegin, ok_bind]
  dsimp only
  rw [hfirst]
  cases hnext : ((r.atElement start f.type f.key f.value).inSub need).next mem with
  | error e =>
      refine ⟨fun payload hpayload => by simp [Except.map] at hpayload, fun e' he' => ?_⟩
      obtain rfl : e = e' := Except.error.inj he'
      rfl
  | ok p =>
      obtain ⟨t, r₁⟩ := p
      have hin := hsub.inside.next hnext
      have hframe : r₁.curType = t ∧ r₁.curDocEnd = f.value + need ∧
          r₁.docLayers = [⟨r.curDocBegin, r.curDocEnd, nextArrIndex r.arrIndex⟩] := by
        obtain ⟨start', -, hread⟩ := hsub.inside.next_start hsub.running hnext
        obtain ⟨htype, hdoc, hdl, -⟩ := hread.frame
        refine ⟨htype, hdoc, hdl.trans ?_⟩
        rw [inSub, atElement, hlayers]
      obtain ⟨htype, hdoc, hdl⟩ := hframe
      obtain ⟨-, hout, hend, hbefore⟩ := Before.endSub hin hdl
      rw [hdoc] at hbefore
      have hbehind : Behind mem r (f.value + need) r₁.endSub.2 :=
        ⟨hbefore, hend, hout.trans hlayers.symm⟩
      refine ⟨fun payload hpayload => ⟨r₁.endSub.2, ?_, hbehind⟩, fun e he => ?_⟩
      · obtain rfl := Except.ok.inj hpayload
        by_cases ht : t = elementDoc
        · have hct : r₁.curType.isContainer = true := by rw [htype, ht]; rfl
          obtain ⟨-, -, size, hsize, -⟩ := hin.current (pos_of_container hct)
          rw [htype, ht] at hsize
          have hspan : r₁.subdocument mem = .ok (some ⟨r₁.bufOffset, toSizeT size⟩) := by
            have hread : i32At mem r₁.bufOffset = .ok size := hsize
            rw [subdocument, if_pos hct, hread]
            rfl
          simp only [ok_bind, if_pos ht, hspan]
          rfl
        · simp only [ok_bind, if_neg ht]
          rfl
      · simp [Except.map] at he

/-- **The other fields.** -/
theorem element_value (hend : r.curDocEnd ≤ mem.length)
    (h : ElementAt mem r.curDocEnd start f.type f.key f.value need)
    (hdata : ¬ f.Is (ascii "data") elementDoc) :
    s.element mem f.type (r.atElement start f.type f.key f.value)
      = .ok (s.apply mem f, r.atElement start f.type f.key f.value) := by
  have hdata' : ¬ ((r.atElement start f.type f.key f.value).key = ascii "data"
      ∧ f.type = elementDoc) := hdata
  have hno : f.data mem = none := if_neg hdata
  rw [Response.element]
  split_ifs with huser hservice hresult hmessage
  · have his : f.Is (ascii "user-data") elementI32 := huser
    obtain ⟨v, hv⟩ := h.exists_i32At hend (Or.inl his.2)
    have hread : (r.atElement start f.type f.key f.value).int32Value mem = .ok v := hv
    rw [hread, Response.apply, Field.userData, if_pos his, hv, Field.result,
      if_neg (his.not_is (by decide)), hno, Field.errorMessage, if_neg (his.not_is (by decide))]
    rfl
  · have his : f.Is (ascii "service") elementStr := hservice
    rw [Response.apply, Field.userData, if_neg (his.not_is (by decide)), Field.result,
      if_neg (his.not_is (by decide)), hno, Field.errorMessage, if_neg (his.not_is (by decide))]
    rfl
  · have his : f.Is (ascii "result") elementI32 := hresult
    obtain ⟨v, hv⟩ := h.exists_i32At hend (Or.inl his.2)
    have hread : (r.atElement start f.type f.key f.value).int32Value mem = .ok v := hv
    rw [hread, Response.apply, Field.userData, if_neg (his.not_is (by decide)), Field.result,
      if_pos his, hv, hno, Field.errorMessage, if_neg (his.not_is (by decide))]
    rfl
  · have his : f.Is (ascii "error_message") elementStr := hmessage
    obtain ⟨v, hv⟩ := h.exists_i32At hend (Or.inr his.2)
    have hread : (r.atElement start f.type f.key f.value).stringValue mem
        = .ok ⟨f.value + 4, toSizeT (wrap32 (v - 1))⟩ := by
      have hsize : i32At mem (r.atElement start f.type f.key f.value).bufOffset = .ok v := hv
      rw [stringValue, hsize]
      rfl
    rw [hread, Response.apply, Field.userData, if_neg (his.not_is (by decide)), Field.result,
      if_neg (his.not_is (by decide)), hno, Field.errorMessage, if_pos his, hv]
    rfl
  · have huser' : ¬ f.Is (ascii "user-data") elementI32 := huser
    have hresult' : ¬ f.Is (ascii "result") elementI32 := hresult
    have hmessage' : ¬ f.Is (ascii "error_message") elementStr := hmessage
    rw [Response.apply, Field.userData, if_neg huser', Field.result, if_neg hresult', hno,
      Field.errorMessage, if_neg hmessage']
    rfl

/-- **One field**: the loop takes over its value, and the reader is behind it, unless it is a field
`data` that cannot be read. -/
theorem element_field (hr : Before mem r start) (hlayers : r.docLayers = [])
    (h : ElementAt mem r.curDocEnd start f.type f.key f.value need)
    (hcount : storedSize mem f.value f.type = .ok count) :
    (f.Readable mem → ∃ r₁, s.element mem f.type (r.atElement start f.type f.key f.value)
        = .ok (s.apply mem f, r₁) ∧ Behind mem r (f.value + count) r₁) ∧
    (¬ f.Readable mem → ∃ e, e ≠ .outOfFuel ∧
      s.element mem f.type (r.atElement start f.type f.key f.value) = .error e) := by
  by_cases hdata : f.Is (ascii "data") elementDoc
  · obtain ⟨hok, herror⟩ := element_data (s := s) hr hlayers h hcount hdata
    refine ⟨fun hread => ?_, fun hread => ?_⟩
    · obtain ⟨payload, hpayload⟩ := hread hdata
      obtain ⟨r₁, helement, hbehind⟩ := hok payload hpayload
      refine ⟨r₁, helement.trans ?_, hbehind⟩
      have hsame : s.apply mem f = { s with resultPayload := payload.or s.resultPayload } := by
        rw [Response.apply, Field.userData, if_neg (hdata.not_is (by decide)), Field.result,
          if_neg (hdata.not_is (by decide)), Field.data, if_pos hdata, hpayload, Field.errorMessage,
          if_neg (hdata.not_is (by decide))]
        rfl
      rw [hsame]
    · cases hfirst : firstDocument mem f.value with
      | ok payload => exact absurd (fun _ => ⟨payload, hfirst⟩) hread
      | error e => exact ⟨e, fun he => firstDocument_ne_outOfFuel _ _ (he ▸ hfirst), herror e hfirst⟩
  refine ⟨fun _ => ⟨r.atElement start f.type f.key f.value, ?_, behind_atElement hr h hcount⟩,
    fun hread => absurd (fun his => absurd his hdata) hread⟩
  exact element_value hr.inside.docEnd_le h hdata

/-! ### The loop -/

/-- The fields of a document are determined by its bytes. -/
theorem FieldsFrom.unique {fs' : List Field} (h : FieldsFrom mem docEnd start fs)
    (h' : FieldsFrom mem docEnd start fs') : fs = fs' := by
  induction h generalizing fs' with
  | docEnd hbyte =>
      cases h' with
      | docEnd hbyte' => rfl
      | field h hcount rest => exact absurd hbyte h.byteAt_ne_zero
  | @field start need count f fs h hcount rest ih =>
      cases h' with
      | docEnd hbyte' => exact absurd hbyte' h.byteAt_ne_zero
      | @field _ need' count' f' fs' h' hcount' rest' =>
          obtain ⟨htype, hkey, hvalue, -⟩ := h.unique h'
          obtain rfl : f = f' := by
            cases f
            cases f'
            simp_all
          obtain rfl := Except.ok.inj (hcount.symm.trans hcount')
          rw [ih rest']

/-- A document has fewer fields than bytes. -/
theorem FieldsFrom.length_le (h : FieldsFrom mem docEnd start fs) :
    start + fs.length ≤ max start docEnd := by
  induction h with
  | docEnd hbyte => simp
  | @field start need count f fs h hcount rest ih =>
      have hv := h.start_lt_value
      have hfits := h.fits
      obtain ⟨h0, hle⟩ := h.storedSize_range hcount
      rw [List.length_cons]
      push_cast
      omega

theorem atEnd_atElement (h : ElementAt mem docEnd start f.type f.key f.value need) :
    (r.atElement start f.type f.key f.value).atEnd = false := by
  have hpos := h.pos
  have hne : f.type.value ≠ 0 := by omega
  have hge : ¬ f.type.value < 0 := by omega
  simp [atEnd, error, atElement, hne, hge]

/-- **The loop takes over the fields** in front of the end of the packet. -/
theorem responseLoop_complete {n : ℕ} (hr : Before mem r start) (hlayers : r.docLayers = [])
    (hfields : FieldsFrom mem r.curDocEnd start fs) (hread : ∀ f ∈ fs, f.Readable mem)
    (hn : fs.length < n) :
    responseLoop mem n s r = .ok (elementEnd, fs.foldl (Response.apply mem) s) := by
  induction n generalizing r s start fs with
  | zero => omega
  | succ n ih =>
      cases hfields with
      | docEnd hbyte =>
          have hend : (r.atDocEnd start).atEnd = true := rfl
          rw [responseLoop, hr.next_end hbyte, ok_bind]
          simp only [if_pos hend]
          rfl
      | @field _ need count f fs h hcount rest =>
          have hne : ¬ (r.atElement start f.type f.key f.value).atEnd = true := by
            rw [atEnd_atElement h]
            exact Bool.false_ne_true
          obtain ⟨r₁, helement, hbehind⟩ :=
            (element_field (s := s) hr hlayers h hcount).1 (hread f List.mem_cons_self)
          rw [responseLoop, hr.next_element h, ok_bind]
          simp only [if_neg hne, helement, ok_bind, List.foldl_cons]
          refine ih hbehind.before (hbehind.docLayers.trans hlayers) ?_
            (fun g hg => hread g (List.mem_cons_of_mem f hg)) (by simpa using hn)
          rw [hbehind.docEnd]
          exact rest

/-- What a turn of the loop can come to: the end of the packet, an error, a read out of bounds, or a
field and the rest of the loop. -/
inductive LoopTurn (mem : List UInt8) (n : ℕ) (s : Response) (r : BsonReader) (start : ℤ) :
    Read (ElementType × Response) → Prop
  | docEnd (hbyte : byteAt mem start = .ok 0) : LoopTurn mem n s r start (.ok (elementEnd, s))
  | formatError : LoopTurn mem n s r start (.ok (elementFormatError, s))
  | stop {e : Stop} (he : e ≠ .outOfFuel) : LoopTurn mem n s r start (.error e)
  | field {f : Field} {need count : ℤ} {r₁ : BsonReader}
      (h : ElementAt mem r.curDocEnd start f.type f.key f.value need)
      (hcount : storedSize mem f.value f.type = .ok count) (hread : f.Readable mem)
      (hbehind : Behind mem r (f.value + count) r₁) :
      LoopTurn mem n s r start (responseLoop mem n (s.apply mem f) r₁)

/-- **One turn of the loop.** -/
theorem loopTurn (n : ℕ) (s : Response) (hr : Before mem r start) (hlayers : r.docLayers = []) :
    LoopTurn mem n s r start (responseLoop mem (n + 1) s r) := by
  rw [responseLoop]
  cases hnext : r.next mem with
  | error e => exact LoopTurn.stop fun he => next_ne_outOfFuel _ _ (he ▸ hnext)
  | ok p =>
      obtain ⟨t, r₁⟩ := p
      rw [ok_bind]
      obtain ⟨start', hskip, hread⟩ := hr.inside.next_start hr.running hnext
      obtain rfl := Except.ok.inj (hr.skip.symm.trans hskip)
      cases hread with
      | docEnd hbyte =>
          have hend : (r.atDocEnd start).atEnd = true := rfl
          simp only [if_pos hend]
          exact LoopTurn.docEnd hbyte
      | formatError htype =>
          have hend : r₁.atEnd = true := by simp [atEnd, BsonReader.error, htype, ElementType.value]
          simp only [if_pos hend]
          exact LoopTurn.formatError
      | @element _ key value need helem =>
          obtain ⟨count, hcount, -, -⟩ := helem.exists_storedSize
          obtain ⟨f, rfl, rfl, rfl⟩ : ∃ f : Field, f.type = t ∧ f.key = key ∧ f.value = value :=
            ⟨⟨t, key, value⟩, rfl, rfl, rfl⟩
          have hne : ¬ (r.atElement start f.type f.key f.value).atEnd = true := by
            rw [atEnd_atElement helem]
            exact Bool.false_ne_true
          simp only [if_neg hne]
          obtain ⟨hok, herror⟩ := element_field (s := s) hr hlayers helem hcount
          by_cases hreadable : f.Readable mem
          · obtain ⟨r₁, helement, hbehind⟩ := hok hreadable
            rw [helement]
            exact LoopTurn.field helem hcount hreadable hbehind
          · obtain ⟨e, he, hstop⟩ := herror hreadable
            rw [hstop]
            exact LoopTurn.stop he

/-- **A loop that ends at the end of the packet** has taken over the fields in front of it. -/
theorem responseLoop_sound {n : ℕ} {e : ElementType} {s' : Response} (hr : Before mem r start)
    (hlayers : r.docLayers = []) (h : responseLoop mem n s r = .ok (e, s'))
    (he : e.isError = false) :
    ∃ fs, FieldsFrom mem r.curDocEnd start fs ∧ (∀ f ∈ fs, f.Readable mem) ∧
      s' = fs.foldl (Response.apply mem) s := by
  induction n generalizing r s start with
  | zero => exact absurd h (by simp [responseLoop])
  | succ n ih =>
      have hturn := loopTurn n s hr hlayers
      rw [h] at hturn
      generalize hx : Except.ok (e, s') = x at hturn
      cases hturn with
      | docEnd hbyte =>
          obtain ⟨-, rfl⟩ := Prod.mk.inj (Except.ok.inj hx)
          exact ⟨[], FieldsFrom.docEnd hbyte, by simp, rfl⟩
      | formatError =>
          obtain ⟨rfl, -⟩ := Prod.mk.inj (Except.ok.inj hx)
          exact Bool.noConfusion he
      | stop => simp at hx
      | @field f need count r₁ helem hcount hread hbehind =>
          obtain ⟨fs, hfields, hall, rfl⟩ :=
            ih hbehind.before (hbehind.docLayers.trans hlayers) hx.symm
          rw [hbehind.docEnd] at hfields
          exact ⟨f :: fs, FieldsFrom.field helem hcount hfields,
            List.forall_mem_cons.mpr ⟨hread, hall⟩, rfl⟩

/-- **The loop ends**: elements start ever later in the packet. -/
theorem responseLoop_ne_outOfFuel {n : ℕ} (hr : Before mem r start) (hlayers : r.docLayers = [])
    (hn : max start r.curDocEnd - start < n) : responseLoop mem n s r ≠ .error .outOfFuel := by
  induction n generalizing r s start with
  | zero => omega
  | succ n ih =>
      intro h
      have hturn := loopTurn n s hr hlayers
      rw [h] at hturn
      generalize hx : Except.error Stop.outOfFuel = x at hturn
      cases hturn with
      | docEnd | formatError => simp at hx
      | stop he => exact he (Except.error.inj hx).symm
      | @field f need count r₁ helem hcount hread hbehind =>
          refine ih hbehind.before (hbehind.docLayers.trans hlayers) ?_ hx.symm
          obtain ⟨h0, hle⟩ := helem.storedSize_range hcount
          have hv := helem.start_lt_value
          have hfits := helem.fits
          rw [hbehind.docEnd]
          push_cast at hn
          omega

/-! ### The packet -/

variable {size : ℕ}

/-- A reader that was rejected reports the error at once. -/
theorem next_rejected (mem : List UInt8) (size : ℕ) :
    (rejected size).next mem = .ok (elementFormatError, rejected size) := rfl

theorem docLayers_accepted (size : ℕ) (docSize : ℤ) : (accepted size docSize).docLayers = [] := rfl

/-- The reader in front of the first element of a packet. -/
theorem before_accepted {docSize : ℤ} (hsize : size ≤ mem.length)
    (hdoc : i32At mem 0 = .ok docSize) (h0 : 0 ≤ docSize) (hle : docSize ≤ size) :
    Before mem (accepted size docSize) 4 :=
  (inside_accepted h0 (i32At_range hdoc).2 (by omega)).before rfl

/-- **What is made of a response.** -/
theorem parseResponse_complete (hsize : size ≤ mem.length) (h : IsResponse mem size fs) :
    parseResponse mem size = .ok
      (if (Response.ofFields mem fs).cmdId ≠ -1 then some (Response.ofFields mem fs) else none) := by
  obtain ⟨h5, docSize, value, hdoc, h0, hle, hfields, htype, hread⟩ := h
  have hbefore := before_accepted hsize hdoc h0 hle
  have hmade : ofBufferSize (some mem) size = .ok (accepted size docSize) := by
    have hrange := toSizeT_of_nonneg h0 (i32At_range hdoc).2
    rw [ofBufferSize, if_neg (by omega), hdoc, ok_bind, if_neg (by omega)]
    rfl
  cases hfields with
  | @field _ need count _ _ helem hcount rest =>
      obtain rfl : (4 : ℤ) = count := Except.ok.inj hcount
      have hfuel : fs.length < docSize.toNat + 2 := by
        have hlength := rest.length_le
        have hvalue := helem.start_lt_value
        dsimp only at hlength hvalue
        omega
      have hloop := responseLoop_complete (hbefore.atElement helem hcount)
        (docLayers_accepted size docSize) rest hread hfuel (s := {})
      have hread : ((accepted size docSize).atElement 4 elementI32 (ascii "00type") value).int32Value
          mem = .ok 1 := htype
      rw [parseResponse, hmade, ok_bind, hbefore.next_element helem, ok_bind]
      simp only [ne_eq, not_true_eq_false, false_or]
      rw [if_neg (by simp [atElement]), hread, ok_bind, if_neg (by decide)]
      have hend : ((accepted size docSize).atElement 4 elementI32 (ascii "00type") value).curDocEnd
          = docSize := rfl
      have hok : elementEnd.isError = false := rfl
      rw [hend, hloop, ok_bind, Response.foldl_apply_default, hok]
      simp

/-- The first element of a packet that may be a response. -/
theorem first_element {docSize : ℤ} {first : ElementType} {r₁ : BsonReader}
    (hbefore : Before mem (accepted size docSize) 4)
    (hnext : (accepted size docSize).next mem = .ok (first, r₁))
    (hfirst : ¬ (first ≠ elementI32 ∨ r₁.key ≠ ascii "00type")) :
    ∃ value need, first = elementI32 ∧
      r₁ = (accepted size docSize).atElement 4 elementI32 (ascii "00type") value ∧
      ElementAt mem docSize 4 elementI32 (ascii "00type") value need := by
  obtain ⟨start', hskip, hread⟩ := hbefore.inside.next_start hbefore.running hnext
  obtain rfl := Except.ok.inj (hbefore.skip.symm.trans hskip)
  cases hread with
  | docEnd hbyte => simp at hfirst
  | formatError => simp at hfirst
  | @element _ key value need helem =>
      obtain ⟨rfl, rfl⟩ : first = elementI32 ∧ key = ascii "00type" := by
        simpa [atElement] using hfirst
      exact ⟨value, need, rfl, rfl, helem⟩

/-- **A packet whose callback is searched is a response.** -/
theorem parseResponse_sound (hsize : size ≤ mem.length)
    (h : parseResponse mem size = .ok (some s)) : ∃ fs, IsResponse mem size fs := by
  obtain ⟨r, hmade, h⟩ := bind_eq_ok.mp h
  rcases ofBufferSize_cases hmade with rfl | ⟨docSize, hdoc, h0, hle, h5, rfl⟩
  · rw [next_rejected, ok_bind] at h
    simp at h
  have hbefore := before_accepted hsize hdoc h0 hle
  obtain ⟨⟨first, r₁⟩, hnext, h⟩ := bind_eq_ok.mp h
  dsimp only at h
  split at h
  · simp at h
  rename_i hfirst
  obtain ⟨type, htype, h⟩ := bind_eq_ok.mp h
  split at h
  · simp at h
  rename_i hone
  obtain ⟨⟨e, s'⟩, hloop, hfound⟩ := bind_eq_ok.mp h
  obtain ⟨value, need, rfl, rfl, helem⟩ := first_element hbefore hnext hfirst
  obtain rfl : type = 1 := by simpa using hone
  have hcount : storedSize mem value elementI32 = .ok 4 := rfl
  have herror : e.isError = false := by
    by_contra hcon
    simp [hcon] at hfound
  obtain ⟨fs, hfields, hall, -⟩ := responseLoop_sound (hbefore.atElement helem hcount)
    (docLayers_accepted size docSize) hloop herror
  exact ⟨fs, h5, docSize, value, hdoc, h0, hle,
    FieldsFrom.field (f := ⟨elementI32, ascii "00type", value⟩) helem hcount hfields, htype, hall⟩

/-- **The packets whose callback is searched**, and what is made of them. -/
theorem parseResponse_eq_some_iff (hsize : size ≤ mem.length) :
    parseResponse mem size = .ok (some s) ↔
      ∃ fs, IsResponse mem size fs ∧ s = Response.ofFields mem fs ∧ s.cmdId ≠ -1 := by
  constructor
  · intro h
    obtain ⟨fs, hfs⟩ := parseResponse_sound hsize h
    rw [parseResponse_complete hsize hfs] at h
    split at h
    · rename_i hid
      obtain rfl := Option.some.inj (Except.ok.inj h)
      exact ⟨fs, hfs, rfl, hid⟩
    · simp at h
  · rintro ⟨fs, hfs, rfl, hid⟩
    rw [parseResponse_complete hsize hfs, if_pos hid]

/-- The fields of a response are determined by the packet. -/
theorem IsResponse.unique {fs' : List Field} (h : IsResponse mem size fs)
    (h' : IsResponse mem size fs') : fs = fs' := by
  obtain ⟨-, docSize, value, hdoc, -, -, hfields, -⟩ := h
  obtain ⟨-, docSize', value', hdoc', -, -, hfields', -⟩ := h'
  obtain rfl := Except.ok.inj (hdoc.symm.trans hdoc')
  exact (List.cons.inj (hfields.unique hfields')).2

/-- **The parsing of a packet ends.** -/
theorem parseResponse_ne_outOfFuel (hsize : size ≤ mem.length) :
    parseResponse mem size ≠ .error .outOfFuel := by
  intro h
  rcases bind_eq_error.mp h with h | ⟨r, hmade, h⟩
  · exact ofBufferSize_ne_outOfFuel _ _ h
  rcases ofBufferSize_cases hmade with rfl | ⟨docSize, hdoc, h0, hle, h5, rfl⟩
  · rw [next_rejected, ok_bind] at h
    simp at h
  have hbefore := before_accepted hsize hdoc h0 hle
  rcases bind_eq_error.mp h with h | ⟨⟨first, r₁⟩, hnext, h⟩
  · exact next_ne_outOfFuel _ _ h
  dsimp only at h
  split at h
  · simp at h
  rename_i hfirst
  rcases bind_eq_error.mp h with h | ⟨type, htype, h⟩
  · exact i32At_ne_outOfFuel _ _ h
  split at h
  · simp at h
  obtain ⟨value, need, rfl, rfl, helem⟩ := first_element hbefore hnext hfirst
  have hcount : storedSize mem value elementI32 = .ok 4 := rfl
  have hv := helem.start_lt_value
  rcases bind_eq_error.mp h with h | ⟨p, -, h⟩
  · refine responseLoop_ne_outOfFuel (hbefore.atElement helem hcount)
      (docLayers_accepted size docSize) ?_ h
    have hend : ((accepted size docSize).atElement 4 elementI32 (ascii "00type") value).curDocEnd
        = docSize := rfl
    rw [hend]
    push_cast
    omega
  · simp at h

end

end ScApi
