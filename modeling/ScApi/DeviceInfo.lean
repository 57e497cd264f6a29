import ScApi.BsonReader
import ScApi.DeviceDefinitions

/-!
# Parsing device descriptions

`DeviceInfo::Data::parse` reads the description of a device from a BSON document. It searches for the
session id and for the unique id of the device, and then goes through the elements behind the unique id,
where the searches have left the reader. Sections of controls, inputs, feedbacks and HID inputs are
documents of documents; a description of a HID input has arrays in it.

String views are kept as the bytes they view, and the pointer to the parameters of a feedback as the
bytes of the document it points to.
-/

open Bytes BoundedRead

namespace ScApi.DeviceInfo

open ElementType BsonReader

/-! ### The parsed data -/

/-- A `VariableRef`. -/
structure VariableRef where
  deviceSessionId : UInt16 := 0
  id : List UInt8 := []
  deriving DecidableEq, Repr

/-- A `Control`. -/
structure Control where
  id : List UInt8 := []
  parentId : List UInt8 := []
  name : List UInt8 := []
  type : ControlType := .unknown
  deriving DecidableEq, Repr

/-- An `Input`, without its range, which nothing sets. -/
structure Input where
  id : List UInt8 := []
  control : List UInt8 := []
  type : InputType := .unknown
  role : InputRole := .unknown
  «variable» : VariableRef := {}
  deriving DecidableEq, Repr

/-- An `InputMapping`. -/
structure InputMapping where
  deviceId : UInt16 := 0
  inputId : List UInt8 := []
  deriving DecidableEq, Repr

/-- A `HidAxisInput`. Its role has no initializer, and is `none` until it is set. -/
structure HidAxisInput where
  role : Option InputRole := none
  rangeLow : ℤ := 0
  rangeHigh : ℤ := 0
  mappings : List InputMapping := []
  deriving DecidableEq, Repr

/-- A `HidButtonInput`. -/
structure HidButtonInput where
  role : InputRole := .unknown
  mappings : List InputMapping := []
  deriving DecidableEq, Repr

/-- A `UsbDeviceInfo`. -/
structure UsbDeviceInfo where
  hidDevicePath : List UInt8 := []
  pid : UInt16 := 0
  vid : UInt16 := 0
  deriving DecidableEq, Repr

/-- A `Feedback`; the null pointer is `none`. -/
structure Feedback where
  id : List UInt8 := []
  control : List UInt8 := []
  type : FeedbackType := .unknown
  parameters : Option (List UInt8) := none
  deriving DecidableEq, Repr

/-- A `DeviceInfo::Data` as `DeviceInfo::Data{}`. The role has no initializer, so that it is the
enumerator with number zero. -/
structure Data where
  uid : List UInt8 := []
  sessionId : UInt16 := 0
  role : DeviceRole := .wheel
  isConnected : Bool := false
  controls : List Control := []
  inputs : List Input := []
  feedbacks : List Feedback := []
  hidAxis : List HidAxisInput := []
  hidButtons : List HidButtonInput := []
  usbInfo : Option UsbDeviceInfo := none
  bson : List UInt8 := []
  deriving DecidableEq, Repr

/-! ### Values -/

/-- The bytes of the string that the reader is on. -/
def textHere (mem : List UInt8) (r : BsonReader) : Read (List UInt8) := do
  let view ← r.stringValue mem
  bytesAt mem view.offset view.length

/-- The bytes of the document that the reader is on; the null pointer is `none`. -/
def documentHere (mem : List UInt8) (r : BsonReader) : Read (Option (List UInt8)) := do
  match ← r.subdocument mem with
  | some span => do
      let bytes ← bytesAt mem span.offset span.length
      pure (some bytes)
  | none => pure none

/-- The conversion of an `int32_t` to `uint16_t`. -/
def toUInt16 (n : ℤ) : UInt16 :=
  UInt16.ofNat (n % 65536).toNat

/-- A decimal digit. -/
def isDigit (c : UInt8) : Bool :=
  48 ≤ c ∧ c ≤ 57

/-- `std::from_chars` for `uint16_t`: the number that the digits in front are. There are none, or their
number is too large, when it is `none`. -/
def fromChars (s : List UInt8) : Option UInt16 :=
  let digits := s.takeWhile isDigit
  let n := digits.foldl (fun n c => n * 10 + (c.toNat - 48)) 0
  if digits = [] ∨ 65536 ≤ n then none else some (UInt16.ofNat n)

/-- The branches of `parseInputs` for a `variable`: a name, or the number of a device and a name with a
colon between them. -/
def variableOf (thisDeviceId : UInt16) (var : List UInt8) : VariableRef :=
  if 58 ∉ var then
    ⟨thisDeviceId, var⟩
  else
    match fromChars (var.takeWhile (· ≠ 58)) with
    | some id => ⟨id, (var.dropWhile (· ≠ 58)).tail⟩
    | none => ⟨thisDeviceId, var⟩

/-! ### Loops -/

section Loops

variable {σ α : Type}

/-- A loop of `next` that the end of the document and errors end, for at most some turns. -/
def elementLoop (mem : List UInt8)
    (body : ElementType → σ → BsonReader → Read (σ × BsonReader)) :
    ℕ → σ → BsonReader → Read (σ × BsonReader)
  | 0, _, _ => throw .outOfFuel
  | n + 1, s, r => do
      let (e, r) ← r.next mem
      if e.isEndOrError then
        pure (s, r)
      else do
        let (s, r) ← body e s r
        elementLoop mem body n s r

/-- The loop over the elements of the current document. Errors end it too, so it takes as many turns
as `scan`. -/
def forEachElement (mem : List UInt8)
    (body : ElementType → σ → BsonReader → Read (σ × BsonReader)) (s : σ) (r : BsonReader) :
    Read (σ × BsonReader) :=
  elementLoop mem body (r.curDocEnd.toNat + 2) s r

/-- A sub document with its `beginSub` and `endSub`. -/
def inSubdocument (mem : List UInt8) (inner : BsonReader → Read (α × BsonReader))
    (r : BsonReader) : Read (α × BsonReader) := do
  let (_, r) ← r.beginSub mem
  let (a, r) ← inner r
  pure (a, r.endSub.2)

/-- The loop of `parseControls` and of its siblings: a value for every document, made from its key and
from its elements. -/
def parseDocuments (mem : List UInt8) (new : List UInt8 → α)
    (element : ElementType → α → BsonReader → Read (α × BsonReader)) (r : BsonReader) :
    Read (List α × BsonReader) :=
  forEachElement mem (fun e found r =>
    if e ≠ elementDoc then
      pure (found, r)
    else do
      let (c, r) ← inSubdocument mem (forEachElement mem element (new r.key)) r
      pure (found ++ [c], r)) [] r

end Loops

/-! ### Sections -/

section Sections

variable (mem : List UInt8)

/-- What `parseControls` does with an element of a control. -/
def controlElement (e : ElementType) (c : Control) (r : BsonReader) : Read (Control × BsonReader) :=
  if e = elementStr then
    if r.key = ascii "name" then do
      let name ← textHere mem r
      pure ({ c with name }, r)
    else if r.key = ascii "role" then do
      let s ← textHere mem r
      pure ({ c with type := controlTypeFromString s }, r)
    else if r.key = ascii "parent" then do
      let parentId ← textHere mem r
      pure ({ c with parentId }, r)
    else
      pure (c, r)
  else
    pure (c, r)

/-- `parseControls`. -/
def parseControls : BsonReader → Read (List Control × BsonReader) :=
  parseDocuments mem (fun id => { id }) (controlElement mem)

/-- What `parseInputs` does with an element of an input. -/
def inputElement (thisDeviceId : UInt16) (e : ElementType) (c : Input) (r : BsonReader) :
    Read (Input × BsonReader) :=
  if e = elementStr then
    if r.key = ascii "variable" then do
      let var ← textHere mem r
      pure ({ c with «variable» := variableOf thisDeviceId var }, r)
    else if r.key = ascii "role" then do
      let s ← textHere mem r
      pure ({ c with role := inputRoleFromString s }, r)
    else if r.key = ascii "type" then do
      let s ← textHere mem r
      pure ({ c with type := inputTypeFromString s }, r)
    else if r.key = ascii "control" then do
      let control ← textHere mem r
      pure ({ c with control }, r)
    else
      pure (c, r)
  else
    pure (c, r)

/-- `parseInputs`. -/
def parseInputs (thisDeviceId : UInt16) : BsonReader → Read (List Input × BsonReader) :=
  parseDocuments mem (fun id => { id }) (inputElement mem thisDeviceId)

/-- What `parseFeedbacks` does with an element of a feedback. -/
def feedbackElement (e : ElementType) (c : Feedback) (r : BsonReader) :
    Read (Feedback × BsonReader) :=
  if e = elementStr then
    if r.key = ascii "control" then do
      let control ← textHere mem r
      pure ({ c with control }, r)
    else if r.key = ascii "type" then do
      let s ← textHere mem r
      pure ({ c with type := feedbackTypeFromString s }, r)
    else
      pure (c, r)
  else if e = elementDoc then do
    let parameters ← documentHere mem r
    pure ({ c with parameters }, r)
  else
    pure (c, r)

/-- `parseFeedbacks`. -/
def parseFeedbacks : BsonReader → Read (List Feedback × BsonReader) :=
  parseDocuments mem (fun id => { id }) (feedbackElement mem)

/-- What `parseMappings` does with an element of a mapping. -/
def mappingElement (e : ElementType) (m : InputMapping) (r : BsonReader) :
    Read (InputMapping × BsonReader) :=
  if e = elementStr ∧ r.key = ascii "input" then do
    let inputId ← textHere mem r
    pure ({ m with inputId }, r)
  else if e = elementI32 then do
    let n ← r.int32Value mem
    pure ({ m with deviceId := toUInt16 n }, r)
  else
    pure (m, r)

/-- `parseMappings`. -/
def parseMappings : BsonReader → Read (List InputMapping × BsonReader) :=
  parseDocuments mem (fun _ => {}) (mappingElement mem)

/-- The two numbers of a `range`, if both are there. -/
def parseRange (r : BsonReader) : Read (Option (ℤ × ℤ) × BsonReader) := do
  let (e, r) ← r.next mem
  if e = elementI32 then do
    let low ← r.int32Value mem
    let (e, r) ← r.next mem
    if e = elementI32 then do
      let high ← r.int32Value mem
      pure (some (low, high), r)
    else
      pure (none, r)
  else
    pure (none, r)

/-- What `parseHidAxisInputs` does with an element of an axis. -/
def axisElement (e : ElementType) (c : HidAxisInput) (r : BsonReader) :
    Read (HidAxisInput × BsonReader) :=
  if e = elementStr ∧ r.key = ascii "role" then do
    let s ← textHere mem r
    pure ({ c with role := some (inputRoleFromString s) }, r)
  else if e = elementArray ∧ r.key = ascii "mappings" then do
    let (mappings, r) ← inSubdocument mem (parseMappings mem) r
    pure ({ c with mappings }, r)
  else if e = elementArray ∧ r.key = ascii "range" then do
    let (range, r) ← inSubdocument mem (parseRange mem) r
    match range with
    | some (rangeLow, rangeHigh) => pure ({ c with rangeLow, rangeHigh }, r)
    | none => pure (c, r)
  else
    pure (c, r)

/-- `parseHidAxisInputs`. -/
def parseHidAxisInputs : BsonReader → Read (List HidAxisInput × BsonReader) :=
  parseDocuments mem (fun _ => {}) (axisElement mem)

/-- What `parseHidButtonInputs` does with an element of a button. -/
def buttonElement (e : ElementType) (c : HidButtonInput) (r : BsonReader) :
    Read (HidButtonInput × BsonReader) :=
  if e = elementStr ∧ r.key = ascii "role" then do
    let s ← textHere mem r
    pure ({ c with role := inputRoleFromString s }, r)
  else if e = elementArray ∧ r.key = ascii "mappings" then do
    let (mappings, r) ← inSubdocument mem (parseMappings mem) r
    pure ({ c with mappings }, r)
  else
    pure (c, r)

/-- `parseHidButtonInputs`. -/
def parseHidButtonInputs : BsonReader → Read (List HidButtonInput × BsonReader) :=
  parseDocuments mem (fun _ => {}) (buttonElement mem)

/-- What `parseHidInputs` does with an element. -/
def hidInputElement (e : ElementType) (hidInputs : List HidAxisInput × List HidButtonInput)
    (r : BsonReader) : Read ((List HidAxisInput × List HidButtonInput) × BsonReader) :=
  if e = elementArray then
    if r.key = ascii "axis" then do
      let (axis, r) ← inSubdocument mem (parseHidAxisInputs mem) r
      pure ((axis, hidInputs.2), r)
    else if r.key = ascii "buttons" then do
      let (buttons, r) ← inSubdocument mem (parseHidButtonInputs mem) r
      pure ((hidInputs.1, buttons), r)
    else
      pure (hidInputs, r)
  else
    pure (hidInputs, r)

/-- `parseHidInputs`. -/
def parseHidInputs :
    BsonReader → Read ((List HidAxisInput × List HidButtonInput) × BsonReader) :=
  forEachElement mem (hidInputElement mem) ([], [])

/-! ### The description -/

/-- The branches of `Data::parse` for a document. The reader has entered it, and has its key. -/
def sectionElement (d : Data) (r : BsonReader) : Read (Data × BsonReader) :=
  if r.key = ascii "control" then do
    let (controls, r) ← parseControls mem r
    pure ({ d with controls }, r)
  else if r.key = ascii "input" then do
    let (inputs, r) ← parseInputs mem d.sessionId r
    pure ({ d with inputs }, r)
  else if r.key = ascii "feedback" then do
    let (feedbacks, r) ← parseFeedbacks mem r
    pure ({ d with feedbacks }, r)
  else if r.key = ascii "hid_input" then do
    let ((hidAxis, hidButtons), r) ← parseHidInputs mem r
    pure ({ d with hidAxis, hidButtons }, r)
  else
    pure (d, r)

/-- What the loop of `Data::parse` does with an element. -/
def dataElement (e : ElementType) (s : Data × UsbDeviceInfo) (r : BsonReader) :
    Read ((Data × UsbDeviceInfo) × BsonReader) :=
  let (d, usbInfo) := s
  if e = elementDoc then do
    let (d, r) ← inSubdocument mem (sectionElement mem d) r
    pure ((d, usbInfo), r)
  else if e = elementStr then
    if r.key = ascii "role" then do
      let s ← textHere mem r
      pure (({ d with role := deviceRoleFromString s }, usbInfo), r)
    else if r.key = ascii "usb_path" then do
      let hidDevicePath ← textHere mem r
      pure ((d, { usbInfo with hidDevicePath }), r)
    else
      pure ((d, usbInfo), r)
  else if e = elementI32 then
    if r.key = ascii "usb_pid" then do
      let n ← r.int32Value mem
      pure ((d, { usbInfo with pid := toUInt16 n }), r)
    else if r.key = ascii "usb_vid" then do
      let n ← r.int32Value mem
      pure ((d, { usbInfo with vid := toUInt16 n }), r)
    else
      pure ((d, usbInfo), r)
  else if e = elementBool ∧ r.key = ascii "is_connected" then do
    let isConnected ← r.boolValue mem
    pure (({ d with isConnected }, usbInfo), r)
  else
    pure ((d, usbInfo), r)

/-- `DeviceInfo::Data::parse`. -/
def Data.parse (d : Data) : Read (Bool × Data) := do
  let d := { d with bson := mem }
  let r ← ofBuffer (some mem)
  let (thisDeviceId, r) ← r.tryFindAndGetI32 mem (ascii "logical_id")
  match thisDeviceId with
  | none => pure (false, d)
  | some thisDeviceId => do
      let (uid, r) ← r.tryFindAndGetString mem (ascii "device_uid")
      match uid with
      | none => pure (false, d)
      | some view => do
          let uid ← bytesAt mem view.offset view.length
          let d := { d with sessionId := toUInt16 thisDeviceId, uid }
          let ((d, usbInfo), r) ← forEachElement mem (dataElement mem) (d, {}) r
          let usbInfo := if usbInfo.hidDevicePath ≠ [] then some usbInfo else none
          pure (!r.error, { d with usbInfo })

end Sections

end ScApi.DeviceInfo
