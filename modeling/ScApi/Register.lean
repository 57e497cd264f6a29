import ScApi.RegisterParse
import ScApi.RegisterReply
import ScApi.Session

/-!
# Registration

`registerToControl` stores the secure session it is given, checks its arguments, opens the socket
for high priority packets, connects the main socket, sends the request and reads the reply. It can
return at each of these points, throw where it calls the throwing functions of the socket library,
and access memory outside the receive buffer when the reply is malformed. The request itself is left
out: what becomes of it is up to the backend.

## Main results

* `registerToControl_cases`: what a call does to the session.
* `registerToControl_ok_iff`: when a registration succeeds.
* `untouched_iff`: which failed calls leave the session as it was.
-/

open Bytes BoundedRead

namespace ScApi

/-! ### The call -/

/-- The arguments of `registerToControl` that it looks at. -/
structure RegisterArgs where
  controlFlags : UInt32
  idName : List UInt8
  secureSession : Option SecureSession
  deriving DecidableEq, Repr

/-- What `asio::write` does with the request. -/
inductive Written where
  | whole
  | short
  | failed
  deriving DecidableEq, Repr

/-- What the system and the backend answer to a call of `registerToControl`. -/
structure Backend where
  /-- A closed socket for high priority packets can be opened. -/
  udpOpens : Bool
  /-- `connect` can open a closed main socket. -/
  tcpOpens : Bool
  /-- The main socket connects. -/
  connects : Bool
  written : Written
  /-- The bytes that the backend sends, and how they are cut into reads. -/
  stream : List UInt8
  cut : ℕ → ℕ
  /-- What the receive buffer holds behind the reply. -/
  behind : ℕ → UInt8

/-- How a call of `registerToControl` ends. An access outside the receive buffer has no result. -/
inductive RegisterEnd where
  | returned (code : ResultCode)
  | threw
  | undefinedBehaviour
  deriving DecidableEq, Repr

/-- `k_max_id_name_size`. -/
def kMaxIdNameSize : ℕ := 64

/-- The receive buffer with a reply at its front. -/
def Backend.buffer (b : Backend) (reply : List UInt8) : List UInt8 :=
  reply ++ (List.range (kRxBufferSize - reply.length)).map b.behind

/-- The check of the secure session: one that does not encrypt has no keys, one that does belongs to
this session and has both keys. -/
def SecureSession.Valid (sessionId : UInt32) (p : SecureSession) : Prop :=
  match p.method with
  | .none => p.sharedSecret = [] ∧ p.controllerPublicKey = []
  | .x25519Aes128Gcm =>
      p.sessionId = sessionId ∧ p.sharedSecret ≠ [] ∧ p.controllerPublicKey ≠ []

instance (sessionId : UInt32) (p : SecureSession) : Decidable (p.Valid sessionId) := by
  rw [SecureSession.Valid]
  split <;> infer_instance

/-- The arguments pass the checks. The parameters of a missing secure session are not looked at. -/
def RegisterArgs.Valid (a : RegisterArgs) (sessionId : UInt32) : Prop :=
  a.idName.length ≤ kMaxIdNameSize ∧ a.controlFlags ≠ 0 ∧ ∀ p ∈ a.secureSession, p.Valid sessionId

instance (a : RegisterArgs) (sessionId : UInt32) : Decidable (a.Valid sessionId) := by
  rw [RegisterArgs.Valid]
  infer_instance

namespace Session

/-- `main_socket.close()`. -/
def closeMainSocket (s : Session) : Session :=
  { s with mainSocketOpen := false }

/-- The end of a successful registration. -/
def registered (a : RegisterArgs) (buffer : List UInt8) (ctrlId : ℤ) (flags : UInt32)
    (s : Session) : Session :=
  { s with
    controlFlags := flags
    controlIdName := a.idName
    controllerId := UInt16.ofNat (ctrlId % 65536).toNat
    receiver := ({ s.receiver with receiveBuffer := buffer }).startReceive.1
    state := .connectedControl
    ioStopped := s.ioStopped || s.isRunning }

/-- The part of `registerToControl` behind the connection: the request is written and the reply is
read. -/
def exchange (a : RegisterArgs) (b : Backend) (s : Session) : RegisterEnd × Session :=
  match b.written with
  | .failed => (.threw, s)
  | .short => (.returned .errorCannotConnect, s.closeMainSocket)
  | .whole =>
      match readReply b.cut b.stream with
      | .errorCannotConnect => (.returned .errorCannotConnect, s.closeMainSocket)
      | .errorProtocol => (.returned .errorProtocol, s.closeMainSocket)
      | .outOfRange _ _ | .outOfFuel => (.undefinedBehaviour, s)
      | .reply document =>
          match parseRegisterReply (b.buffer document) document.length with
          | .error _ => (.undefinedBehaviour, s)
          | .ok none => (.returned .errorProtocol, s.closeMainSocket)
          | .ok (some (ctrlId, flags)) =>
              (.returned .ok, s.registered a (b.buffer document) ctrlId flags)

/-- The part of `registerToControl` behind the argument checks. -/
def connect (a : RegisterArgs) (b : Backend) (s : Session) : RegisterEnd × Session :=
  if s.highPrioritySocketOpen then
    -- an open socket is not opened again, which `open` reports
    (.returned .errorCannotConnect, s)
  else if ¬ b.udpOpens then
    -- `non_blocking` throws on a closed socket, before the error is looked at
    (.threw, s)
  else
    let s := { s with highPrioritySocketOpen := true }
    if ¬ s.mainSocketOpen ∧ ¬ b.tcpOpens then
      (.returned .errorCannotConnect, s)
    else
      let s := { s with mainSocketOpen := true }
      if ¬ b.connects then
        (.returned .errorCannotConnect, s)
      else
        s.exchange a b

/-- `Session::registerToControl`. -/
def registerToControl (a : RegisterArgs) (b : Backend) (s : Session) : RegisterEnd × Session :=
  let s := { s with secureSession := a.secureSession }
  if ¬ a.Valid s.sessionId then
    (.returned .errorInvalidArgument, s)
  else
    s.connect a b

/-! ### Success -/

variable {a : RegisterArgs} {b : Backend} {s s' : Session} {e : RegisterEnd} {code : ResultCode}

/-- The backend grants the registration: the request is written and the reply registers the
caller. -/
def Grants (b : Backend) : Prop :=
  b.written = .whole ∧ ∃ document granted, readReply b.cut b.stream = .reply document ∧
    parseRegisterReply (b.buffer document) document.length = .ok (some granted)

/-- The conditions on the arguments, the sockets and the backend for a registration. -/
structure Accepts (a : RegisterArgs) (b : Backend) (s : Session) : Prop where
  valid : a.Valid s.sessionId
  udpClosed : s.highPrioritySocketOpen = false
  udpOpens : b.udpOpens = true
  tcpOpens : s.mainSocketOpen = true ∨ b.tcpOpens = true
  connects : b.connects = true
  grants : Grants b

/-- **One exchange**: it registers the session when the backend grants it, and otherwise ends with
another result and changes nothing but the main socket. -/
theorem exchange_cases (h : s.exchange a b = (e, s')) :
    (Grants b ∧ e = .returned .ok ∧ ∃ buffer ctrlId flags, s' = s.registered a buffer ctrlId flags) ∨
      (¬ Grants b ∧ e ≠ .returned .ok ∧ (s' = s ∨ s' = s.closeMainSocket)) := by
  cases hw : b.written with
  | failed =>
      simp only [exchange, hw, Prod.mk.injEq] at h
      obtain ⟨rfl, rfl⟩ := h
      exact Or.inr ⟨fun hg => by simpa [hw] using hg.1, by simp, Or.inl rfl⟩
  | short =>
      simp only [exchange, hw, Prod.mk.injEq] at h
      obtain ⟨rfl, rfl⟩ := h
      exact Or.inr ⟨fun hg => by simpa [hw] using hg.1, by decide, Or.inr rfl⟩
  | whole =>
      have hno : (∀ document, readReply b.cut b.stream ≠ .reply document) → ¬ Grants b := by
        rintro hnone ⟨-, document, granted, hreply, -⟩
        exact hnone document hreply
      cases hr : readReply b.cut b.stream with
      | errorCannotConnect =>
          simp only [exchange, hw, hr, Prod.mk.injEq] at h
          obtain ⟨rfl, rfl⟩ := h
          exact Or.inr ⟨hno (by simp [hr]), by decide, Or.inr rfl⟩
      | errorProtocol =>
          simp only [exchange, hw, hr, Prod.mk.injEq] at h
          obtain ⟨rfl, rfl⟩ := h
          exact Or.inr ⟨hno (by simp [hr]), by decide, Or.inr rfl⟩
      | outOfRange offset size =>
          simp only [exchange, hw, hr, Prod.mk.injEq] at h
          obtain ⟨rfl, rfl⟩ := h
          exact Or.inr ⟨hno (by simp [hr]), by simp, Or.inl rfl⟩
      | outOfFuel => exact absurd hr (readReply_ne_outOfFuel _ _)
      | reply document =>
          have hgrants : Grants b ↔ ∃ granted,
              parseRegisterReply (b.buffer document) document.length = .ok (some granted) := by
            constructor
            · rintro ⟨-, document', granted, hreply, hparse⟩
              rw [hr] at hreply
              obtain rfl := ReplyEnd.reply.inj hreply
              exact ⟨granted, hparse⟩
            · rintro ⟨granted, hparse⟩
              exact ⟨hw, document, granted, hr, hparse⟩
          cases hp : parseRegisterReply (b.buffer document) document.length with
          | error stop =>
              simp only [exchange, hw, hr, hp, Prod.mk.injEq] at h
              obtain ⟨rfl, rfl⟩ := h
              exact Or.inr ⟨by simp [hgrants, hp], by simp, Or.inl rfl⟩
          | ok granted =>
            cases granted with
            | none =>
                simp only [exchange, hw, hr, hp, Prod.mk.injEq] at h
                obtain ⟨rfl, rfl⟩ := h
                exact Or.inr ⟨by simp [hgrants, hp], by decide, Or.inr rfl⟩
            | some granted =>
                obtain ⟨ctrlId, flags⟩ := granted
                simp only [exchange, hw, hr, hp, Prod.mk.injEq] at h
                obtain ⟨rfl, rfl⟩ := h
                exact Or.inl ⟨hgrants.mpr ⟨_, hp⟩, rfl, _, _, _, rfl⟩

/-- **What a call of `registerToControl` does.** -/
inductive RegisterCase (a : RegisterArgs) (b : Backend) (s : Session) :
    RegisterEnd → Session → Prop
  | rejected (hvalid : ¬ a.Valid s.sessionId) :
      RegisterCase a b s (.returned .errorInvalidArgument) { s with secureSession := a.secureSession }
  | alreadyOpen (hvalid : a.Valid s.sessionId) (hopen : s.highPrioritySocketOpen = true) :
      RegisterCase a b s (.returned .errorCannotConnect) { s with secureSession := a.secureSession }
  | notOpened (hvalid : a.Valid s.sessionId) (hclosed : s.highPrioritySocketOpen = false)
      (hudp : b.udpOpens = false) :
      RegisterCase a b s .threw { s with secureSession := a.secureSession }
  | failed {e : RegisterEnd} (hvalid : a.Valid s.sessionId)
      (hclosed : s.highPrioritySocketOpen = false) (hudp : b.udpOpens = true)
      (hfail : ¬ Accepts a b s) (he : e ≠ .returned .ok) (mainSocketOpen : Bool) :
      RegisterCase a b s e { s with
        secureSession := a.secureSession
        highPrioritySocketOpen := true
        mainSocketOpen }
  | accepted (haccepts : Accepts a b s) (buffer : List UInt8) (ctrlId : ℤ) (flags : UInt32) :
      RegisterCase a b s (.returned .ok) (registered a buffer ctrlId flags { s with
        secureSession := a.secureSession
        highPrioritySocketOpen := true
        mainSocketOpen := true })

theorem registerToControl_cases (h : s.registerToControl a b = (e, s')) :
    RegisterCase a b s e s' := by
  rw [registerToControl] at h
  dsimp only at h
  by_cases hvalid : a.Valid s.sessionId
  swap
  · rw [if_pos hvalid] at h
    obtain ⟨rfl, rfl⟩ := Prod.mk.inj h
    exact .rejected hvalid
  rw [if_neg (not_not.mpr hvalid), connect] at h
  dsimp only at h
  by_cases hopen : s.highPrioritySocketOpen = true
  · rw [if_pos hopen] at h
    obtain ⟨rfl, rfl⟩ := Prod.mk.inj h
    exact .alreadyOpen hvalid hopen
  rw [if_neg hopen] at h
  have hclosed : s.highPrioritySocketOpen = false := by simpa using hopen
  by_cases hudp : b.udpOpens = true
  swap
  · rw [if_pos hudp] at h
    obtain ⟨rfl, rfl⟩ := Prod.mk.inj h
    exact .notOpened hvalid hclosed (by simpa using hudp)
  rw [if_neg (not_not.mpr hudp)] at h
  by_cases htcp : s.mainSocketOpen = true ∨ b.tcpOpens = true
  swap
  · rw [if_pos (not_or.mp htcp)] at h
    obtain ⟨rfl, rfl⟩ := Prod.mk.inj h
    exact .failed hvalid hclosed hudp (fun hacc => htcp hacc.tcpOpens) (by decide) _
  rw [if_neg (fun hnone => htcp.elim hnone.1 hnone.2)] at h
  by_cases hconn : b.connects = true
  swap
  · rw [if_pos hconn] at h
    obtain ⟨rfl, rfl⟩ := Prod.mk.inj h
    exact .failed hvalid hclosed hudp (fun hacc => hconn hacc.connects) (by decide) _
  rw [if_neg (not_not.mpr hconn)] at h
  rcases exchange_cases h with ⟨hg, rfl, buffer, ctrlId, flags, rfl⟩ | ⟨hg, he, rfl | rfl⟩
  · exact .accepted ⟨hvalid, hclosed, hudp, htcp, hconn, hg⟩ buffer ctrlId flags
  · exact .failed hvalid hclosed hudp (fun hacc => hg hacc.grants) he true
  · exact .failed hvalid hclosed hudp (fun hacc => hg hacc.grants) he false

/-- **When a registration succeeds.** -/
theorem registerToControl_ok_iff :
    (s.registerToControl a b).1 = .returned .ok ↔ Accepts a b s := by
  obtain ⟨e, s', h⟩ : ∃ e s', s.registerToControl a b = (e, s') := ⟨_, _, rfl⟩
  have hend : (s.registerToControl a b).1 = e := congrArg Prod.fst h
  rw [hend]
  cases registerToControl_cases h with
  | rejected hvalid => exact iff_of_false (by decide) fun hacc => hvalid hacc.valid
  | alreadyOpen hvalid hopen =>
      exact iff_of_false (by decide) fun hacc => by simp [hacc.udpClosed] at hopen
  | notOpened hvalid hclosed hudp =>
      exact iff_of_false (by decide) fun hacc => by simp [hacc.udpOpens] at hudp
  | failed hvalid hclosed hudp hfail he => exact iff_of_false he hfail
  | accepted haccepts => exact iff_of_true rfl haccepts

/-! ### Failed calls -/

/-- What a failed registration has to leave as it was: the secure session, the registration, the
state, and which sockets are open. -/
structure Untouched (s s' : Session) : Prop where
  secureSession : s'.secureSession = s.secureSession
  controlFlags : s'.controlFlags = s.controlFlags
  controllerId : s'.controllerId = s.controllerId
  state : s'.state = s.state
  highPrioritySocketOpen : s'.highPrioritySocketOpen = s.highPrioritySocketOpen
  mainSocketOpen : s'.mainSocketOpen = s.mainSocketOpen

/-- **Which failed calls leave the session as it was**: those that are given the secure session that
is stored already, and are refused for their arguments or because the socket for high priority
packets is open. -/
theorem untouched_iff (h : s.registerToControl a b = (.returned code, s')) (hcode : code ≠ .ok) :
    Untouched s s' ↔
      a.secureSession = s.secureSession ∧
        (¬ a.Valid s.sessionId ∨ s.highPrioritySocketOpen = true) := by
  cases registerToControl_cases h with
  | rejected hvalid =>
      exact ⟨fun hu => ⟨hu.secureSession, Or.inl hvalid⟩, fun hc => ⟨hc.1, rfl, rfl, rfl, rfl, rfl⟩⟩
  | alreadyOpen hvalid hopen =>
      exact ⟨fun hu => ⟨hu.secureSession, Or.inr hopen⟩, fun hc => ⟨hc.1, rfl, rfl, rfl, rfl, rfl⟩⟩
  | failed hvalid hclosed hudp hfail he mainSocketOpen =>
      refine iff_of_false (fun hu => ?_) ?_
      · simpa [hclosed] using hu.highPrioritySocketOpen
      · rintro ⟨-, hnot | hopen⟩
        · exact hnot hvalid
        · simp [hclosed] at hopen
  | accepted => exact absurd rfl hcode

/-- A session that controls the devices, without encryption. -/
def controlling : Session where
  sessionId := 1
  state := .connectedControl
  controlFlags := 1
  controllerId := 1
  highPrioritySocketOpen := true
  mainSocketOpen := true

/-- It refuses to be registered again, and stays as it was. -/
theorem untouched_of_controlling :
    ∃ s', controlling.registerToControl ⟨1, [97], none⟩
        ⟨true, true, true, .failed, [], fun _ => 0, fun _ => 0⟩ = (.returned .errorCannotConnect, s') ∧
      Untouched controlling s' := by
  have hcode : ResultCode.errorCannotConnect ≠ .ok := by decide
  obtain ⟨s', hs'⟩ : ∃ s', controlling.registerToControl ⟨1, [97], none⟩
      ⟨true, true, true, .failed, [], fun _ => 0, fun _ => 0⟩ = (.returned .errorCannotConnect, s') :=
    ⟨_, rfl⟩
  exact ⟨s', hs', (untouched_iff hs' hcode).mpr ⟨rfl, Or.inr rfl⟩⟩

/-- A refused call drops the secure session of a registered session. -/
theorem not_untouched : ¬ ∀ (a : RegisterArgs) (b : Backend) (s s' : Session) (code : ResultCode),
    s.registerToControl a b = (.returned code, s') → code ≠ .ok → Untouched s s' := by
  intro h
  have hbad := h ⟨0, [], none⟩ ⟨false, false, false, .failed, [], fun _ => 0, fun _ => 0⟩
    { controlling with secureSession := some ⟨0, .x25519Aes128Gcm, 1, [1], [1]⟩ }
    _ .errorInvalidArgument rfl (by decide)
  exact absurd hbad.secureSession (by decide)

end Session

end ScApi
