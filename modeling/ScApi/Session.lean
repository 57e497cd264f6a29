import ScApi.Receive

/-!
# The session

The state of a session, and the operations that end it: `disconnected` marks the session as lost
when its connection is, `close` closes its sockets and makes it invalid, and `periodicUpdate` finds
out that the backend no longer counts up its keep-alive counter. Each of them takes the session's
mutex, but `periodicUpdate` gives it back before it calls `disconnected`.

Timers, shared memory blocks and the command channel are left out: nothing here reads them.
-/

namespace ScApi

/-- `ResultCode`, an enumeration over `int32_t`: a reply can carry any value of that type. -/
structure ResultCode where
  value : ℤ
  deriving DecidableEq, Repr

namespace ResultCode

def ok : ResultCode := ⟨0⟩
def errorInvalidArgument : ResultCode := ⟨1⟩
def errorIncompatible : ResultCode := ⟨8⟩
def errorInvalidSessionState : ResultCode := ⟨0x10000⟩
def errorBusy : ResultCode := ⟨0x10001⟩
def errorTimeout : ResultCode := ⟨0x10002⟩
def errorCannotConnect : ResultCode := ⟨0x10003⟩
def errorProtocol : ResultCode := ⟨0x10004⟩

end ResultCode

/-- `SessionState`. -/
inductive SessionState where
  | invalid
  | connectedMonitor
  | connectedControl
  | sessionLost
  deriving DecidableEq, Repr

/-- `SC_API_PROTOCOL_SecurityMethod_t`. -/
inductive SecurityMethod where
  | none
  | x25519Aes128Gcm
  deriving DecidableEq, Repr

/-- A `SecureSessionInterface` behind its `unique_ptr`, with its `SecureSessionParameters`. `object`
says which object it is: no two pointers own the same one. -/
structure SecureSession where
  object : ℕ
  method : SecurityMethod := .none
  sessionId : UInt32 := 0
  controllerPublicKey : List UInt8 := []
  sharedSecret : List UInt8 := []
  deriving DecidableEq, Repr

/-- `session_event::SessionStateChanged`, without the pointer to its session. -/
structure SessionStateChanged where
  state : SessionState
  controllerId : UInt16
  controlFlags : UInt32
  deriving DecidableEq, Repr

/-- The state of a `Session` and of its sockets. -/
structure Session where
  sessionId : UInt32
  /-- `api_` points to the `ApiCore` that has opened the session. -/
  api : Bool := true
  state : SessionState := .connectedMonitor
  controlFlags : UInt32 := 0
  controlIdName : List UInt8 := []
  controllerId : UInt16 := 0
  isRunning : Bool := false
  secureSession : Option SecureSession := none
  /-- `high_priority_socket.is_open()`. -/
  highPrioritySocketOpen : Bool := false
  /-- `main_socket.is_open()`. -/
  mainSocketOpen : Bool := false
  /-- `io_ctx.stopped()`. -/
  ioStopped : Bool := false
  receiver : Receiver := ⟨[], 0, false⟩
  deriving DecidableEq, Repr

namespace Session

/-- What a holder of the session's mutex reads of its state and its registration. -/
def current (s : Session) : SessionStateChanged :=
  ⟨s.state, s.controllerId, s.controlFlags⟩

/-- `Session::disconnected`, but for its event. -/
def disconnected (s : Session) : Session :=
  { s with state := .sessionLost, ioStopped := s.ioStopped || s.isRunning }

/-- The event of `Session::disconnected`. -/
def disconnectedEvent : SessionStateChanged :=
  ⟨.sessionLost, 0, 0⟩

/-- `Session::close`. -/
def close (s : Session) : ResultCode × Session :=
  if s.state = .invalid then
    (.errorInvalidSessionState, s)
  else
    (.ok, { s with
      api := false
      state := .invalid
      highPrioritySocketOpen := false
      mainSocketOpen := false
      ioStopped := true })

/-- What `Session::periodicUpdate` decides while it holds the mutex. -/
inductive PeriodicUpdate where
  /-- Give the mutex back and call `disconnected`. -/
  | disconnect
  /-- Check the definitions and start the timer again. -/
  | goOn
  /-- Let the timer end. -/
  | stop
  deriving DecidableEq, Repr

/-- The part of `Session::periodicUpdate` under the mutex. `expired` says that the keep-alive
counter has not changed for longer than `k_keep_alive_timeout`. -/
def periodicUpdate (expired : Bool) (s : Session) : PeriodicUpdate :=
  match s.state with
  | .connectedMonitor => if expired then .disconnect else .goOn
  | .connectedControl => .goOn
  | .sessionLost | .invalid => .stop

end Session

end ScApi
