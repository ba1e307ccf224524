import ZlNet.Fault
import ZlNet.Lib.Word

/-! The objects of the network thread: listeners and connections, the end point and the protocol
that each holds, and the events that it is registered for with the poller.  Objects, protocols and
their callbacks are shared by pointer in the source; a pointer is a number here. -/

namespace ZlNet.Network

inductive EPROTOCOL
  | TCP | UDP | KCP
  deriving DecidableEq, Repr

inductive EIOOBJECT_TYPE
  | WAKEUP | LISTENER | CONNECTOR | SESSION
  deriving DecidableEq, Repr

inductive EConnectState
  | DISCONNECTED | CONNECTING | CONNECTED | DISCONNECTING
  deriving DecidableEq, Repr

def READ_EVENT : Nat := 1

def WRITE_EVENT : Nat := 2

structure CAddress where
  ip : UInt32
  port : UInt16
  deriving DecidableEq, Repr

def INADDR_ANY : UInt32 := 0

/-! ### Buffers and end points -/

/-- A buffer of a connection as its users see it: the bytes written to it and not yet read. -/
structure IIOBuffer where
  bytes : List UInt8
  deriving DecidableEq, Repr

namespace IIOBuffer

def new : IIOBuffer := ⟨[]⟩

def size (b : IIOBuffer) : Nat := b.bytes.length

def write (b : IIOBuffer) (data : List UInt8) : Except Fault IIOBuffer := do
  require (0 < data.length) .ringWrite
  if b.size + data.length < 2 ^ 32 then return ⟨b.bytes ++ data⟩ else throw .overflow

theorem bytes_of_write {b b' : IIOBuffer} {data : List UInt8} (h : b.write data = .ok b') :
    b'.bytes = b.bytes ++ data := by
  unfold write require at h
  split at h
  · simp only [ok_bind] at h
    split at h
    · rw [← Except.ok.inj h]
    · cases h
  · cases h

/-- `read_confirm`, which drops the `len` oldest bytes. -/
def readConfirm (b : IIOBuffer) (len : Nat) : Except Fault IIOBuffer := do
  require (len ≤ b.size ∧ len ≠ 0) .readConfirm
  return ⟨b.bytes.drop len⟩

theorem bytes_of_readConfirm {b b' : IIOBuffer} {len : Nat} (h : b.readConfirm len = .ok b') :
    b'.bytes = b.bytes.drop len := by
  unfold readConfirm require at h
  split at h
  · rw [← Except.ok.inj h]
  · cases h

def clear (_ : IIOBuffer) : IIOBuffer := ⟨[]⟩

end IIOBuffer

/-- What a socket was given for its peer: bytes that it took, or the end of the stream. -/
inductive Sent
  | bytes (taken : List UInt8)
  | fin
  deriving DecidableEq, Repr

structure CEndPoint where
  socket : Int
  address : CAddress
  sent : List Sent := []
  deriving DecidableEq, Repr

namespace CEndPoint

/-- `write` and `writev` of `data`, of which the socket takes the first `count` bytes. -/
def write (e : CEndPoint) (data : List UInt8) (count : Int) : CEndPoint :=
  { e with sent := e.sent ++ [.bytes (data.take count.toNat)] }

def shutdownWrite (e : CEndPoint) : CEndPoint := { e with sent := e.sent ++ [.fin] }

/-- `bind`, with the `errno` that the system call leaves, 0 if it succeeds. -/
def bind (_ : CEndPoint) (errno : Nat) : Int := errno

/-- `listen`, like `bind`. -/
def listen (_ : CEndPoint) (errno : Nat) : Int := errno

/-- `isSelfConnect`, given the local and the remote name of the socket where it has them. -/
def isSelfConnect (_ : CEndPoint) (localName remoteName : Option CAddress) :
    Except Fault Bool :=
  match localName, remoteName with
  | some address, some address' => .ok (address = address')
  | _, _ => .error (.assertion .isSelfConnect)

/-- All bytes that the socket took, in order. -/
def accepted (e : CEndPoint) : List UInt8 :=
  e.sent.flatMap fun
    | .bytes taken => taken
    | .fin => []

end CEndPoint

/-! ### Objects -/

/-- The part of a protocol that the network thread reads.  `id` is its address. -/
structure IOProtocol where
  id : Nat
  protocolType : EPROTOCOL
  type : EIOOBJECT_TYPE
  key : UInt32
  group : Int
  deriving DecidableEq, Repr

/-- The functions that are bound to objects as callbacks. -/
inductive Handler
  | weakupReadHandler | defaultErrorHandle | handleTcpAccept
  | handleTcpConError | handleTcpConRead | handleTcpConWrite
  | handleTcpConnectError | handleTcpConnectWrite
  deriving DecidableEq, Repr

/-- The timers that are started for connections: the periodic one of an established connection,
the one that ends a graceful close, and the one that connects again to `address`. -/
inductive Timer
  | onTimer
  | forceClose
  | reconnect (address : CAddress)
  deriving DecidableEq, Repr

/-- An `IOObject`, with the fields that it has as a `Connection`. -/
structure IOObject where
  type : EIOOBJECT_TYPE
  key : UInt32 := 0
  group : Int := 0
  protocol : Option IOProtocol := none
  events : Nat := 0
  errorCallback : Option Handler := none
  readCallback : Option Handler := none
  writeCallback : Option Handler := none
  endPoint : Option CEndPoint := none
  state : EConnectState := .DISCONNECTED
  inputBuffer : IIOBuffer := .new
  outBuffer : IIOBuffer := .new
  isWriting : Bool := false
  timers : List Timer := []
  deriving DecidableEq, Repr

namespace IOObject

/-- `onAwake`, when an object is taken from its pool. -/
def onAwake (o : IOObject) (protocol : IOProtocol) (endPoint : CEndPoint) : IOObject :=
  { o with
    protocol := some protocol, key := protocol.key, events := 0, group := 0
    endPoint := some endPoint, state := .DISCONNECTED, isWriting := false }

/-- `onRecycle`, when its last owner has gone and an object returns to its pool. -/
def onRecycle (o : IOObject) : IOObject :=
  { o with
    protocol := none, endPoint := none
    inputBuffer := o.inputBuffer.clear, outBuffer := o.outBuffer.clear, timers := [] }

def hasReading (o : IOObject) : Bool := o.events &&& READ_EVENT ≠ 0

def hasWriting (o : IOObject) : Bool := o.events &&& WRITE_EVENT ≠ 0

/-- Whether `dynamic_pointer_cast<Connection>` of the object is not null. -/
def isConnection (o : IOObject) : Bool := o.type = .CONNECTOR ∨ o.type = .SESSION

def enableSend (o : IOObject) : Bool := o.state = .CONNECTED

def enableWrite (o : IOObject) : Bool := o.state = .CONNECTED ∨ o.state = .DISCONNECTING

def enableRead (o : IOObject) : Bool := o.state = .CONNECTED ∨ o.state = .DISCONNECTING

/-- Sets the callbacks of a connection that is established, and its state. -/
def setConnected (o : IOObject) : IOObject :=
  { o with
    errorCallback := some .handleTcpConError, readCallback := some .handleTcpConRead
    writeCallback := some .handleTcpConWrite, state := .CONNECTED }

def startTimer (o : IOObject) (timer : Timer) : IOObject :=
  { o with timers := o.timers ++ [timer] }

/-! ### The poller

What `epoll_ctl` returns is logged and has no other effect. -/

def deregisterObject (o : IOObject) : IOObject := { o with events := 0 }

def updateObject (o : IOObject) (events : Nat) : IOObject :=
  if events = 0 then o.deregisterObject else { o with events }

def registerReadHandler (o : IOObject) : IOObject := o.updateObject (o.events ||| READ_EVENT)

def registerWriteHandler (o : IOObject) : IOObject := o.updateObject (o.events ||| WRITE_EVENT)

/-- Turns the event over: an object that is not registered for it gets registered. -/
def deregisterWriteHandler (o : IOObject) : IOObject := o.updateObject (o.events ^^^ WRITE_EVENT)

/-! None of these changes what an object is found by. -/

variable (o : IOObject)

@[simp] theorem setConnected_key : o.setConnected.key = o.key := rfl

@[simp] theorem setConnected_protocol : o.setConnected.protocol = o.protocol := rfl

@[simp] theorem startTimer_key (timer : Timer) : (o.startTimer timer).key = o.key := rfl

@[simp] theorem startTimer_protocol (timer : Timer) :
    (o.startTimer timer).protocol = o.protocol := rfl

@[simp] theorem deregisterObject_key : o.deregisterObject.key = o.key := rfl

@[simp] theorem deregisterObject_protocol : o.deregisterObject.protocol = o.protocol := rfl

@[simp] theorem registerReadHandler_key : o.registerReadHandler.key = o.key := by
  simp only [registerReadHandler, updateObject]
  split <;> rfl

@[simp] theorem registerReadHandler_protocol : o.registerReadHandler.protocol = o.protocol := by
  simp only [registerReadHandler, updateObject]
  split <;> rfl

@[simp] theorem registerWriteHandler_protocol : o.registerWriteHandler.protocol = o.protocol := by
  simp only [registerWriteHandler, updateObject]
  split <;> rfl

@[simp] theorem deregisterWriteHandler_protocol :
    o.deregisterWriteHandler.protocol = o.protocol := by
  simp only [deregisterWriteHandler, updateObject]
  split <;> rfl

@[simp] theorem deregisterWriteHandler_endPoint :
    o.deregisterWriteHandler.endPoint = o.endPoint := by
  simp only [deregisterWriteHandler, updateObject]
  split <;> rfl

@[simp] theorem deregisterWriteHandler_outBuffer :
    o.deregisterWriteHandler.outBuffer = o.outBuffer := by
  simp only [deregisterWriteHandler, updateObject]
  split <;> rfl

end IOObject

end ZlNet.Network
