import Mathlib.Logic.Function.Basic
import ZlNet.Engine.InnerProtocol
import ZlNet.Network.IOObject

/-! `IOEngine`, which runs in the thread of its users: the protocols that it knows, the callbacks
that wait for an answer, and the packets that the network thread leaves in its message queue.
What it calls of its users and asks of the network is recorded. -/

namespace ZlNet.Engine

open Network

abbrev ProtocolId := Nat

abbrev HandlerId := Nat

/-- `core::IntrusiveNode`: a list whose nodes are callback handlers.  A handler is appended only to
a list that it is not in, and leaves a list that has it at most once. -/
class IntrusiveNode (L : Type) where
  empty : L
  toList : L → List HandlerId
  front : L → Option HandlerId
  pushBack : L → HandlerId → L
  leave : L → HandlerId → L
  toList_empty : toList empty = []
  front_eq : ∀ l, front l = (toList l).head?
  toList_pushBack : ∀ l h, h ∉ toList l → toList (pushBack l h) = toList l ++ [h]
  toList_leave : ∀ l h, (toList l).Nodup → toList (leave l h) = (toList l).erase h

/-- The list of the handlers itself. -/
@[reducible] def IntrusiveNode.list : IntrusiveNode (List HandlerId) where
  empty := []
  toList l := l
  front := List.head?
  pushBack l h := l ++ [h]
  leave := List.erase
  toList_empty := rfl
  front_eq _ := rfl
  toList_pushBack _ _ _ := rfl
  toList_leave _ _ _ := rfl

/-- A protocol as the engine sees it. -/
structure Protocol where
  type : EIOOBJECT_TYPE := .WAKEUP
  key : UInt32 := 0
  available : Bool := false
  deriving DecidableEq, Repr

structure CallbackHandler where
  uid : UInt32 := 0
  cbId : UInt32 := 0
  toMs : Int := 0
  cmd : UInt32 := 0
  deriving DecidableEq, Repr

/-- The types of the packets that are notifications. -/
inductive EPacketType
  | PacketListen | PacketUnlisten | PacketAccept | PacketConnect | PacketDisconnect | PacketClose
  deriving DecidableEq, Repr

structure IONotify where
  type : EPacketType
  uid : UInt32
  protocol : ProtocolId
  fromProtocol : Option ProtocolId := none
  success : Bool := false
  deriving DecidableEq, Repr

/-- A packet of the message queue. -/
inductive Packet (μ : Type)
  | notify (packet : IONotify)
  | msg (packet : IOPacket μ)
  deriving DecidableEq, Repr

/-- An event that the engine queues for the network thread. -/
inductive Event (μ : Type)
  | listen (port : UInt16) (protocol : ProtocolId)
  | connect (address : CAddress) (protocol : ProtocolId)
  | data (key : UInt32) (packet : IOPacket μ)
  | close (key : UInt32)
  deriving DecidableEq, Repr

/-- The virtual functions of the engine that tell its users of a protocol. -/
inductive Upcall
  | onListen (uid : UInt32) (success : Bool)
  | onUnlisten (uid : UInt32)
  | onAccept (uid fromUid : UInt32)
  | onClose (uid : UInt32)
  | onConnect (uid : UInt32) (success : Bool)
  | onDisconnect (uid : UInt32)
  deriving DecidableEq, Repr

def ErrCode_Timeout : UInt32 := 2

def ErrCode_CallbackBySendError : UInt32 := 6

/-- The engine, with all protocols and handlers there are.  The first `created` protocols exist, and
those of `outstanding` own a key.  `upcalls`, `called` and `dispatched` are the calls of the
engine's virtual functions, of the callback handlers and of the packet handlers. -/
structure IOEngine (L μ : Type) where
  protocols : UInt32 → Option ProtocolId := fun _ => none
  packetHandlers : UInt32 → Option Nat := fun _ => none
  callbackHandlers : UInt32 → Option HandlerId := fun _ => none
  callbackTimeOutList : L
  nextCallbackId : UInt32 := 0
  callbackTimeoutMs : Int := 10000
  msgqueue : List (Packet μ) := []
  protocol : ProtocolId → Protocol := fun _ => {}
  handler : HandlerId → CallbackHandler := fun _ => {}
  created : Nat := 0
  outstanding : List ProtocolId := []
  events : List (Event μ) := []
  upcalls : List (ProtocolId × Upcall) := []
  called : List (HandlerId × IOPacket μ) := []
  dispatched : List (Nat × IOPacket μ) := []

/-- A send with a callback handler or without, at the time `clock`. -/
structure Request (μ : Type) where
  callbackHander : Option HandlerId
  packet : IOPacket μ
  clock : Int

namespace IOEngine

variable {L μ : Type} (σ : IOEngine L μ)

def pushEvent (event : Event μ) : IOEngine L μ := { σ with events := σ.events ++ [event] }

def postPacket (packet : Packet μ) : IOEngine L μ :=
  { σ with msgqueue := σ.msgqueue ++ [packet] }

def upcall (protocol : ProtocolId) (call : Upcall) : IOEngine L μ :=
  { σ with upcalls := σ.upcalls ++ [(protocol, call)] }

def setProtocol (p : ProtocolId) (protocol : Protocol) : IOEngine L μ :=
  { σ with protocol := Function.update σ.protocol p protocol }

def setAvailable (p : ProtocolId) : IOEngine L μ :=
  σ.setProtocol p { σ.protocol p with available := true }

def unsetAvailable (p : ProtocolId) : IOEngine L μ :=
  σ.setProtocol p { σ.protocol p with available := false }

def setHandler (h : HandlerId) (handler : CallbackHandler) : IOEngine L μ :=
  { σ with handler := Function.update σ.handler h handler }

/-! ### Protocols -/

def getProtocol (uid : UInt32) : Option ProtocolId := σ.protocols uid

/-- `protocol && protocol->isAvailable()` of the protocol that is found under `uid`. -/
def isAvailable (uid : UInt32) : Bool :=
  (σ.getProtocol uid).any fun p => (σ.protocol p).available

/-- `core::insert(_protocols, uid, protocol)`, where there is none yet. -/
def insertProtocol (uid : UInt32) (p : ProtocolId) : IOEngine L μ :=
  { σ with protocols := Function.update σ.protocols uid (some p) }

def removeProtocol (uid : UInt32) : IOEngine L μ :=
  { σ with protocols := Function.update σ.protocols uid none }

/-- What `listen` and `connect` do once the network has taken `key` for the protocol. -/
def takeKey (p : ProtocolId) (type : EIOOBJECT_TYPE) (key : UInt32) (event : Event μ) :
    IOEngine L μ :=
  let σ := (σ.setProtocol p { σ.protocol p with type, key }).pushEvent event
  let σ := { σ with outstanding := p :: σ.outstanding }
  if σ.protocols key = none then σ.insertProtocol key p else σ

/-- `listen`, with the key that the network's pool gives, 0 for none. -/
def listen (port : UInt16) (p : ProtocolId) (key : UInt32) : IOEngine L μ :=
  if (σ.protocol p).key ≠ 0 then σ
  else if key = 0 then σ
  else σ.takeKey p .LISTENER key (.listen port p)

/-- `connect`, like `listen`. -/
def connect (address : CAddress) (p : ProtocolId) (key : UInt32) : IOEngine L μ :=
  if (σ.protocol p).key ≠ 0 then σ
  else if key = 0 then σ
  else σ.takeKey p .CONNECTOR key (.connect address p)

def close (uid : UInt32) : Except Fault (IOEngine L μ) :=
  match σ.getProtocol uid with
  | none => return σ
  | some p =>
    let σ := σ.pushEvent (.close uid)
    if !(σ.protocol p).available then return σ.removeProtocol uid
    else
      match (σ.protocol p).type with
      | .LISTENER => return (σ.upcall p (.onUnlisten uid)).removeProtocol uid
      | .SESSION => return (σ.upcall p (.onClose uid)).removeProtocol uid
      | .CONNECTOR => return (σ.upcall p (.onDisconnect uid)).removeProtocol uid
      | .WAKEUP => throw (.assertion .close)

/-! ### Notifications -/

def onIOListen (notify : IONotify) : IOEngine L μ :=
  let uid := notify.uid
  let p := notify.protocol
  if σ.getProtocol uid ≠ some p then σ
  else
    let σ := if notify.success then σ.setAvailable p else σ
    σ.upcall p (.onListen uid notify.success)

def onIOUnListen (notify : IONotify) : IOEngine L μ :=
  let uid := notify.uid
  match σ.getProtocol uid with
  | none => σ
  | some p =>
    if !(σ.protocol p).available then σ
    else
      let σ := (σ.unsetAvailable p).upcall p (.onListen uid notify.success)
      σ.removeProtocol uid

def onIOAccept (notify : IONotify) : Except Fault (IOEngine L μ) :=
  match notify.fromProtocol with
  | none => throw .nullPointer
  | some fromPtotocol =>
    let p := notify.protocol
    let uid := (σ.protocol p).key
    let fromUid := (σ.protocol fromPtotocol).key
    if σ.getProtocol fromUid ≠ some fromPtotocol then return σ
    else if !(σ.protocol fromPtotocol).available then return σ
    else
      let σ := σ.setAvailable p
      if σ.protocols uid = none then return (σ.insertProtocol uid p).upcall p (.onAccept uid fromUid)
      else return σ

def onIOClose (notify : IONotify) : IOEngine L μ :=
  let p := notify.protocol
  let uid := (σ.protocol p).key
  if !(σ.protocol p).available then σ
  else ((σ.unsetAvailable p).upcall p (.onClose uid)).removeProtocol uid

def onIOConnect (notify : IONotify) : IOEngine L μ :=
  let p := notify.protocol
  let uid := (σ.protocol p).key
  if σ.protocols uid = none then σ
  else
    let σ := if notify.success then σ.setAvailable p else σ
    σ.upcall p (.onConnect uid notify.success)

def onIODisconnect (notify : IONotify) : IOEngine L μ :=
  let p := notify.protocol
  let uid := (σ.protocol p).key
  if σ.protocols uid = none then σ
  else if !(σ.protocol p).available then σ
  else ((σ.unsetAvailable p).upcall p (.onDisconnect uid)).removeProtocol uid

/-! ### Callbacks -/

variable [IntrusiveNode L]

/-- The id that follows `last`. -/
def idAfter (last : UInt32) : UInt32 := if last < 0xffffffff then last + 1 else 1

def makeCallbackId : UInt32 × IOEngine L μ :=
  let σ := { σ with nextCallbackId := idAfter σ.nextCallbackId }
  match IntrusiveNode.front σ.callbackTimeOutList with
  | some front =>
    if (σ.handler front).cbId = σ.nextCallbackId then (0, σ) else (σ.nextCallbackId, σ)
  | none => (σ.nextCallbackId, σ)

def bindCallbackHandler (h : HandlerId) (clock : Int) : Except Fault (UInt32 × IOEngine L μ) := do
  require ((σ.handler h).cbId = 0) .bindCallbackHandler
  let (cbId, σ) := σ.makeCallbackId
  require (cbId ≠ 0) .bindCallbackHandler
  let σ := σ.setHandler h { σ.handler h with cbId, toMs := clock + σ.callbackTimeoutMs }
  return (cbId, { σ with
    callbackHandlers := Function.update σ.callbackHandlers cbId (some h)
    callbackTimeOutList := IntrusiveNode.pushBack σ.callbackTimeOutList h })

/-- Binds the callback handler of a send, and notes in it what is sent. -/
def bindRequest (h : HandlerId) (packet : IOPacket μ) (clock : Int) :
    Except Fault (UInt32 × IOEngine L μ) := do
  let (cbId, σ) ← σ.bindCallbackHandler h clock
  return (cbId, σ.setHandler h { σ.handler h with uid := packet.uid, cmd := packet.cmd })

def send (r : Request μ) : Except Fault (IOEngine L μ) :=
  let packet := r.packet
  if packet.cmd ≠ 0 then
    if σ.isAvailable packet.uid then
      match r.callbackHander with
      | some h => do
        let (cbId, σ) ← σ.bindRequest h packet r.clock
        return σ.pushEvent (.data packet.uid { packet with callbackId := cbId })
      | none => return σ.pushEvent (.data packet.uid packet)
    else do
      require (packet.uid = 0) .send
      match r.callbackHander with
      | some h =>
        let (cbId, σ) ← σ.bindRequest h packet r.clock
        return σ.postPacket (.msg ⟨0, 0, cbId, ErrCode_CallbackBySendError, none⟩)
      | none => return σ
  else if packet.callbackId ≠ 0 then do
    require (r.callbackHander = none) .send
    if σ.isAvailable packet.uid then return σ.pushEvent (.data packet.uid packet) else return σ
  else throw (.assertion .send)

/-- Takes a callback handler out of the table and the list, and calls its `onPacket`.  Whether the handler
is still there then is up to its owners, of which `Access` and `Sweeps` know. -/
def complete (cbId : UInt32) (h : HandlerId) (packet : IOPacket μ) : IOEngine L μ :=
  { σ with
    callbackHandlers := Function.update σ.callbackHandlers cbId none
    callbackTimeOutList := IntrusiveNode.leave σ.callbackTimeOutList h
    called := σ.called ++ [(h, packet)] }

def dispactchCallback (packet : IOPacket μ) : Except Fault (IOEngine L μ) :=
  let cbId := packet.callbackId
  match σ.callbackHandlers cbId with
  | none => return σ
  | some h => do
    require ((σ.handler h).uid = packet.uid) .dispactchCallback
    return σ.complete cbId h packet

/-- One turn of the loop of `onTimerCallbackTimeout`, if there is one. -/
def timeoutFront (now : Int) : Option (IOEngine L μ) :=
  match IntrusiveNode.front σ.callbackTimeOutList with
  | none => none
  | some h =>
    let handler := σ.handler h
    if now < handler.toMs then none
    else some (σ.complete handler.cbId h
      ⟨handler.uid, handler.cmd, handler.cbId, ErrCode_Timeout, none⟩)

/-- `onTimerCallbackTimeout`.  Each handler that it calls makes the sends of one list of
`requests`; the fault says that there were more handlers. -/
def onTimerCallbackTimeout (now : Int) :
    List (List (Request μ)) → IOEngine L μ → Except Fault (IOEngine L μ)
  | [], σ =>
    match σ.timeoutFront now with
    | none => return σ
    | some _ => throw .diverges
  | sends :: requests, σ =>
    match σ.timeoutFront now with
    | none => return σ
    | some σ => do
      let σ ← sends.foldlM (fun σ r => σ.send r) σ
      onTimerCallbackTimeout now requests σ

/-! ### Packets -/

omit [IntrusiveNode L] in
def dispatchPacket (packet : IOPacket μ) : IOEngine L μ :=
  match σ.packetHandlers packet.cmd with
  | none => σ
  | some handler => { σ with dispatched := σ.dispatched ++ [(handler, packet)] }

def onIOPacket (packet : IOPacket μ) : Except Fault (IOEngine L μ) :=
  if σ.isAvailable packet.uid then
    if packet.cmd ≠ 0 then return σ.dispatchPacket packet
    else if packet.callbackId ≠ 0 then σ.dispactchCallback packet
    else return σ
  else return σ

def dispatchIOPacket (packet : Packet μ) : Except Fault (IOEngine L μ) :=
  match packet with
  | .notify notify =>
    match notify.type with
    | .PacketListen => return σ.onIOListen notify
    | .PacketUnlisten => return σ.onIOUnListen notify
    | .PacketAccept => σ.onIOAccept notify
    | .PacketConnect => return σ.onIOConnect notify
    | .PacketClose => return σ.onIOClose notify
    | .PacketDisconnect => return σ.onIODisconnect notify
  | .msg packet => σ.onIOPacket packet

/-! ### Waiting for a notification -/

omit [IntrusiveNode L] in
/-- The filter of `confirmListen` and `confirmConnect`: a notification about `p`. -/
def concerns (p : ProtocolId) : Packet μ → Bool
  | .notify notify => notify.protocol = p
  | .msg _ => false

/-- `pollOnePacket` with this filter, from the moment when its wait is over: the first packet of the
message queue that the filter takes is handled, if there is one. -/
def pollOnePacket (p : ProtocolId) : Except Fault (IOEngine L μ) :=
  match σ.msgqueue.find? (concerns p) with
  | none => return σ
  | some packet => { σ with msgqueue := σ.msgqueue.eraseP (concerns p) }.dispatchIOPacket packet

def confirm (uid : UInt32) : Except Fault (Bool × IOEngine L μ) :=
  match σ.getProtocol uid with
  | none => return (false, σ)
  | some p =>
    if (σ.protocol p).available then return (true, σ)
    else do
      let σ ← σ.pollOnePacket p
      if (σ.protocol p).available then return (true, σ)
      else return (false, (σ.removeProtocol uid).pushEvent (.close uid))

def confirmListen (uid : UInt32) : Except Fault (Bool × IOEngine L μ) := σ.confirm uid

def confirmConnect (uid : UInt32) : Except Fault (Bool × IOEngine L μ) := σ.confirm uid

end IOEngine

end ZlNet.Engine
