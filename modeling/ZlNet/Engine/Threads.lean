import ZlNet.Engine.IOEngine
import ZlNet.Network.Loop

/-! The engine thread and the network thread where the one opens a protocol.  `listen` and `connect`
hand the protocol to the network and finish it after, and the network thread can take steps between
theirs. -/

namespace ZlNet.Engine

open Network

/-- The address of a message queue. -/
abbrev MsgQueue := Nat

/-- How far `listen` or `connect` has come with a protocol: its event is queued, or its message queue
is set too. -/
inductive Opening
  | pushed (protocol : ProtocolId) (uid : UInt32)
  | queued (protocol : ProtocolId) (uid : UInt32)
  deriving DecidableEq, Repr

/-- The two threads.  `getMsgQueue` is the queue of the engine, `msgqueue` that of each protocol, none
where it was never set, and `packets` is what was pushed to each queue. -/
structure Threads where
  net : CNetwork := {}
  getMsgQueue : MsgQueue
  protocols : UInt32 → Option ProtocolId := fun _ => none
  opening : Option Opening := none
  msgqueue : ProtocolId → Option MsgQueue := fun _ => none
  packets : MsgQueue → List (ProtocolId × Notice) := fun _ => []

inductive ThreadAction
  | listen (port : UInt16) (protocol : IOProtocol) (key : UInt32)
  | connect (address : CAddress) (protocol : IOProtocol) (key : UInt32)
  | setQueue
  | insert
  | removeProtocol (uid : UInt32)
  | network (action : Network.Action)

namespace Threads

section

variable (σ : Threads)

/-! ### The engine thread -/

/-- What follows the call of the network, with the key that it returns. -/
def push (protocol : IOProtocol) (key : UInt32) (net : CNetwork) : Threads :=
  if key = 0 then σ else { σ with net, opening := some (.pushed protocol.id key) }

/-- The first step of `listen`. -/
def listen (port : UInt16) (protocol : IOProtocol) (key : UInt32) : Threads :=
  if protocol.key ≠ 0 then σ
  else σ.push protocol key
    (σ.net.listen port protocol.id protocol.protocolType protocol.group key)

/-- The first step of `connect`. -/
def connect (address : CAddress) (protocol : IOProtocol) (key : UInt32) : Threads :=
  if protocol.key ≠ 0 then σ
  else σ.push protocol key
    (σ.net.connect address protocol.id protocol.protocolType protocol.group key)

/-- The second step of both. -/
def setQueue : Threads :=
  match σ.opening with
  | some (.pushed p uid) => { σ with
      msgqueue := Function.update σ.msgqueue p (some σ.getMsgQueue)
      opening := some (.queued p uid) }
  | some (.queued _ _) | none => σ

/-- The last step of both. -/
def insert : Threads :=
  match σ.opening with
  | some (.queued p uid) =>
    let σ := { σ with opening := none }
    if σ.protocols uid = none then
      { σ with protocols := Function.update σ.protocols uid (some p) }
    else σ
  | some (.pushed _ _) | none => σ

def removeProtocol (uid : UInt32) : Threads :=
  { σ with protocols := Function.update σ.protocols uid none }

/-! ### The network thread -/

/-- `InnerProtocol::create`, of the protocol of a connection by that of its listener. -/
def create (protocol fromProtocol : ProtocolId) : Threads :=
  { σ with msgqueue := Function.update σ.msgqueue protocol (σ.msgqueue fromProtocol) }

def dispatchPacket (p : ProtocolId) (notice : Notice) : Except Fault Threads := do
  let queue ← nonNull (σ.msgqueue p)
  return { σ with
    packets := Function.update σ.packets queue (σ.packets queue ++ [(p, notice)]) }

/-- What a protocol does that is told something.  One that was accepted has been created before. -/
def notified (call : IOProtocol × Notice) : Except Fault Threads :=
  match call.2 with
  | .onAccept fromProtocol => (σ.create call.1.id fromProtocol.id).dispatchPacket call.1.id call.2
  | .onListen _ | .onUnlisten | .onClose | .onConnect _ | .onDisConnect =>
    σ.dispatchPacket call.1.id call.2

/-- What protocols are told between `σ` and `net`. -/
def told (net : CNetwork) : List (IOProtocol × Notice) :=
  net.notices.drop σ.net.notices.length

end

variable [KeyPool] (σ : Threads)

def network (a : Network.Action) : Except Fault Threads := do
  let net ← σ.net.exec a
  (σ.told net).foldlM notified { σ with net }

/-- The engine thread makes the steps of a call one after another, and the other threads keep to what
the network relies on. -/
def Contract : ThreadAction → Prop
  | .listen _ _ key | .connect _ _ key => σ.opening = none ∧ σ.net.Free key
  | .setQueue => ∃ p uid, σ.opening = some (.pushed p uid)
  | .insert => ∃ p uid, σ.opening = some (.queued p uid)
  | .removeProtocol _ => σ.opening = none
  | .network a => ¬a.Publishes ∧ σ.net.Pre a

def exec : ThreadAction → Except Fault Threads
  | .listen port protocol key => return σ.listen port protocol key
  | .connect address protocol key => return σ.connect address protocol key
  | .setQueue => return σ.setQueue
  | .insert => return σ.insert
  | .removeProtocol uid => return σ.removeProtocol uid
  | .network a => σ.network a

/-- A step of one of the threads. -/
def Permitted (a : ThreadAction) (τ : Threads) : Prop := σ.Contract a ∧ σ.exec a = .ok τ

/-- The state after an action that does not fail. -/
def next (a : ThreadAction) : Threads :=
  match σ.exec a with
  | .ok τ => τ
  | .error _ => σ

end Threads

end ZlNet.Engine
