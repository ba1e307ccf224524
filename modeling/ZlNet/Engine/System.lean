import ZlNet.Engine.Frame
import ZlNet.Engine.Loop
import ZlNet.Network.Proof.Told
import ZlNet.Network.Wakeup

/-! The engine and the network thread of one process.  What the engine asks for goes through the event
queue of the network, and what protocols are told and what they read through the message queue of the
engine.  A call of `listen` or `connect` is one step here, with the queue of its protocol set.  The
protocols are `InnerProtocol`s for TCP, of no group. -/

namespace ZlNet.Engine

open Network Lib

/-- What `onUnserialize` hands on of the bytes in a buffer, and what it returns with the rest of them.
A connection whose bytes it rejects is closed, and nothing reads them again. -/
def InnerProtocol.unserialize (key : UInt32) (buffer : IIOBuffer) :
    List Dispatch × Except Fault (Bool × IIOBuffer) :=
  match (frames key).drain buffer.bytes with
  | (es, .waiting rest) => (es, .ok (true, ⟨rest⟩))
  | (es, .halted .rejected) => (es, .ok (false, .new))
  | (es, .halted (.aborted f)) => (es, .error f)

/-- The notification that a protocol posts when it is told something. -/
def notification (p : IOProtocol) : Notice → IONotify
  | .onListen success => ⟨.PacketListen, p.key, p.id, none, success⟩
  | .onUnlisten => ⟨.PacketUnlisten, p.key, p.id, none, false⟩
  | .onAccept fromProtocol => ⟨.PacketAccept, p.key, p.id, some fromProtocol.id, true⟩
  | .onClose => ⟨.PacketClose, p.key, p.id, none, false⟩
  | .onConnect success => ⟨.PacketConnect, p.key, p.id, none, success⟩
  | .onDisConnect => ⟨.PacketDisconnect, p.key, p.id, none, false⟩

/-- The packet that a protocol posts of what it reads, if it is not a heartbeat. -/
def Dispatch.message : Dispatch → Option (IOPacket SerializeMessage)
  | .packet p => some p
  | .heart => none

/-- What the network is asked for with an event of the engine.  For a protocol it takes the key that
the engine got for it. -/
def Event.pushed {μ : Type} (protocol : ProtocolId → Protocol) (net : CNetwork) : Event μ → CNetwork
  | .listen port p => net.listen port p .TCP 0 (protocol p).key
  | .connect address p => net.connect address p .TCP 0 (protocol p).key
  | .data key _ => net.pushEvent (.data key)
  | .close key => net.pushEvent (.close key)

/-- A protocol posts what it is told.  That of a connection that is accepted has just been made. -/
def IOEngine.notified {L μ : Type} (σ : IOEngine L μ) (call : IOProtocol × Notice) : IOEngine L μ :=
  match call.2 with
  | .onAccept fromProtocol => σ.accept call.1.key fromProtocol.id
  | .onListen _ | .onUnlisten | .onClose | .onConnect _ | .onDisConnect =>
    σ.postPacket (.notify (notification call.1 call.2))

structure System (L : Type) where
  engine : IOEngine L SerializeMessage
  net : CNetwork := {}

/-- A step of a user of the engine or of the engine, a call of `confirmListen` or `confirmConnect` from
the moment when its wait is over, a step of the network thread, a call of `CNetwork::clear`, or the last
owner of a protocol going. -/
inductive SystemAction
  | engine (action : Action SerializeMessage)
  | confirmListen (uid : UInt32)
  | confirmConnect (uid : UInt32)
  | network (action : Network.Action)
  | clear (group : Int)
  | recycle (protocol : ProtocolId)

namespace System

section

variable {L : Type} (σ : System L)

/-- The events that the engine has queued since are handed to the network. -/
def asks (engine : IOEngine L SerializeMessage) : System L where
  engine := engine
  net := (engine.events.drop σ.engine.events.length).foldl (Event.pushed engine.protocol) σ.net

/-- What is told and read goes to the message queue: first the packets, and then what `net` has told
since. -/
def hears (packets : List (IOPacket SerializeMessage)) (net : CNetwork) : System L where
  engine := (net.notices.drop σ.net.notices.length).foldl IOEngine.notified
    (packets.foldl (fun engine packet => engine.postPacket (.msg packet)) σ.engine)
  net := net

/-- What protocols answer: how they read their buffers, the protocol for a connection that is accepted
if one can be made, and that the periodic timer goes on. -/
def answers (key : UInt32) (ans : Answers) : Answers :=
  { ans with
    onUnserialize := fun buffer =>
      match (InnerProtocol.unserialize key buffer).2 with
      | .ok result => result
      | .error _ => (false, buffer)
    created := ans.created.map fun _ => σ.engine.created
    onTimer := true }

/-- The action with the answers of the protocols. -/
def answered : Network.Action → Network.Action
  | .dispatch ans => .dispatch (σ.answers 0 ans)
  | .poll key event ans => .poll key event (σ.answers key ans)
  | .fire con timer ans => .fire con timer (σ.answers 0 ans)
  | .listen port id protocolType group key => .listen port id protocolType group key
  | .connect address id protocolType group key => .connect address id protocolType group key
  | .push event => .push event
  | .pushKey key => .pushKey key
  | .recycle object => .recycle object

end

section

variable {L : Type} [KeyPool] (σ : System L)

/-- The receive buffer that a record makes a connection unserialize, with what it has just read. -/
def input (key : UInt32) (event : Record) (ans : Answers) : Option IIOBuffer :=
  match (σ.net.getObject key).bind σ.net.heap with
  | none => none
  | some o =>
    if event.err || !((event.readable || event.hup) && o.hasReading) then none
    else if o.readCallback = some .handleTcpConRead then
      match ans.readv with
      | some (b :: bytes) => some ⟨o.inputBuffer.bytes ++ b :: bytes⟩
      | some [] | none => none
    else none

/-- The packets that a step reads, or the fault of reading them. -/
def received : Network.Action → Except Fault (List (IOPacket SerializeMessage))
  | .poll key event ans =>
    match σ.input key event ans with
    | none => return []
    | some buffer => do
      let _ ← (InnerProtocol.unserialize key buffer).2
      return (InnerProtocol.unserialize key buffer).1.filterMap Dispatch.message
  | .dispatch _ | .fire _ _ _ | .listen _ _ _ _ _ | .connect _ _ _ _ _ | .push _ | .pushKey _
  | .recycle _ => return []

/-- A step of the network thread. -/
def network (a : Network.Action) : Except Fault (System L) := do
  let net ← σ.net.exec (σ.answered a)
  let packets ← σ.received a
  return σ.hears packets net

/-- The protocol `p` has gone, and its key is returned. -/
def recycle (p : ProtocolId) : System L where
  engine := σ.engine.recycle p
  net := σ.net.pushKey (σ.engine.protocol p).key

/-- What users, the operating system and the key pool keep to: keys that are given are free, data is
sent to connections and not to listeners, a record is reported for an object that is registered, and
nothing is recycled as long as there is a reference to it. -/
def Contract : SystemAction → Prop
  | .engine (.listen _ p key) | .engine (.connect _ p key) =>
    p < σ.engine.created ∧ σ.net.Free key
  | .engine (.send r) =>
    ∀ p, σ.engine.protocols r.packet.uid = some p → (σ.engine.protocol p).type ≠ .LISTENER
  | .engine .create | .engine (.close _) | .engine (.bindPacketHandler _ _)
  | .engine (.timeout _) => True
  | .engine (.dispatch packet) => σ.engine.msgqueue.head? = some packet
  | .engine (.accept _ _) | .engine (.post _) | .engine (.recycle _) => False
  | .confirmListen _ | .confirmConnect _ => True
  | .network (.dispatch ans) => CNetwork.WriteFits ans
  | .network (.poll key _ ans) => σ.net.Free ans.key ∧ σ.net.Found key fun o => o.events ≠ 0
  | .network (.fire con timer _) => ∃ o, σ.net.heap con = some o ∧ timer ∈ o.timers
  | .network (.recycle object) => ∀ i, σ.net.objects i ≠ some object
  | .network (.listen _ _ _ _ _) | .network (.connect _ _ _ _ _) | .network (.push _)
  | .network (.pushKey _) => False
  | .clear _ => True
  | .recycle p => p ∈ σ.engine.outstanding ∧ (∀ uid, σ.engine.protocols uid ≠ some p) ∧
      (∀ n ∈ σ.engine.msgqueue.filterMap Packet.notice, n.protocol ≠ p ∧ n.fromProtocol ≠ some p) ∧
      ∀ q, σ.net.Known q → q.id ≠ p

end

variable {L : Type} [KeyPool] [IntrusiveNode L] (σ : System L)

/-- The network thread adds its wake-up object, with the key and the socket that it gets, before anything
else happens. -/
def init (key : UInt32) (socket : Int) : Except Fault (System L) := do
  let net ← CNetwork.init {} key socket
  return { engine := .init, net }

def exec : SystemAction → Except Fault (System L)
  | .engine a => do
    let engine ← σ.engine.exec a
    return σ.asks engine
  | .confirmListen uid => do
    let (_, engine) ← σ.engine.confirmListen uid
    return σ.asks engine
  | .confirmConnect uid => do
    let (_, engine) ← σ.engine.confirmConnect uid
    return σ.asks engine
  | .network a => σ.network a
  | .clear group => return { σ with net := σ.net.pushEvent (.clear group) }
  | .recycle p => return σ.recycle p

def Step (a : SystemAction) (τ : System L) : Prop := σ.Contract a ∧ σ.exec a = .ok τ

/-- The state after an action that does not fail. -/
def next (a : SystemAction) : System L :=
  match σ.exec a with
  | .ok τ => τ
  | .error _ => σ

end System

end ZlNet.Engine
