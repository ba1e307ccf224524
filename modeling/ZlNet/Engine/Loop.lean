import ZlNet.Engine.IOEngine
import ZlNet.Lib.Run

/-! Runs of the engine.  Its users listen, connect, close and send, the network thread appends
packets to the message queue, and the engine handles the oldest packet or makes a turn of the loop
that times callbacks out.  What the code of a handler sends are the next steps of a run. -/

namespace ZlNet.Engine

open Network

inductive Action (μ : Type)
  | create
  | listen (port : UInt16) (protocol : ProtocolId) (key : UInt32)
  | connect (address : CAddress) (protocol : ProtocolId) (key : UInt32)
  | close (uid : UInt32)
  | bindPacketHandler (cmd : UInt32) (handler : Nat)
  | send (request : Request μ)
  | accept (key : UInt32) (fromProtocol : ProtocolId)
  | post (packet : Packet μ)
  | dispatch (packet : Packet μ)
  | timeout (now : Int)
  | recycle (protocol : ProtocolId)

/-- What a notification is for that the network posts to a protocol that has a key.  A
`PacketAccept` is posted where the protocol is made. -/
def EPacketType.about : EPacketType → Option EIOOBJECT_TYPE
  | .PacketListen | .PacketUnlisten => some .LISTENER
  | .PacketConnect | .PacketDisconnect => some .CONNECTOR
  | .PacketClose => some .SESSION
  | .PacketAccept => none

def Packet.notice {μ : Type} : Packet μ → Option IONotify
  | .notify n => some n
  | .msg _ => none

namespace IOEngine

section

variable {L μ : Type} (σ : IOEngine L μ)

/-- A user takes a protocol from its pool. -/
def create : IOEngine L μ := { σ.setProtocol σ.created {} with created := σ.created + 1 }

def bindPacketHandler (cmd : UInt32) (handler : Nat) : IOEngine L μ :=
  match σ.packetHandlers cmd with
  | some _ => σ
  | none => { σ with packetHandlers := Function.update σ.packetHandlers cmd (some handler) }

/-- The network thread accepts a connection, makes its protocol, and posts that it did. -/
def accept (key : UInt32) (fromProtocol : ProtocolId) : IOEngine L μ :=
  let p := σ.created
  let σ := σ.setProtocol p { type := .SESSION, key }
  let σ := { σ with created := p + 1, outstanding := p :: σ.outstanding }
  σ.postPacket (.notify ⟨.PacketAccept, key, p, some fromProtocol, true⟩)

/-- The last reference to a protocol has gone, and its key is returned. -/
def recycle (p : ProtocolId) : IOEngine L μ := { σ with outstanding := σ.outstanding.erase p }

/-- A key that the pool of the network can give: 0, or one that no protocol owns. -/
def Free (key : UInt32) : Prop := key = 0 ∨ ∀ p ∈ σ.outstanding, (σ.protocol p).key ≠ key

/-- No packet of data that waits is for this key, from a connection that had it before. -/
def Spent (key : UInt32) : Prop := key = 0 ∨ ∀ packet, .msg packet ∈ σ.msgqueue → packet.uid ≠ key

/-- What the network thread and the owners of protocols keep to.  Keys are not shared, a protocol is
made for each connection that is accepted, the network tells a listener, a session or a connector
what is for one, as long as the protocol is there, and a protocol is recycled when neither the
table nor a packet has it. -/
def Contract : Action μ → Prop
  | .listen _ p key | .connect _ p key => p < σ.created ∧ σ.Free key
  | .accept key _ => key ≠ 0 ∧ σ.Free key
  | .post (.notify n) => n.protocol ∈ σ.outstanding ∧ n.uid = (σ.protocol n.protocol).key ∧
      n.type.about = some (σ.protocol n.protocol).type
  | .recycle p => (∀ uid, σ.protocols uid ≠ some p) ∧
      ∀ n ∈ σ.msgqueue.filterMap Packet.notice, n.protocol ≠ p ∧ n.fromProtocol ≠ some p
  | .create | .close _ | .bindPacketHandler _ _ | .send _ | .post (.msg _) | .dispatch _
  | .timeout _ => True

end

variable {L μ : Type} [IntrusiveNode L] (σ : IOEngine L μ)

def init : IOEngine L μ := { callbackTimeOutList := IntrusiveNode.empty }

def exec : Action μ → Except Fault (IOEngine L μ)
  | .create => return σ.create
  | .listen port p key => return σ.listen port p key
  | .connect address p key => return σ.connect address p key
  | .close uid => σ.close uid
  | .bindPacketHandler cmd handler => return σ.bindPacketHandler cmd handler
  | .send request => σ.send request
  | .accept key fromProtocol => return σ.accept key fromProtocol
  | .post packet => return σ.postPacket packet
  | .dispatch packet => { σ with msgqueue := σ.msgqueue.tail }.dispatchIOPacket packet
  | .timeout now => return (σ.timeoutFront now).getD σ
  | .recycle p => return σ.recycle p

/-- A step, which does not fail.  The packet that is handled is the oldest of the queue. -/
def Step (a : Action μ) (τ : IOEngine L μ) : Prop :=
  (∀ packet, a = .dispatch packet → σ.msgqueue.head? = some packet) ∧ σ.exec a = .ok τ

/-- A step that keeps to the contract. -/
def Permitted (a : Action μ) (τ : IOEngine L μ) : Prop := σ.Step a τ ∧ σ.Contract a

/-- The state after an action that does not fail. -/
def next (a : Action μ) : IOEngine L μ :=
  match σ.exec a with
  | .ok τ => τ
  | .error _ => σ

/-- The steps of the loop of `onTimerCallbackTimeout`, a turn and the sends of the handler that was
called, again and again. -/
def timeoutActions (now : Int) (requests : List (List (Request μ))) : List (Action μ) :=
  requests.flatMap fun sends => .timeout now :: sends.map .send

end IOEngine

end ZlNet.Engine
