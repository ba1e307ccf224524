import ZlNet.Engine.NetEngine

/-! Runs of a node.  Its steps are those of its engine, with what a node does when the engine calls
it, and the steps that a node has of its own. -/

namespace ZlNet.Engine

open Network Lib.Bytes

inductive NetAction
  | io (action : Action SerializeMessage)
  | onInit
  | setupNode (code type : UInt32) (port : UInt16) (protocol : ProtocolId) (info : List UInt8)
      (key : UInt32) (answer : Option IONotify)
  | connectNode (code type : UInt32) (address : CAddress) (protocol : ProtocolId) (key : UInt32)
  | confirm (uid : UInt32) (polled : Option IONotify)
  | reconnect (code key : UInt32)

namespace NetEngine

section

variable {L : Type} (σ : NetEngine L)

/-- What a node relies on besides the contract of its engine.  Packets come from connections, and
users bind handlers of their own. -/
def IOContract : Action SerializeMessage → Prop
  | .post (.msg packet) => ∃ p ∈ σ.io.outstanding,
      (σ.io.protocol p).key = packet.uid ∧ (σ.io.protocol p).type ≠ .LISTENER
  | .bindPacketHandler _ handler => handler ≠ pingHandler ∧ handler ≠ pongHandler
  | .create | .listen _ _ _ | .connect _ _ _ | .close _ | .send _ | .accept _ _ | .post (.notify _)
  | .dispatch _ | .timeout _ | .recycle _ => True

def Contract : NetAction → Prop
  | .io a => σ.io.Contract a ∧ σ.IOContract a
  | .setupNode _ _ _ p _ key answer => p < σ.io.created ∧ σ.io.Free key ∧
      ∀ n, answer = some n → n.protocol = p ∧ n.uid = key ∧ n.type.about = some .LISTENER
  | .connectNode _ _ _ p key => p < σ.io.created ∧ σ.io.Free key
  | .reconnect _ key => σ.io.Free key
  | .onInit | .confirm _ _ => True

/-- No packet of data waits for the key that the step is given, if it is given one. -/
def Tidy : NetAction → Prop
  | .io (.listen _ _ key) | .io (.connect _ _ key) | .io (.accept key _)
  | .setupNode _ _ _ _ _ key _ | .connectNode _ _ _ _ key | .reconnect _ key => σ.io.Spent key
  | .io _ | .onInit | .confirm _ _ => True

end

variable {L : Type} [IntrusiveNode L] (host : Endian) (σ : NetEngine L)

def init : NetEngine L := { io := IOEngine.init }

def exec : NetAction → Except Fault (NetEngine L)
  | .io (.close uid) => σ.close uid
  | .io (.dispatch packet) =>
    { σ with io := { σ.io with msgqueue := σ.io.msgqueue.tail } }.dispatchIOPacket host packet
  | .io a => do
    let io ← σ.io.exec a
    return { σ with io }
  | .onInit => return σ.onInit
  | .setupNode code type port p info key answer => do
    let (_, σ) ← σ.setupNode host code type port p info key answer
    return σ
  | .connectNode code type address p key => return (σ.connectNode code type address p key).2
  | .confirm uid polled => do
    let (_, σ) ← σ.confirm host uid polled
    return σ
  | .reconnect code key => return σ.reconnectNode code key

/-- A step, which does not fail and keeps to the contract. -/
def Permitted (a : NetAction) (τ : NetEngine L) : Prop :=
  (∀ packet, a = .io (.dispatch packet) → σ.io.msgqueue.head? = some packet) ∧
    σ.exec host a = .ok τ ∧ σ.Contract a

/-- The state after an action that does not fail. -/
def next (a : NetAction) : NetEngine L :=
  match σ.exec host a with
  | .ok τ => τ
  | .error _ => σ

end NetEngine

end ZlNet.Engine
