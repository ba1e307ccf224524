import ZlNet.Engine.NodeLoop
import ZlNet.Engine.Proof.Messages

/-! Nodes that are connected with one another.  A node takes steps of its own, a connection joins a
connector of one node with a session of another, and the packets that one end sends arrive at the
other in their order, as many of them as arrive before the connection is closed. -/

namespace ZlNet.Engine

open Network Lib.Bytes

/-- The packet that an event hands to the network, with the key it is sent to. -/
def Event.data? {μ : Type} : Event μ → Option (UInt32 × IOPacket μ)
  | .data key packet => some (key, packet)
  | .listen _ _ | .connect _ _ | .close _ => none

/-- The packets that the engine has handed to the network. -/
def IOEngine.sends {L μ : Type} (σ : IOEngine L μ) : List (UInt32 × IOPacket μ) :=
  σ.events.filterMap Event.data?

/-- The node's own code and type. -/
def NetEngine.Owns {L : Type} (σ : NetEngine L) (code type : UInt32) : Prop :=
  σ.nodeCode = code ∧ σ.nodeType = type

/-- The bytes of a packet's message. -/
def IOPacket.body (packet : IOPacket SerializeMessage) : List UInt8 :=
  (packet.message.map (·.buffer)).getD []

/-- An end of a connection: a node, and the protocol that its engine has for the connection. -/
abbrev End (N : Type) := N × ProtocolId

/-- A step that a node has taken, with its engine before and after. -/
structure Deed (N L : Type) where
  node : N
  before : NetEngine L
  after : NetEngine L

namespace Deed

variable {N L : Type} (d : Deed N L)

/-- What the step has sent, with the protocols of the connections. -/
def sent : List (ProtocolId × IOPacket SerializeMessage) :=
  (d.after.io.sends.drop d.before.io.sends.length).filterMap fun send =>
    (d.before.io.getProtocol send.1).map (·, send.2)

/-- The calls of the step that tell of a peer. -/
def calls : List (ProtocolId × NodeCall) := d.after.nodeCalls.drop d.before.nodeCalls.length

/-- The node's own code and type, before the step and after it. -/
def Own (code type : UInt32) : Prop := d.before.Owns code type ∧ d.after.Owns code type

/-- The step sends a ping on the connection of `p`, from a node of this code and type. -/
structure Pings (p : ProtocolId) (code type : UInt32) : Prop where
  own : d.Own code type
  sends : ∃ packet, (p, packet) ∈ d.sent ∧ packet.cmd = Ping

/-- The step registers a node of this code and type as the peer of `p`, tells its users so, and sends a
pong. -/
structure Accepts (p : ProtocolId) (code type : UInt32) : Prop where
  registers : ∃ uid n, d.after.io.protocols uid = some p ∧ d.before.peersByUid uid = none ∧
    d.after.peersByUid uid = some n ∧ (d.after.node n).code = code ∧ (d.after.node n).type = type ∧
    (p, .onNodeConnect uid code type) ∈ d.calls
  sends : ∃ packet, (p, packet) ∈ d.sent ∧ packet.cmd = Pong

end Deed

/-- The nodes, the connections between them, what each end of one has sent that has not arrived, and
the steps of nodes so far. -/
structure Cluster (N L : Type) where
  engine : N → NetEngine L
  peer : End N → Option (End N) := fun _ => none
  wire : End N → List (IOPacket SerializeMessage) := fun _ => []
  journal : List (Deed N L) := []

/-- Before the step `k` the node of `e` sent a ping, with its own code and type, and after that the node
of `e'` accepted it, and sent a pong with its own code and type. -/
def Cluster.Accepted {N L : Type} (c : Cluster N L) (e e' : End N) (code type code' type' : UInt32)
    (k : Nat) : Prop :=
  ∃ k₁ ping k₂ accept, k₁ < k₂ ∧ k₂ < k ∧
    c.journal[k₁]? = some ping ∧ ping.node = e.1 ∧ ping.Pings e.2 code type ∧
    c.journal[k₂]? = some accept ∧ accept.node = e'.1 ∧ accept.Accepts e'.2 code type ∧
    accept.Own code' type'

inductive ClusterAction (N : Type)
  | act (node : N) (action : NetAction)
  | join (connector session : End N)
  | deliver (sender : End N)
  | lose (sender : End N)

/-- No packet of data waits for the key that a node is given, if one is given one. -/
def Cluster.Tidy {N L : Type} (c : Cluster N L) (a : ClusterAction N) : Prop :=
  ∀ i b, a = .act i b → (c.engine i).Tidy b

/-- What an honest node does.  Its users leave pings and pongs to the engine, and packets of data
come from connections. -/
def NetAction.Honest : NetAction → Prop
  | .io (.send r) => r.packet.cmd ≠ Ping ∧ r.packet.cmd ≠ Pong
  | .io (.post (.msg _)) => False
  | .io _ | .onInit | .setupNode _ _ _ _ _ _ _ | .connectNode _ _ _ _ _ | .confirm _ _
  | .reconnect _ _ => True

namespace Cluster

section

variable {N L : Type} [DecidableEq N] (c : Cluster N L)

/-- The node `i` takes a step to `τ`. -/
def act (i : N) (τ : NetEngine L) : Cluster N L :=
  let deed : Deed N L := ⟨i, c.engine i, τ⟩
  { c with
    engine := Function.update c.engine i τ
    wire := fun e => if e.1 = i
      then c.wire e ++ (deed.sent.filter (·.1 = e.2)).map (·.2) else c.wire e
    journal := c.journal ++ [deed] }

def join (connector session : End N) : Cluster N L :=
  { c with
    peer := Function.update (Function.update c.peer connector (some session)) session
      (some connector) }

/-- The engine of a node once its network thread has read a frame.  Nothing comes of a heartbeat. -/
def read (j : N) (dispatch : Dispatch) : NetEngine L :=
  match dispatch with
  | .packet packet => { c.engine j with io := (c.engine j).io.postPacket (.msg packet) }
  | .heart => c.engine j

/-- The oldest packet from `sender` arrives at `j`, and `rest` is still on its way. -/
def deliver (sender : End N) (j : N) (rest : List (IOPacket SerializeMessage))
    (dispatch : Dispatch) : Cluster N L :=
  { c with
    engine := Function.update c.engine j (c.read j dispatch)
    wire := Function.update c.wire sender rest }

/-- The oldest packet from `sender` does not arrive. -/
def lose (sender : End N) (rest : List (IOPacket SerializeMessage)) : Cluster N L :=
  { c with wire := Function.update c.wire sender rest }

end

variable {N L : Type} [DecidableEq N] [IntrusiveNode L] (host : N → Endian)

def init : Cluster N L := { engine := fun _ => .init }

/-- A step of a cluster whose nodes are honest.  Packets arrive in their order, each as what is read of
the frame that it was sent as.  Some do not arrive: nothing is sent for a packet that is addressed to
nobody, what is sent to a connection that has gone is dropped, and `tcpSend` takes the size of a frame
as an `int32`, so that it must be below 2^31. -/
inductive Step (c : Cluster N L) : ClusterAction N → Cluster N L → Prop
  | act {i : N} {a : NetAction} {τ : NetEngine L} (honest : a.Honest)
      (step : (c.engine i).Permitted (host i) a τ) : Step c (.act i a) (c.act i τ)
  | join {i j : N} {p q : ProtocolId} (hp : p ∈ (c.engine i).io.outstanding)
      (hconnector : ((c.engine i).io.protocol p).type = .CONNECTOR) (hfirst : c.peer (i, p) = none)
      (hq : q ∈ (c.engine j).io.outstanding)
      (hsession : ((c.engine j).io.protocol q).type = .SESSION) (hfirst' : c.peer (j, q) = none) :
      Step c (.join (i, p) (j, q)) (c.join (i, p) (j, q))
  | deliver {sender : End N} {packet : IOPacket SerializeMessage}
      {rest : List (IOPacket SerializeMessage)} {j : N} {q : ProtocolId} {frame : List UInt8}
      {dispatch : Dispatch} (hwire : c.wire sender = packet :: rest)
      (hpeer : c.peer sender = some (j, q)) (hq : q ∈ (c.engine j).io.outstanding)
      (hsend : sendFrame (host sender.1) packet.outgoing = .ok frame)
      (hshort : (frameOf packet.outgoing packet.body).length < 2 ^ 31)
      (hread : nextFrame ((c.engine j).io.protocol q).key frame = .item dispatch []) :
      Step c (.deliver sender) (c.deliver sender j rest dispatch)
  | lose {sender : End N} {packet : IOPacket SerializeMessage}
      {rest : List (IOPacket SerializeMessage)} (hwire : c.wire sender = packet :: rest) :
      Step c (.lose sender) (c.lose sender rest)

end Cluster

end ZlNet.Engine
