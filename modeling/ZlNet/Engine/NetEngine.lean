import ZlNet.Engine.Loop
import ZlNet.Engine.Serializes

/-! `NetEngine`, the engine of a server that is a node among others.  It keeps the nodes that it is to
be connected with, the connections that wait for a ping or a pong, and the peers that have sent
theirs.  What the engine calls of its users comes first here and the functions that override it
after, for the engine does nothing more that they could see. -/

namespace ZlNet.Engine

open Network Lib.Bytes

abbrev NodeId := Nat

structure Node where
  uid : UInt32 := 0
  code : UInt32 := 0
  type : UInt32 := 0
  address : CAddress := ⟨INADDR_ANY, 0⟩
  info : List UInt8 := []
  deriving DecidableEq, Repr

/-- The virtual functions that tell of a peer. -/
inductive NodeCall
  | onNodeConnect (uid code type : UInt32)
  | onNodeDisConnect (uid : UInt32)
  deriving DecidableEq, Repr

/-- `MsgCmd::Ping` and `MsgCmd::Pong`. -/
def Ping : UInt32 := 2

def Pong : UInt32 := 3

/-- The packet handlers that `onInit` makes. -/
def pingHandler : Nat := 0

def pongHandler : Nat := 1

/-- What a ping or a pong says. -/
structure Handshake where
  fromCode : UInt32 := 0
  fromType : UInt32 := 0
  info : List UInt8 := []
  toCode : UInt32 := 0
  toType : UInt32 := 0
  deriving DecidableEq, Repr

namespace Handshake

@[reducible] def types : List Ty :=
  [.int .uint32, .int .uint32, .string, .int .uint32, .int .uint32]

def vals (h : Handshake) : Vals types :=
  (h.fromCode, h.fromType, h.info, h.toCode, h.toType, ())

def ofVals : Vals types → Handshake
  | (fromCode, fromType, info, toCode, toType, _) => { fromCode, fromType, info, toCode, toType }

/-- The message that a handshake is packed in. -/
def pack (host : Endian) (h : Handshake) : Except Fault SerializeMessage := do
  let writer ← writeAll host types ⟨Buffer.new 128, 0⟩ h.vals
  return ⟨0, writer.buf.content⟩

/-- What `unpack` leaves in the variables of a handler.  There is no vector to find memory for. -/
def unpack (host : Endian) (msg : SerializeMessage) : Except Fault Handshake :=
  let x := (Engine.unpack host (fun _ _ => true) types ⟨msg.buffer, 0⟩ (vals {})).read
  match x.stop with
  | some (.fault f) => throw f
  | some .exception | none => return ofVals x.target

end Handshake

/-- The engine of a node, with all nodes there are.  `nodeCalls` are the calls that tell of peers, with
the protocols of their connections. -/
structure NetEngine (L : Type) where
  io : IOEngine L SerializeMessage
  nodeUid : UInt32 := 0
  nodeCode : UInt32 := 0
  nodeType : UInt32 := 0
  nodeInfo : List UInt8 := []
  connetNodes : UInt32 → Option NodeId := fun _ => none
  connectingNodes : UInt32 → Option NodeId := fun _ => none
  accpetedNodes : UInt32 → Bool := fun _ => false
  peersByUid : UInt32 → Option NodeId := fun _ => none
  node : NodeId → Node := fun _ => {}
  nodes : Nat := 0
  nodeCalls : List (ProtocolId × NodeCall) := []

namespace IOEngine

/-- What `listen` and `connect` return. -/
def opens {L μ : Type} (σ : IOEngine L μ) (p : ProtocolId) (key : UInt32) : UInt32 :=
  if (σ.protocol p).key ≠ 0 then 0
  else if σ.protocols key = none then key else 0

end IOEngine

namespace NetEngine

variable {L : Type}

section

variable (σ : NetEngine L)

def setNode (n : NodeId) (node : Node) : NetEngine L :=
  { σ with node := Function.update σ.node n node }

def nodeCall (p : ProtocolId) (call : NodeCall) : NetEngine L :=
  { σ with nodeCalls := σ.nodeCalls ++ [(p, call)] }

/-! ### Connections that go -/

/-- What `onClose` and `onDisconnect` do to a peer. -/
def removePeer (p : ProtocolId) (uid : UInt32) : NetEngine L :=
  match σ.peersByUid uid with
  | none => σ
  | some n =>
    let σ := σ.nodeCall p (.onNodeDisConnect uid)
    let σ := σ.setNode n { σ.node n with uid := 0 }
    { σ with peersByUid := Function.update σ.peersByUid uid none }

def onUnlisten (uid : UInt32) : NetEngine L :=
  if uid = σ.nodeUid then { σ with nodeUid := 0, nodeCode := 0, nodeType := 0, nodeInfo := [] }
  else σ

def onClose (p : ProtocolId) (uid : UInt32) : NetEngine L :=
  let σ := { σ with accpetedNodes := Function.update σ.accpetedNodes uid false }
  σ.removePeer p uid

def onDisconnect (p : ProtocolId) (uid : UInt32) : NetEngine L :=
  let σ := match σ.connectingNodes uid with
    | none => σ
    | some n =>
      let σ := { σ with connectingNodes := Function.update σ.connectingNodes uid none }
      σ.setNode n { σ.node n with uid := 0 }
  σ.removePeer p uid

/-- The function that overrides what is called when a connection has gone. -/
def gone (call : ProtocolId × Upcall) : NetEngine L :=
  match call.2 with
  | .onUnlisten uid => σ.onUnlisten uid
  | .onClose uid => σ.onClose call.1 uid
  | .onDisconnect uid => σ.onDisconnect call.1 uid
  | .onListen _ _ | .onAccept _ _ | .onConnect _ _ => σ

/-- What is called of users between `σ` and `io`. -/
def called (io : IOEngine L SerializeMessage) : List (ProtocolId × Upcall) :=
  io.upcalls.drop σ.io.upcalls.length

def close (uid : UInt32) : Except Fault (NetEngine L) := do
  let io ← σ.io.close uid
  return (σ.called io).foldl gone { σ with io }

/-! ### New nodes -/

/-- `connectNode`, with the key that the network's pool gives, and what it returns. -/
def connectNode (code type : UInt32) (address : CAddress) (p : ProtocolId) (key : UInt32) :
    UInt32 × NetEngine L :=
  match σ.connetNodes code with
  | some _ => (0, σ)
  | none =>
    let uid := σ.io.opens p key
    let n := σ.nodes
    let σ := { σ with
      io := σ.io.connect address p key
      node := Function.update σ.node n { uid, code, type, address }
      nodes := n + 1
      connetNodes := Function.update σ.connetNodes code (some n) }
    if uid ≠ 0 ∧ σ.connectingNodes uid = none then
      (uid, { σ with connectingNodes := Function.update σ.connectingNodes uid (some n) })
    else (uid, σ)

/-- What a turn of the loop of `onTimer1000ms` does for a node. -/
def reconnect (n : NodeId) (key : UInt32) : NetEngine L :=
  if (σ.node n).uid ≠ 0 then σ
  else
    let p := σ.io.created
    let io := σ.io.create
    let uid := io.opens p key
    let σ := { σ with io := io.connect (σ.node n).address p key }
    let σ := σ.setNode n { σ.node n with uid }
    if uid ≠ 0 then { σ with connectingNodes := Function.update σ.connectingNodes uid (some n) }
    else σ

/-- The turn for the code `code`. -/
def reconnectNode (code key : UInt32) : NetEngine L :=
  match σ.connetNodes code with
  | none => σ
  | some n => σ.reconnect n key

/-- The loop of `onTimer1000ms`, for the codes of the nodes in their order, with a key for each. -/
def reconnectNodes (codes : List UInt32) (keys : UInt32 → UInt32) : NetEngine L :=
  codes.foldl (fun σ code => σ.reconnectNode code (keys code)) σ

end

/-! ### New connections -/

variable [IntrusiveNode L] (host : Endian) (σ : NetEngine L)

def send (packet : IOPacket SerializeMessage) : Except Fault (NetEngine L) := do
  let io ← σ.io.send ⟨none, packet, 0⟩
  return { σ with io }

omit [IntrusiveNode L] in
def onAccept (uid fromUid : UInt32) : Except Fault (NetEngine L) :=
  if σ.nodeUid = fromUid then
    if σ.accpetedNodes uid then σ.close uid
    else return { σ with accpetedNodes := Function.update σ.accpetedNodes uid true }
  else return σ

def onConnect (uid : UInt32) (success : Bool) : Except Fault (NetEngine L) :=
  match σ.connectingNodes uid with
  | none => return σ
  | some n =>
    if success then do
      let node := σ.node n
      let msg ← Handshake.pack host ⟨σ.nodeCode, σ.nodeType, σ.nodeInfo, node.code, node.type⟩
      σ.send ⟨node.uid, Ping, 0, 0, some msg⟩
    else return σ

/-- The function that overrides what is called of users. -/
def upcall (call : ProtocolId × Upcall) : Except Fault (NetEngine L) :=
  match call.2 with
  | .onAccept uid fromUid => σ.onAccept uid fromUid
  | .onConnect uid success => σ.onConnect host uid success
  | .onListen _ _ | .onUnlisten _ | .onClose _ | .onDisconnect _ => return σ.gone call

/-- `handlerNodePing`, for a packet of the connection of `p`. -/
def handlerNodePing (p : ProtocolId) (packet : IOPacket SerializeMessage) :
    Except Fault (NetEngine L) :=
  let uid := packet.uid
  match packet.message with
  | none => σ.close uid
  | some msg => do
    let ping ← Handshake.unpack host msg
    if ping.toCode ≠ σ.nodeCode ∨ ping.toType ≠ σ.nodeType then σ.close uid
    else if σ.accpetedNodes uid = false then σ.close uid
    else if σ.peersByUid uid ≠ none then σ.close uid
    else
      let n := σ.nodes
      let node : Node := { uid, code := ping.fromCode, type := ping.fromType, info := ping.info }
      let σ := { σ.setNode n node with
        nodes := n + 1
        peersByUid := Function.update σ.peersByUid uid (some n) }
      let pong ← Handshake.pack host ⟨σ.nodeCode, σ.nodeType, σ.nodeInfo, node.code, node.type⟩
      let σ ← σ.send ⟨node.uid, Pong, 0, 0, some pong⟩
      return σ.nodeCall p (.onNodeConnect uid ping.fromCode ping.fromType)

omit [IntrusiveNode L] in
/-- `handlerNodePong`, like `handlerNodePing`. -/
def handlerNodePong (p : ProtocolId) (packet : IOPacket SerializeMessage) :
    Except Fault (NetEngine L) :=
  let uid := packet.uid
  match packet.message with
  | none => σ.close uid
  | some msg => do
    let pong ← Handshake.unpack host msg
    if pong.toCode ≠ σ.nodeCode ∨ pong.toType ≠ σ.nodeType then σ.close uid
    else match σ.connectingNodes uid with
    | none => σ.close uid
    | some n =>
      let node := σ.node n
      let σ := { σ with accpetedNodes := Function.update σ.accpetedNodes uid false }
      if node.code ≠ pong.fromCode ∨ node.type ≠ pong.fromType then σ.close uid
      else if σ.peersByUid uid ≠ none then σ.close uid
      else
        let σ := { σ with peersByUid := Function.update σ.peersByUid uid (some n) }
        let σ := σ.setNode n { node with info := pong.info }
        return σ.nodeCall p (.onNodeConnect uid node.code node.type)

/-- A call of a packet handler.  What the handlers of users do is not in it. -/
def handle (call : Nat × IOPacket SerializeMessage) : Except Fault (NetEngine L) :=
  match σ.io.getProtocol call.2.uid with
  | none => return σ
  | some p =>
    if call.1 = pingHandler then σ.handlerNodePing host p call.2
    else if call.1 = pongHandler then σ.handlerNodePong host p call.2
    else return σ

def dispatchIOPacket (packet : Packet SerializeMessage) : Except Fault (NetEngine L) := do
  let io ← σ.io.dispatchIOPacket packet
  let σ' ← (σ.called io).foldlM (fun σ call => σ.upcall host call) { σ with io }
  (io.dispatched.drop σ.io.dispatched.length).foldlM (fun σ call => σ.handle host call) σ'

/-! ### Confirmed nodes -/

/-- `pollOnePacket`, of `confirmListen` and `confirmConnect`: handles `polled`, if that is about `p`
and waits in the queue.  There is nothing if none came in time. -/
def pollOnePacket (p : ProtocolId) (polled : Option IONotify) : Except Fault (NetEngine L) :=
  match polled with
  | none => return σ
  | some n =>
    if n.protocol = p ∧ .notify n ∈ σ.io.msgqueue then
      let io := { σ.io with msgqueue := σ.io.msgqueue.erase (.notify n) }
      { σ with io }.dispatchIOPacket host (.notify n)
    else return σ

/-- What `confirmListen` and `confirmConnect` do. -/
def confirm (uid : UInt32) (polled : Option IONotify) : Except Fault (Bool × NetEngine L) :=
  match σ.io.getProtocol uid with
  | none => return (false, σ)
  | some p =>
    if (σ.io.protocol p).available then return (true, σ)
    else do
      let σ ← σ.pollOnePacket host p polled
      if (σ.io.protocol p).available then return (true, σ)
      else return (false, { σ with io := (σ.io.removeProtocol uid).pushEvent (.close uid) })

def confirmListen (uid : UInt32) (polled : Option IONotify) : Except Fault (Bool × NetEngine L) :=
  σ.confirm host uid polled

def confirmConnect (uid : UInt32) (polled : Option IONotify) : Except Fault (Bool × NetEngine L) :=
  σ.confirm host uid polled

/-- What the network posts about a listener while `setupNode` waits for it. -/
def answered (answer : Option IONotify) : NetEngine L :=
  match answer with
  | none => σ
  | some n => { σ with io := σ.io.postPacket (.notify n) }

/-- `setupNode`, with the key for the listener and the answer that comes in time, and what it
returns. -/
def setupNode (code type : UInt32) (port : UInt16) (p : ProtocolId) (info : List UInt8)
    (key : UInt32) (answer : Option IONotify) : Except Fault (UInt32 × NetEngine L) :=
  if σ.nodeUid ≠ 0 then return (0, σ)
  else do
    let nodeUid := σ.io.opens p key
    let σ := { σ with
      io := σ.io.listen port p key
      nodeUid
      nodeCode := code
      nodeType := type
      nodeInfo := info }
    if nodeUid = 0 then return (0, σ)
    else
      let (confirmed, σ) ← (σ.answered answer).confirmListen host nodeUid answer
      if confirmed then return (σ.nodeUid, σ) else return (0, { σ with nodeUid := 0 })

omit [IntrusiveNode L] in
/-- What `onInit` binds. -/
def onInit : NetEngine L :=
  { σ with io := (σ.io.bindPacketHandler Ping pingHandler).bindPacketHandler Pong pongHandler }

end NetEngine

end ZlNet.Engine
