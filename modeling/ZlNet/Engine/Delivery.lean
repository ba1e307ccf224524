import ZlNet.Engine.Cluster
import ZlNet.Engine.System
import ZlNet.Network.Proof.PipesRun

/-! Processes and the connections between them.  The packets that an engine sends go through the
event queue of its network thread to the sockets of its connections, what a socket has taken arrives
at the other end, some bytes at a time, and what is read there goes to the message queue of the
engine.  Any number of processes make their steps in any order. -/

namespace ZlNet.Engine

open Network Lib Lib.Bytes

/-! ### Packets -/

/-- Those of the packets `sends` that were sent under this key, which several connections may have had,
one after the other. -/
def sendsTo {μ : Type} (key : UInt32) (sends : List (UInt32 × IOPacket μ)) : List (IOPacket μ) :=
  (sends.filter fun s => s.1 = key).map Prod.snd

namespace IOPacket

/-- The frame that a packet is sent as. -/
def frame (packet : IOPacket SerializeMessage) : List UInt8 :=
  frameOf packet.outgoing packet.body

/-- What is read of the frame by a connection with this key.  Only a callback has an error, and a
message without bytes is no message. -/
def read (key : UInt32) (packet : IOPacket SerializeMessage) : Dispatch :=
  if packet.cmd = Heart ∧ packet.callbackId = 0 then .heart
  else .packet
    { uid := key
      cmd := packet.cmd
      callbackId := packet.callbackId
      error := if packet.cmd = 0 then packet.error else 0
      message := packet.message.filter fun message => !message.buffer.isEmpty }

/-- The packet that is handed to the engine for it, which has none for a heartbeat. -/
def delivered (key : UInt32) (packet : IOPacket SerializeMessage) :
    Option (IOPacket SerializeMessage) :=
  (packet.read key).message

end IOPacket

/-! ### Calls of handlers -/

/-- The data in a packet of the message queue, if it is no notification. -/
def Packet.data? {μ : Type} : Packet μ → Option (IOPacket μ)
  | .notify _ => none
  | .msg packet => some packet

namespace IOEngine

variable {L μ : Type} (σ : IOEngine L μ)

/-- The packets that wait in the message queue. -/
def messages : List (IOPacket μ) := σ.msgqueue.filterMap Packet.data?

/-- The packets that packet handlers were called with. -/
def handled : List (IOPacket μ) := σ.dispatched.map Prod.snd

/-- The replies that callback handlers were called with.  A handler whose time is over is called with
the command of its request. -/
def replied : List (IOPacket μ) := (σ.called.map Prod.snd).filter fun packet => packet.cmd = 0

end IOEngine

/-! ### One process -/

namespace System

variable {L : Type} (σ : System L)

/-- How many of the sends of the engine wait in the event queue. -/
def waiting : Nat := (σ.net.eventQueue.filterMap IOEvent.dataKey).length

/-- The sends that wait in the event queue: events bring their packets with them, and are handled in
the order of the sends. -/
def queued : List (UInt32 × IOPacket SerializeMessage) :=
  σ.engine.sends.drop (σ.engine.sends.length - σ.waiting)

/-- The sends that the network thread has handled. -/
def handled : List (UInt32 × IOPacket SerializeMessage) :=
  σ.engine.sends.take (σ.engine.sends.length - σ.waiting)

variable [KeyPool]

/-- The packet that the next event sends over `id`, which has to be connected. -/
def sending (id : ObjectId) : Option (IOPacket SerializeMessage) :=
  if σ.net.addressee = some id ∧ (σ.net.heap id).any IOObject.enableSend then
    σ.queued.head?.map Prod.snd
  else none

/-- The packets of which a step has the socket of `id` take some bytes. -/
def takes : SystemAction → ObjectId → List (IOPacket SerializeMessage)
  | .network (.dispatch ans), id => if 0 < ans.written then (σ.sending id).toList else []
  | _, _ => []

/-- The bytes that a step reads from the socket of `id`. -/
def reads : SystemAction → ObjectId → List UInt8
  | .network (.poll key event ans), id =>
    if σ.net.getObject key = some id then σ.net.incoming key event ans else []
  | _, _ => []

/-- The packets that a step reads with `id`. -/
def posts : SystemAction → ObjectId → List (IOPacket SerializeMessage)
  | .network (.poll key event ans), id =>
    if σ.net.getObject key = some id then
      (σ.received (.poll key event ans)).toOption.getD []
    else []
  | _, _ => []

/-- What `onSerialize` makes of the packet that a step sends. -/
def Serializes (host : Endian) : SystemAction → Prop
  | .network (.dispatch ans) => ∀ id, ∀ packet ∈ σ.sending id,
      ∃ frame, sendFrame host packet.outgoing = .ok frame ∧ ans.onSerialize = some frame
  | _ => True

/-- No frame overtakes what waits for the socket.  Frames are of less than 2 GiB, and so is what
waits. -/
def Orderly : SystemAction → Prop
  | .network (.dispatch ans) => ∀ id, ∀ packet ∈ σ.takes (.network (.dispatch ans)) id,
      packet.frame.length < 2 ^ 31 ∧ (σ.net.pipe id).box.pending = []
  | .network (.poll key event ans) => σ.net.Drains (.poll key event ans)
  | _ => True

end System

/-! ### Processes -/

/-- A process, and what has passed through its connections since they were made, also of those that
are gone: what the socket has taken of which packets, what was read from it, and the packets that
were read. -/
structure Station (L : Type) where
  system : System L
  box : ObjectId → Outbox UInt8 := fun _ => .empty
  taken : ObjectId → List (IOPacket SerializeMessage) := fun _ => []
  arrived : ObjectId → List UInt8 := fun _ => []
  posted : ObjectId → List (IOPacket SerializeMessage) := fun _ => []

namespace Station

variable {L : Type} [KeyPool]

/-- A step of the process to `τ`. -/
def after (s : Station L) (a : SystemAction) (τ : System L) : Station L where
  system := τ
  box id := if (τ.net.heap id).isSome then (τ.net.pipe id).box else s.box id
  taken id := s.taken id ++ s.system.takes a id
  arrived id := s.arrived id ++ s.system.reads a id
  posted id := s.posted id ++ s.system.posts a id

/-- What was posted with this key, by the connections in the order in which they were made. -/
def heard (s : Station L) (key : UInt32) : List (IOPacket SerializeMessage) :=
  (List.range s.system.net.created).flatMap fun id =>
    (s.posted id).filter fun packet => packet.uid = key

end Station

/-- All processes, each with its number. -/
abbrev World (N L : Type) := N → Station L

namespace World

variable {N L : Type} [IntrusiveNode L] [KeyPool]

/-- All processes before their first step. -/
def Starts (w : World N L) : Prop :=
  ∀ n, ∃ key socket σ, key ≠ 0 ∧ socket ≠ -1 ∧ System.init key socket = .ok σ ∧ w n = { system := σ }

variable [DecidableEq N] (host : N → Endian) (peer : N × ObjectId → Option (N × ObjectId))

/-- A step of one of the processes.  What it reads from a connection to another of them are the next
of the bytes that the socket at the other end has taken. -/
inductive Step (w : World N L) : N × SystemAction → World N L → Prop
  | act {n : N} {a : SystemAction} {τ : System L} (hstep : (w n).system.Step a τ)
      (hserializes : (w n).system.Serializes (host n) a)
      (hreads : ∀ id, (w n).system.reads a id ≠ [] → ∀ e ∈ peer (n, id),
        (w n).arrived id ++ (w n).system.reads a id <+: ((w e.1).box e.2).sent) :
      Step w (n, a) (Function.update w n ((w n).after a τ))

/-- The step is orderly in its process. -/
def Orderly (w : World N L) (a : N × SystemAction) : Prop := (w a.1).system.Orderly a.2

end World

end ZlNet.Engine
