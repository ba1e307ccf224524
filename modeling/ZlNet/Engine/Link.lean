import ZlNet.Engine.Proof.Receive
import ZlNet.Network.Proof.Send
import ZlNet.Network.Segments

/-! A connection from one process to another.  One end sends packets, its network thread hands their
frames to the socket and drains what the socket does not take at once, and what the socket has taken
arrives at the other end, some bytes at a time, in the segments that `readv` is given there. -/

namespace ZlNet.Engine

open Network Lib Lib.Bytes

namespace Receiver

/-- `handleTcpConRead`, where `readv` stores `bytes`; `extrabuf` is what was in the array before. -/
def read (host : Endian) (key : UInt32) (s : Receiver) (extrabuf bytes : List UInt8) : Receiver :=
  match s.verdict with
  | .accepting buffer =>
    match buffer.receive extrabuf bytes with
    | .ok buffer => returned s.dispatched (InnerProtocol.onUnserialize host key buffer)
    | .error f => ⟨s.dispatched, .aborted f⟩
  | .rejected | .aborted _ => s

/-- What `readv` can return: some bytes, and no more than the entries take that it is given. -/
def Readable (s : Receiver) (bytes : List UInt8) : Prop :=
  bytes ≠ [] ∧ ∀ r offer, s.verdict = .accepting r → r.getWriteableVec = .ok offer →
    bytes.length ≤ Iovec.room offer.readvCall.entries

end Receiver

/-- The two ends.  `packets` are those that were sent and that the socket did not refuse, each with
the bytes of its message, and `arrived` is what the other end has read from its socket. -/
structure Link where
  sender : Conversation
  packets : List (IOPacket IMessage × List UInt8) := []
  arrived : List UInt8 := []
  receiver : Receiver

inductive LinkAction
  | send (packet : IOPacket IMessage) (body : List UInt8) (ans : Answers)
  | write (ans : Answers)
  | close (force : Bool)
  | read (extrabuf bytes : List UInt8)

namespace Link

variable [KeyPool] (host host' : Endian) (id : ObjectId) (key : UInt32) (l : Link)

omit [KeyPool] in
/-- The connection is established, and the socket does not refuse the frame. -/
def Takes (ans : Answers) : Prop := l.sender.net.frames id ans ≠ [] ∧ 0 ≤ ans.written

omit [KeyPool] in
instance (ans : Answers) : Decidable (l.Takes id ans) := inferInstanceAs (Decidable (_ ∧ _))

/-- A step of the sender, or one of the receiver, to which the bytes come that the sender's socket has
taken, in their order. -/
inductive Step : LinkAction → Link → Prop
  | send {packet : IOPacket IMessage} {body frame : List UInt8} {ans : Answers} {d : Conversation}
      (hpacket : Sendable packet body) (hframe : sendFrame host packet = .ok frame)
      (hserialize : ans.onSerialize = some frame)
      (hstep : Conversation.Step id l.sender (.tcpSend ans) d) :
      Step (.send packet body ans)
        { l with
          sender := d
          packets := if l.Takes id ans then l.packets ++ [(packet, body)] else l.packets }
  | write {ans : Answers} {d : Conversation}
      (hstep : Conversation.Step id l.sender (.handleTcpConWrite ans) d) :
      Step (.write ans) { l with sender := d }
  | close {force : Bool} {d : Conversation}
      (hstep : Conversation.Step id l.sender (.tcpCloseCon force) d) :
      Step (.close force) { l with sender := d }
  | read {extrabuf bytes : List UInt8}
      (hsent : ∀ b ∈ l.sender.net.outbox id, l.arrived ++ bytes <+: b.sent)
      (hread : l.receiver.Readable bytes) (hextra : extrabuf.length = extralen) :
      Step (.read extrabuf bytes)
        { l with
          arrived := l.arrived ++ bytes
          receiver := l.receiver.read host' key extrabuf bytes }

/-- Frames are of at most `bound` bytes, and none overtakes what is pending. -/
def Orderly (bound : Nat) : LinkAction → Prop
  | .send packet body ans =>
    (frameOf packet body).length ≤ bound ∧ l.sender.InOrder id (.tcpSend ans)
  | .write ans => l.sender.InOrder id (.handleTcpConWrite ans)
  | .close _ | .read _ _ => True

/-- A new connection, whose receiver has a buffer of `capacity` bytes. -/
def start (net : CNetwork) (capacity : Nat) : Link :=
  { sender := ⟨net, [], []⟩, receiver := .start capacity }

end Link

end ZlNet.Engine
