import ZlNet.Engine.IOEngine
import ZlNet.Engine.Serializes

/-! Messages with fields, as the users of a server define them: how one is packed for a packet, and
made again by the factory on the other side. -/

namespace ZlNet.Engine

open Network Lib.Bytes

/-- A class of messages: what `identity` returns, and the fields that `serialize` is for. -/
structure MessageType where
  identity : Int32
  fields : List Ty
  deriving DecidableEq, Repr

structure Message where
  type : MessageType
  values : Vals type.fields

/-- What a pointer to an `IMessage` can point to. -/
inductive AnyMessage
  | serialized (message : SerializeMessage)
  | typed (message : Message)

structure CMessageContext where
  uid : UInt32
  cmd : UInt32
  msg : Option AnyMessage

/-- The values of new variables. -/
def Vals.init : (ts : List Ty) → Vals ts
  | [] => ()
  | _ :: ts => (default, Vals.init ts)

/-- `SerializeMessage(message)`. -/
def SerializeMessage.ofMessage (host : Endian) (message : Message) :
    Except Fault SerializeMessage := do
  let writer ← writeAll host message.type.fields ⟨Buffer.new 128, 0⟩ message.values
  return ⟨message.type.identity, writer.buf.content⟩

namespace SerializeMessage

/-- `serialize(BufferReader&)` of a message whose bytes are in `_buffer`.  The bytes are copied to
room that is made for them. -/
def serializeReader (_buffer : Buffer) (archive : BufferReader) :
    Except Fault (Buffer × BufferReader) := do
  let _buffer : Buffer := { _buffer with content := [] }
  let (p, _buffer) ← _buffer.writePtr 0 archive.bytesLeft.toUInt32.toNat
  let off ← deref p
  let (bytes, archive) ← archive.readBytes archive.bytesLeft.toUInt32
  let content ← copyIn _buffer.content off bytes
  return ({ _buffer with content }, archive)

/-- The bytes that `serialize(BufferWriter&)` gives to `writeBytes`. -/
def bytes (_buffer : Buffer) : Except Fault (List UInt8) := do
  let p ← deref (readPtr _buffer.content 0 _buffer.size)
  copyOut _buffer.content p _buffer.size

/-- `serialize(BufferWriter&)`, for a writer on a `Buffer`. -/
def serializeWriter (_buffer : Buffer) (archive : Buffer.Writer) : Except Fault Buffer.Writer := do
  archive.writeBytes (← bytes _buffer)

/-- `serialize(BufferWriter&)`, for a writer on a `StackBuffer`. -/
def serializeStackWriter (_buffer : Buffer) (archive : BufferWriter) : Except Fault BufferWriter := do
  archive.writeBytes (← bytes _buffer)

end SerializeMessage

/-- The classes whose creators are registered. -/
structure MessageFactory where
  creators : Int32 → Option MessageType := fun _ => none

namespace MessageFactory

def registerMessage (factory : MessageFactory) (id : Int32) (creator : MessageType) :
    Except Fault MessageFactory := do
  require (factory.creators id = none) .registerMessage
  return ⟨Function.update factory.creators id (some creator)⟩

/-- `Create(id)`: a new message, or a null pointer. -/
def create (factory : MessageFactory) (id : Int32) : Option Message :=
  (factory.creators id).map fun type => ⟨type, .init type.fields⟩

end MessageFactory

/-- `Server::sendMessage`. -/
def IOEngine.sendMessage {L : Type} [IntrusiveNode L] (host : Endian)
    (σ : IOEngine L SerializeMessage) (uid cmd : UInt32) (message : AnyMessage) :
    Except Fault (IOEngine L SerializeMessage) := do
  let msg ← match message with
    | .serialized msg => pure msg
    | .typed message => SerializeMessage.ofMessage host message
  σ.send ⟨none, ⟨uid, cmd, 0, 0, some msg⟩, 0⟩

namespace MessageHandler

/-- The message that a received one is converted to, unless its `serialize` does not return. -/
def onMessageConvert (host : Endian) (grants : Ty → Nat → Bool) (factory : MessageFactory)
    (message : Option SerializeMessage) : Except Abort (Option AnyMessage) :=
  match message with
  | none => .ok none
  | some msg =>
    match factory.create msg.id with
    | none => .ok none
    | some newMsg =>
      let x := serializeAll host grants newMsg.type.fields ⟨msg.buffer, 0⟩ newMsg.values
      match x.stop with
      | none => .ok (some (.typed ⟨newMsg.type, x.target⟩))
      | some s => .error s

/-- `onPacket`, up to the context that `onMessage` is called with. -/
def onPacket (host : Endian) (grants : Ty → Nat → Bool) (factory : MessageFactory)
    (packet : IOPacket SerializeMessage) : Except Abort CMessageContext :=
  match onMessageConvert host grants factory packet.message with
  | .ok message => .ok ⟨packet.uid, packet.cmd, message⟩
  | .error s => .error s

end MessageHandler

end ZlNet.Engine
