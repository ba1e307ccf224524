import ZlNet.Network.Buffer
import ZlNet.Network.RingBuffer

/-! `InnerProtocol`: how a packet is written as a frame, and how frames are read back from the
receive buffer of a connection.  A frame is a header and a message; the header starts with a
`Block`, the type of the frame and its size with everything in it. -/

namespace ZlNet.Engine

open Network Lib.Word Lib.Bytes

/-- A message of a packet to send.  `serialize` is virtual: what a message writes is its own. -/
structure IMessage where
  identity : Int32
  serialize : BufferWriter → Except Fault BufferWriter

/-- A received message, with the bytes it was sent as. -/
structure SerializeMessage where
  id : Int32
  buffer : List UInt8
  deriving DecidableEq, Repr

structure IOPacket (μ : Type) where
  uid : UInt32
  cmd : UInt32
  callbackId : UInt32
  error : UInt32
  message : Option μ
  deriving DecidableEq, Repr

/-- `MsgCmd::Heart`. -/
def Heart : UInt32 := 1

def HeaderTypeCall : UInt8 := 0x81
def HeaderTypeCallback : UInt8 := 0x82
def HeaderTypeMessage : UInt8 := 0x83

def sizeofBlock : Nat := 5
def sizeofHeaderCall : Nat := 13
def sizeofHeaderCallback : Nat := 13
def sizeofHeaderMessage : Nat := 9

/-- The packets and heartbeats that a connection hands on. -/
inductive Dispatch
  | packet (packet : IOPacket SerializeMessage)
  | heart
  deriving DecidableEq, Repr

namespace InnerProtocol

def INIT_BUFFER_SIZE : Nat := 2 * 1024

/-- A bound that no function looks at. -/
def MAX_BUFFER_SIZE : Nat := 1024 * 1024

/-! ### Serialization -/

/-- Stores words one after another at `head`, each in network order. -/
def putFields (host : Endian) (content : List UInt8) (head : Nat) :
    List UInt32 → Except Fault (List UInt8)
  | [] => .ok content
  | field :: fields => do
    let content ← copyIn content head (store32 host (hostToNetwork32 host field))
    putFields host content (head + 4) fields

/-- Writes a frame at the start of `buffer`: a header of `headersize` bytes, with a type, the size of
the frame and more fields, and the first `datasize` bytes of `innerBuf`. -/
def putFrame (host : Endian) (buffer : StackBuffer) (headersize : Nat) (type : UInt8)
    (fields : List UInt32) (innerBuf : StackBuffer) (datasize : Nat) :
    Except Fault StackBuffer := do
  let totalsize := add32 datasize headersize
  let (head, buffer) ← buffer.writePtr 0 totalsize
  let head ← deref head
  let content ← copyIn buffer.content head [type]
  let content ← putFields host content (head + 1) (.ofNat totalsize :: fields)
  let data ← innerBuf.read 0 datasize
  let content ← copyIn content (head + headersize) data
  return { buffer with content }

def putCall (host : Endian) (packet : IOPacket IMessage) (buffer : StackBuffer) :
    StackBuffer → Nat → Except Fault StackBuffer :=
  putFrame host buffer sizeofHeaderCall HeaderTypeCall [packet.cmd, packet.callbackId]

def putMessage (host : Endian) (packet : IOPacket IMessage) (buffer : StackBuffer) :
    StackBuffer → Nat → Except Fault StackBuffer :=
  putFrame host buffer sizeofHeaderMessage HeaderTypeMessage [packet.cmd]

def putCallback (host : Endian) (packet : IOPacket IMessage) (buffer : StackBuffer) :
    StackBuffer → Nat → Except Fault StackBuffer :=
  putFrame host buffer sizeofHeaderCallback HeaderTypeCallback [packet.callbackId, packet.error]

/-- Writes the identity of a message and the message, if there is one. -/
def serializeMessage (host : Endian) (message : Option IMessage) :
    Except Fault (StackBuffer × Nat) := do
  let innerBuf := StackBuffer.new INIT_BUFFER_SIZE
  match message with
  | none => return (innerBuf, 0)
  | some message =>
    let writer ← BufferWriter.writeInt32 host ⟨innerBuf, 0⟩ message.identity
    let writer ← message.serialize writer
    return (writer.buf, writer.bytesWritten)

def onSerialize (host : Endian) (packet : IOPacket IMessage) (buffer : StackBuffer) :
    Except Fault (Bool × StackBuffer) := do
  let (innerBuf, datasize) ← serializeMessage host packet.message
  let buffer ←
    if packet.cmd ≠ 0 then
      if packet.callbackId ≠ 0 then putCall host packet buffer innerBuf datasize
      else putMessage host packet buffer innerBuf datasize
    else if packet.callbackId ≠ 0 then putCallback host packet buffer innerBuf datasize
    else pure buffer
  return (true, buffer)

/-! ### Unserialization -/

/-- The field at `off` of a header at `head`. -/
def field (host : Endian) (innerBuf : StackBuffer) (head off : Nat) : Except Fault UInt32 := do
  let bytes ← copyOut innerBuf.content (head + off) 4
  return networkToHost32 host (load32 host bytes)

/-- The message after a header of `headersize` bytes in a frame that gives its size as `size`.  Its
identity is read at `idpos`. -/
def getMessage (host : Endian) (innerBuf : StackBuffer) (headersize idpos : Nat) (size : UInt32) :
    Except Fault (Option SerializeMessage) := do
  if size.toNat ≤ headersize then return none
  let msgId ← deref (innerBuf.readPtr idpos 4)
  let id ← field host innerBuf msgId 0
  let msglen := sub32 size.toNat (headersize + 4)
  if msglen = 0 then return none
  let ptr ← deref (innerBuf.readPtr (headersize + 4) msglen)
  let buffer ← copyOut innerBuf.content ptr msglen
  return some ⟨id.toInt32, buffer⟩

def getCall (host : Endian) (key : UInt32) (innerBuf : StackBuffer) : Except Fault Dispatch := do
  let head ← deref (innerBuf.readPtr 0 sizeofHeaderCall)
  let size ← field host innerBuf head 1
  let cmd ← field host innerBuf head 5
  let callback ← field host innerBuf head 9
  let message ← getMessage host innerBuf sizeofHeaderCall sizeofHeaderCall size
  return .packet ⟨key, cmd, callback, 0, message⟩

/-- The identity of the message is looked for after a `HeaderCall`, which has the same size. -/
def getCallback (host : Endian) (key : UInt32) (innerBuf : StackBuffer) :
    Except Fault Dispatch := do
  let head ← deref (innerBuf.readPtr 0 sizeofHeaderCallback)
  let size ← field host innerBuf head 1
  let callback ← field host innerBuf head 5
  let error ← field host innerBuf head 9
  let message ← getMessage host innerBuf sizeofHeaderCallback sizeofHeaderCall size
  return .packet ⟨key, 0, callback, error, message⟩

def getMessageFrame (host : Endian) (key : UInt32) (innerBuf : StackBuffer) :
    Except Fault Dispatch := do
  let head ← deref (innerBuf.readPtr 0 sizeofHeaderMessage)
  let size ← field host innerBuf head 1
  let cmd ← field host innerBuf head 5
  let message ← getMessage host innerBuf sizeofHeaderMessage sizeofHeaderMessage size
  return if cmd = Heart then .heart else .packet ⟨key, cmd, 0, 0, message⟩

/-- What one turn of the loop of `onUnserialize` does: return `true` for want of input, return
`false`, or hand something on and go round again. -/
inductive Turn
  | incomplete
  | reject (buffer : CRingBuffer)
  | next (e : Dispatch) (buffer : CRingBuffer)

/-- The body of the loop, on a buffer with at least a `Block` in it. -/
def turn (host : Endian) (key : UInt32) (buffer : CRingBuffer) : Except Fault Turn := do
  let block ← buffer.look sizeofBlock
  let type := block.headD 0
  let size := networkToHost32 host (load32 host (block.drop 1))
  if buffer.size < size.toNat then return .incomplete
  let innerBuf ← (StackBuffer.new INIT_BUFFER_SIZE).ensure size.toNat
  let (ptr, innerBuf) ← innerBuf.writePtr 0 size.toNat
  let (bytes, buffer) ← buffer.read size.toNat
  let content ← copyIn innerBuf.content (← deref ptr) bytes
  let innerBuf := { innerBuf with content }
  if type = HeaderTypeCall then return .next (← getCall host key innerBuf) buffer
  else if type = HeaderTypeCallback then return .next (← getCallback host key innerBuf) buffer
  else if type = HeaderTypeMessage then return .next (← getMessageFrame host key innerBuf) buffer
  else return .reject buffer

/-- The loop, for at most `fuel` turns: what it hands on, and what it returns with the buffer. -/
def loop (host : Endian) (key : UInt32) :
    Nat → CRingBuffer → List Dispatch × Except Fault (Bool × CRingBuffer)
  | 0, _ => ([], .error .diverges)
  | fuel + 1, buffer =>
    if buffer.size < sizeofBlock then ([], .ok (true, buffer))
    else match turn host key buffer with
      | .error f => ([], .error f)
      | .ok .incomplete => ([], .ok (true, buffer))
      | .ok (.reject buffer) => ([], .ok (false, buffer))
      | .ok (.next e buffer) =>
        let (es, result) := loop host key fuel buffer
        (e :: es, result)

def onUnserialize (host : Endian) (key : UInt32) (buffer : CRingBuffer) :
    List Dispatch × Except Fault (Bool × CRingBuffer) :=
  loop host key (buffer.size + 1) buffer

end InnerProtocol

end ZlNet.Engine
