import ZlNet.Engine.Messages
import ZlNet.Engine.Proof.RoundTrip
import ZlNet.Engine.Proof.Serialize
import ZlNet.Network.Proof.ReaderRun

/-! `SerializeMessage`, a message as a block of bytes.  What a message writes is the same on the wire
whether it is sent itself or in a `SerializeMessage`, and a `SerializeMessage` is read back whole only
where as many bytes have been read before it as it has. -/

namespace ZlNet.Engine

open Network Lib Lib.Word Lib.Bytes Lib.Block

variable {host : Endian}

namespace SerializeMessage

/-! ### Writing and reading back -/

theorem bytes_eq (b : Buffer) (hlt : b.size < 2 ^ 32) : bytes b = .ok b.content := by
  have hptr : readPtr b.content 0 b.size = some 0 := by
    rw [readPtr, add32_eq (by omega), Nat.zero_add]
    exact if_neg (Nat.lt_irrefl _)
  have hload : load b.content 0 b.size = some b.content :=
    load_middle [] b.content [] (by simp) rfl rfl
  simp only [bytes, hptr, deref, ok_bind]
  exact copyOut_eq hload

theorem bytesLeft_toNat (content : List UInt8) {pos : Nat} (hpos : pos < 2 ^ 32) :
    (BufferReader.bytesLeft ⟨content, pos⟩).toUInt32.toNat = pos := by
  show (BitVec.ofNat 32 pos).toNat = _
  rw [BitVec.toNat_ofNat, Nat.mod_eq_of_lt hpos]

/-- An emptied buffer makes room from its start on. -/
theorem writePtr_empty (capacity : Nat) {n : Nat} (hlt : n < 2 ^ 32) :
    ∃ c, Buffer.writePtr ⟨[], capacity⟩ 0 n = .ok (some 0, ⟨List.replicate n 0, c⟩) := by
  obtain ⟨c, hc, -⟩ := Buffer.ensure_eq ⟨[], capacity⟩ hlt
  refine ⟨c, ?_⟩
  have hadd : add32 0 n = n := by
    rw [add32_eq (by omega), Nat.zero_add]
  simp only [Buffer.writePtr, Nat.not_lt_zero, ite_false, hadd, hc, ok_bind]
  rfl

/-- What is read after `before` is as many bytes as `before` has, if there are as many. -/
theorem serializeReader_eq (target : Buffer) (before body : List UInt8)
    (hfit : before.length + body.length < 2 ^ 32) (hle : before.length ≤ body.length) :
    ∃ capacity, serializeReader target ⟨before ++ body, before.length⟩ =
      .ok (⟨body.take before.length, capacity⟩,
        ⟨before ++ body, before.length + before.length⟩) := by
  have hleft := bytesLeft_toNat (before ++ body) (show before.length < 2 ^ 32 by omega)
  obtain ⟨c, hc⟩ := writePtr_empty target.capacity (show before.length < 2 ^ 32 by omega)
  have hadd : add32 before.length before.length = before.length + before.length :=
    add32_eq (by omega)
  have hptr : readPtr (before ++ body) before.length before.length = some before.length := by
    rw [readPtr, hadd, List.length_append]
    exact if_neg (by omega)
  have hcopy : copyOut (before ++ body) before.length before.length =
      .ok (body.take before.length) := by
    rw [copyOut_of_le (by rw [List.length_append]; omega), List.drop_left]
  have hstore : store (List.replicate before.length 0) 0 (body.take before.length) =
      some (body.take before.length) :=
    store_middle [] (List.replicate before.length 0) [] (by simp) rfl (by simp [hle]) |>.trans
      (by simp)
  refine ⟨c, ?_⟩
  simp only [serializeReader, hleft, hc, ok_bind, deref, BufferReader.readBytes, hptr, hcopy,
    hadd, pure_bind, copyIn_eq hstore]
  rfl

/-- Where there are fewer bytes, reading does not return. -/
theorem serializeReader_fault (target : Buffer) (before body : List UInt8)
    (hfit : before.length + body.length < 2 ^ 32) (hlt : body.length < before.length) :
    ∃ f, serializeReader target ⟨before ++ body, before.length⟩ = .error f := by
  have hleft := bytesLeft_toNat (before ++ body) (show before.length < 2 ^ 32 by omega)
  obtain ⟨c, hc⟩ := writePtr_empty target.capacity (show before.length < 2 ^ 32 by omega)
  have hlen : (before ++ body).length < before.length + before.length := by
    rw [List.length_append]
    omega
  simp only [serializeReader, hleft, hc, ok_bind, deref, BufferReader.readBytes]
  rcases BufferReader.readPtr_cases
    (show before.length ≤ (before ++ body).length by simp) (by simpa using hfit)
    (show before.length < 2 ^ 32 by omega) with
    ⟨hle, -⟩ | ⟨-, -, hptr⟩ | ⟨-, hptr⟩
  · omega
  · exact ⟨_, by rw [hptr]; rfl⟩
  · exact ⟨_, by rw [hptr]; simp only [copyOut_of_lt hlen]; rfl⟩

/-- What `serialize(BufferWriter&)` appends to what has been written before, for writers of both
classes, is read back by `serialize(BufferReader&)` up to the end of the buffer just if `before` has
as many bytes as the message. -/
theorem serialize_inverse_iff (message target : Buffer) (before : List UInt8)
    (hfit : before.length + message.size < 2 ^ 32) :
    (∀ archive : Buffer.Writer, archive.AtEnd → archive.buf.content = before →
      archive.Appends message.content (serializeWriter message archive)) ∧
    (∀ archive : BufferWriter, archive.AtEnd → archive.buf.content = before →
      ∃ archive', serializeStackWriter message archive = .ok archive' ∧
        archive'.buf.content = before ++ message.content ∧ archive'.AtEnd) ∧
    ((∃ target' archive, serializeReader target ⟨before ++ message.content, before.length⟩ =
        .ok (target', archive) ∧ target'.content = message.content ∧
        archive = ⟨before ++ message.content, (before ++ message.content).length⟩) ↔
      before.length = message.size) := by
  have hbytes := bytes_eq message (by omega)
  refine ⟨fun archive hend hcontent => ?_, fun archive hend hcontent => ?_, ?_⟩
  · rw [serializeWriter, hbytes]
    refine Buffer.Writer.writeBytes_appends hend ?_
    rw [hend, Buffer.size, hcontent]
    exact hfit
  · have hroom : archive.pos + message.content.length < 2 ^ 32 := by
      rw [hend, StackBuffer.size, hcontent]
      exact hfit
    obtain ⟨archive', harchive', hcontent', hend'⟩ := BufferWriter.writeBytes_end hend hroom
    refine ⟨archive', ?_, hcontent ▸ hcontent', hend'⟩
    rw [serializeStackWriter, hbytes]
    exact harchive'
  · constructor
    · rintro ⟨target', archive, hread, hsame, hat⟩
      rcases Nat.lt_or_ge message.content.length before.length with hlt | hle
      · obtain ⟨f, hf⟩ := serializeReader_fault target before _ hfit hlt
        rw [hf] at hread
        cases hread
      · obtain ⟨c, hc⟩ := serializeReader_eq target before _ hfit hle
        obtain ⟨-, rfl⟩ := Prod.mk.inj (Except.ok.inj (hc.symm.trans hread))
        have hpos := congrArg BufferReader.pos hat
        simp only [List.length_append] at hpos
        exact Nat.add_left_cancel hpos
    · intro hlen
      obtain ⟨c, hc⟩ := serializeReader_eq target before _ hfit (Nat.le_of_eq hlen)
      refine ⟨_, _, hc, ?_, ?_⟩
      · exact List.take_of_length_le (Nat.le_of_eq hlen.symm)
      · rw [List.length_append]
        exact congrArg (fun n => BufferReader.mk _ (before.length + n)) hlen

theorem serialize_inverse_iff_same_length :
    ∃ target' archive, serializeReader (Buffer.new 128) ⟨[7, 8] ++ [1, 2], [7, 8].length⟩ =
        .ok (target', archive) ∧ target'.content = [1, 2] ∧
        archive = ⟨[7, 8] ++ [1, 2], ([7, 8] ++ [1, 2]).length⟩ :=
  (serialize_inverse_iff ⟨[1, 2], 128⟩ (Buffer.new 128) [7, 8] (by decide)).2.2.mpr rfl

/-- A message that is alone in its buffer is read back as an empty one. -/
theorem serialize_loses_body :
    ∃ archive, serializeWriter ⟨[1, 2, 3], 128⟩ ⟨Buffer.new 128, 0⟩ = .ok archive ∧
      ¬∃ target' reader, serializeReader (Buffer.new 128) ⟨archive.buf.content, 0⟩ =
          .ok (target', reader) ∧ target'.content = [1, 2, 3] ∧
          reader = ⟨archive.buf.content, archive.buf.size⟩ := by
  refine ⟨⟨⟨[1, 2, 3], 128⟩, 3⟩, rfl, ?_⟩
  rintro ⟨target', reader, hread, hsame, -⟩
  obtain ⟨c, hc⟩ := serializeReader_eq (Buffer.new 128) [] [1, 2, 3] (by decide) (by decide)
  obtain ⟨rfl, -⟩ := Prod.mk.inj (Except.ok.inj (hc.symm.trans hread))
  cases hsame

end SerializeMessage

end ZlNet.Engine

namespace ZlNet.Network.Buffer.Writer

open Lib Lib.Bytes ZlNet.Network

variable {host : Endian} {w : Writer}

theorem call_appends (c : WriterCall) (h : w.AtEnd) (hfit : w.pos + c.encode.length < 2 ^ 32) :
    w.Appends c.encode (w.call host c) := by
  cases c with
  | scalar s value =>
    rw [WriterCall.encode, toBe_length] at hfit
    exact writeScalar_appends s value h hfit
  | bytes data => exact writeBytes_appends h hfit

/-- Calls write their bytes one after another. -/
theorem calls_append (host : Endian) (calls : List WriterCall) (h : w.AtEnd)
    (hfit : w.pos + (calls.flatMap WriterCall.encode).length < 2 ^ 32) :
    w.Appends (calls.flatMap WriterCall.encode) (calls.foldlM (call host) w) := by
  induction calls generalizing w with
  | nil => exact ⟨w, rfl, (List.append_nil _).symm, h⟩
  | cons c calls ih =>
    rw [List.flatMap_cons, List.length_append] at hfit
    rw [List.flatMap_cons, List.foldlM_cons]
    refine (call_appends c h (by omega)).bind fun w' hcontent hend => ih hend ?_
    have hpos : w'.pos = w.pos + c.encode.length := by
      rw [hend, h, Buffer.size, Buffer.size, hcontent, List.length_append]
    omega

end ZlNet.Network.Buffer.Writer

namespace ZlNet.Engine

open Network Lib Lib.Word Lib.Bytes Lib.Block

variable {host : Endian}

/-! ### Wrapping a message -/

/-- A `writeXxx` call in the `serialize` of a message.  A float is written as its bits, and a string
after its size. -/
inductive MessageCall
  | call (c : WriterCall)
  | writeFloat (bits : UInt32)
  | writeDouble (bits : UInt64)
  | writeString (value : List UInt8)

/-- The integers and bytes that a call writes. -/
def MessageCall.calls : MessageCall → List WriterCall
  | .call c => [c]
  | .writeFloat bits => [.scalar .uint32 bits]
  | .writeDouble bits => [.scalar .uint64 bits]
  | .writeString value =>
    [.scalar .uint32 (.ofNat value.length), .bytes (value.take (UInt32.ofNat value.length).toNat)]

/-- A message whose `serialize` makes the given calls of its writer. -/
structure WrittenMessage where
  identity : Int32
  calls : List MessageCall

namespace WrittenMessage

/-- The calls of the writer for integers and bytes. -/
def writerCalls (message : WrittenMessage) : List WriterCall :=
  message.calls.flatMap MessageCall.calls

/-- The bytes that the calls write. -/
def encode (message : WrittenMessage) : List UInt8 :=
  message.writerCalls.flatMap WriterCall.encode

/-- The message as `onSerialize` sees it, with its calls on a `StackBuffer`. -/
def toIMessage (host : Endian) (message : WrittenMessage) : IMessage where
  identity := message.identity
  serialize w := message.writerCalls.foldlM (BufferWriter.call host) w

/-- `SerializeMessage(message)`, with the calls on a `Buffer`. -/
def wrap (host : Endian) (message : WrittenMessage) : Except Fault SerializeMessage := do
  let writer ← message.writerCalls.foldlM (Buffer.Writer.call host) ⟨Buffer.new 128, 0⟩
  return ⟨message.identity, writer.buf.content⟩

end WrittenMessage

/-- The packet that `Server::sendMessage` sends, for a message that is a `SerializeMessage` and for
one that is not. -/
def sentPacket (host : Endian) (uid cmd : UInt32) :
    SerializeMessage ⊕ WrittenMessage → Except Fault (IOPacket SerializeMessage)
  | .inl message => .ok ⟨uid, cmd, 0, 0, some message⟩
  | .inr message => do return ⟨uid, cmd, 0, 0, some (← message.wrap host)⟩

/-- A message with fields, by the calls that `Serialize` makes for them. -/
def Message.written (message : Message) : WrittenMessage :=
  ⟨message.type.identity, (callsAll message.type.fields message.values).map .call⟩

theorem Message.written_calls (message : Message) :
    message.written.writerCalls = callsAll message.type.fields message.values := by
  simp [WrittenMessage.writerCalls, Message.written, List.flatMap_map, MessageCall.calls]

theorem ofMessage_eq (host : Endian) (message : Message) :
    SerializeMessage.ofMessage host message = message.written.wrap host := by
  rw [SerializeMessage.ofMessage, WrittenMessage.wrap, message.written_calls, writeAll_calls]
  rfl

/-- What `Server::sendMessage` gives to `send`, for a message of either class. -/
def AnyMessage.sent : AnyMessage → SerializeMessage ⊕ WrittenMessage
  | .serialized message => .inl message
  | .typed message => .inr message.written

theorem sendMessage_sends {L : Type} [IntrusiveNode L] (host : Endian)
    (σ : IOEngine L SerializeMessage) (uid cmd : UInt32) (message : AnyMessage) :
    σ.sendMessage host uid cmd message = (do
      let packet ← sentPacket host uid cmd message.sent
      σ.send ⟨none, packet, 0⟩) := by
  cases message with
  | serialized message => rfl
  | typed message =>
    simp only [IOEngine.sendMessage, AnyMessage.sent, sentPacket, ofMessage_eq, bind_assoc,
      pure_bind]

/-- What `onSerialize` writes in a new buffer for a packet. -/
def Writes (host : Endian) (packet : IOPacket IMessage) (bytes : List UInt8) : Prop :=
  ∀ FIXED_SIZE, ∃ capacity, InnerProtocol.onSerialize host packet (.new FIXED_SIZE) =
    .ok (true, ⟨bytes, capacity⟩)

/-- The frame of a packet, or nothing for one that says neither a command nor a call. -/
def wire (packet : IOPacket IMessage) (body : List UInt8) : List UInt8 :=
  if packet.cmd = 0 ∧ packet.callbackId = 0 then [] else frameOf packet body

theorem body_le_frameOf (packet : IOPacket IMessage) (body : List UInt8)
    (hmessage : packet.message ≠ none) : body.length ≤ (frameOf packet body).length := by
  obtain ⟨message, hm⟩ := Option.ne_none_iff_exists'.mp hmessage
  have hdata : body.length ≤ (frameData packet.message body).length := by
    simp [hm, frameData]
  unfold frameOf
  split_ifs
  all_goals
    rw [encode_length]
    omega

theorem writes_wire {packet : IOPacket IMessage} {message : IMessage} {body : List UInt8}
    (hmessage : packet.message = some message) (hserializes : message.Serializes body)
    (hshort : (frameOf packet body).length < 2 ^ 31) : Writes host packet (wire packet body) := by
  have hbody (m : IMessage) (hm : packet.message = some m) : m.Serializes body := by
    obtain rfl := Option.some.inj (hmessage.symm.trans hm)
    exact hserializes
  intro FIXED_SIZE
  by_cases hnone : packet.cmd = 0 ∧ packet.callbackId = 0
  · obtain ⟨hcmd, hcallback⟩ := hnone
    have hdata : (frameData packet.message body).length < 2 ^ 32 := by
      simp only [frameOf, hcmd, ne_eq, not_true_eq_false, ite_false, encode_length] at hshort
      omega
    obtain ⟨innerBuf, hinner, -⟩ := InnerProtocol.serializeMessage_eq host hbody hdata
    refine ⟨FIXED_SIZE, ?_⟩
    simp only [wire, hcmd, hcallback, InnerProtocol.onSerialize, hinner, ok_bind]
    rfl
  · rw [wire, if_neg hnone]
    refine InnerProtocol.onSerialize_writes host ?_ hbody hshort FIXED_SIZE
    exact not_and_or.mp hnone

namespace WrittenMessage

variable {message : WrittenMessage}

theorem wrap_eq (host : Endian) (hlt : message.encode.length < 2 ^ 32) :
    message.wrap host = .ok ⟨message.identity, message.encode⟩ := by
  obtain ⟨w, hw, hcontent, -⟩ := Buffer.Writer.calls_append host (w := ⟨Buffer.new 128, 0⟩)
    message.writerCalls rfl (by rwa [Nat.zero_add])
  have hcontent : w.buf.content = message.encode := hcontent
  simp only [wrap, hw, ok_bind, hcontent]
  rfl

theorem serializes (host : Endian) : (message.toIMessage host).Serializes message.encode :=
  fun _ hend hfit => BufferWriter.calls_end host message.writerCalls hend hfit

end WrittenMessage

/-- A packet with a message and one with the same message in a `SerializeMessage` are written as the
same bytes, and `Server::sendMessage` sends the same packet for both. -/
theorem wrapping_transparent (host : Endian) (message : WrittenMessage)
    (uid cmd callbackId error : UInt32)
    (hshort : (frameOf ⟨uid, cmd, callbackId, error, some (message.toIMessage host)⟩
      message.encode).length < 2 ^ 31) :
    ∃ wrapped bytes, message.wrap host = .ok wrapped ∧
      Writes host ⟨uid, cmd, callbackId, error, some (message.toIMessage host)⟩ bytes ∧
      Writes host ⟨uid, cmd, callbackId, error, some wrapped.toIMessage⟩ bytes ∧
      ∀ uid' cmd',
        sentPacket host uid' cmd' (.inr message) = .ok ⟨uid', cmd', 0, 0, some wrapped⟩ ∧
        sentPacket host uid' cmd' (.inl wrapped) = .ok ⟨uid', cmd', 0, 0, some wrapped⟩ := by
  have hlt : message.encode.length < 2 ^ 32 := by
    have hle := body_le_frameOf ⟨uid, cmd, callbackId, error, _⟩ message.encode
      (Option.some_ne_none (message.toIMessage host))
    omega
  have hwrap := message.wrap_eq host hlt
  refine ⟨_, _, hwrap, writes_wire rfl (WrittenMessage.serializes host) hshort,
    writes_wire rfl (SerializeMessage.serializes _) hshort, fun uid' cmd' => ⟨?_, rfl⟩⟩
  simp only [sentPacket, hwrap]
  rfl

/-- A message of a string and a float, sent as a call. -/
theorem wrapping_transparent_call :
    ∃ wrapped bytes,
      WrittenMessage.wrap .little ⟨3, [.writeString [104, 105], .writeFloat 0x3f800000]⟩ =
        .ok wrapped ∧
      Writes .little ⟨1, 7, 9, 0, some (WrittenMessage.toIMessage .little
        ⟨3, [.writeString [104, 105], .writeFloat 0x3f800000]⟩)⟩ bytes ∧
      Writes .little ⟨1, 7, 9, 0, some wrapped.toIMessage⟩ bytes ∧
      ∀ uid' cmd',
        sentPacket .little uid' cmd'
            (.inr ⟨3, [.writeString [104, 105], .writeFloat 0x3f800000]⟩) =
          .ok ⟨uid', cmd', 0, 0, some wrapped⟩ ∧
        sentPacket .little uid' cmd' (.inl wrapped) = .ok ⟨uid', cmd', 0, 0, some wrapped⟩ :=
  wrapping_transparent .little ⟨3, [.writeString [104, 105], .writeFloat 0x3f800000]⟩ 1 7 9 0
    (by decide)

end ZlNet.Engine
