import ZlNet.Engine.Messages
import ZlNet.Engine.Proof.Codec
import ZlNet.Engine.Proof.Receive

/-! A message on its way from `Server::sendMessage` to the context of a `MessageHandler`, through the
frames of a connection and the factory of the receiver. -/

namespace ZlNet.Engine

open Network Lib Lib.Bytes

/-- The packet as the network thread serializes it. -/
def IOPacket.outgoing (packet : IOPacket SerializeMessage) : IOPacket IMessage :=
  ⟨packet.uid, packet.cmd, packet.callbackId, packet.error, packet.message.map (·.toIMessage)⟩

/-- The bytes that the fields of a message are sent as. -/
def Message.encode (m : Message) : List UInt8 := encodeAll m.type.fields m.values

variable {L : Type} [IntrusiveNode L] {host host' : Endian} {factory : MessageFactory}
  {σ : IOEngine L SerializeMessage} {uid cmd : UInt32} {m : Message}

/-- The packet `p` that a connection with the key `key` has dispatched reaches a handler for `cmd`
as the message `m`. -/
structure Arrives (host : Endian) (factory : MessageFactory) (key cmd : UInt32) (m : Message)
    (p : IOPacket SerializeMessage) : Prop where
  handled : ∀ (ρ : IOEngine L SerializeMessage) h, ρ.isAvailable key = true →
    ρ.packetHandlers cmd = some h →
    ρ.onIOPacket p = .ok { ρ with dispatched := ρ.dispatched ++ [(h, p)] }
  context : MessageHandler.onPacket host unlimited factory p = .ok ⟨key, cmd, some (.typed m)⟩

/-- The frame arrives at the other side as the message `m`, among any packets before and after it and
however the stream is cut into chunks. -/
def Delivers (L : Type) [IntrusiveNode L] (host : Endian) (factory : MessageFactory) (cmd : UInt32)
    (m : Message) (frame : List UInt8) : Prop :=
  ∀ key capacity, 0 < capacity → capacity < 2 ^ 32 →
    ∀ before after, (∀ s ∈ before ++ after, Sendable s.1 s.2) →
    ∀ chunks : List (List UInt8), (∀ c ∈ chunks, c ≠ [] ∧ c.length < 2 ^ 31) →
      chunks.flatten = streamOf before ++ (frame ++ streamOf after) →
      ∃ r p, chunks.foldl (Receiver.receive host key) (.start capacity) =
          ⟨before.map (fun s => received key s.1 s.2) ++
            .packet p :: after.map fun s => received key s.1 s.2, .accepting r⟩ ∧
        Arrives (L := L) host factory key cmd m p

/-- A message that `sendMessage` queues for the network thread, which hands it to the socket as a
frame that is delivered.  `tcpSend` takes a size as an `int32`. -/
def Intact (host host' : Endian) (factory : MessageFactory) (σ : IOEngine L SerializeMessage)
    (uid cmd : UInt32) (m : Message) : Prop :=
  ∃ packet frame, σ.sendMessage host uid cmd (.typed m) = .ok (σ.pushEvent (.data uid packet)) ∧
    sendFrame host packet.outgoing = .ok frame ∧ frame.length < 2 ^ 31 ∧
    Delivers L host' factory cmd m frame

theorem sendMessage_eq (hcmd : cmd ≠ 0) (havail : σ.isAvailable uid = true)
    (hfit : m.encode.length < 2 ^ 32) :
    σ.sendMessage host uid cmd (.typed m) =
      .ok (σ.pushEvent (.data uid ⟨uid, cmd, 0, 0, some ⟨m.type.identity, m.encode⟩⟩)) := by
  obtain ⟨w, hw, hcontent, -⟩ := writeAll_appends (w := ⟨Buffer.new 128, 0⟩) host
    m.type.fields m.values rfl
    (by rw [Nat.zero_add]; exact hfit)
  have hmessage : SerializeMessage.ofMessage host m = .ok ⟨m.type.identity, m.encode⟩ := by
    simp only [SerializeMessage.ofMessage, hw, ok_bind, hcontent]
    rfl
  simp only [IOEngine.sendMessage, hmessage, ok_bind]
  simp only [IOEngine.send, ne_eq, hcmd, not_false_eq_true, ite_true, havail]
  rfl

/-- The packet that a message is sent in. -/
def Message.packet (m : Message) (uid cmd : UInt32) : IOPacket SerializeMessage :=
  ⟨uid, cmd, 0, 0, some ⟨m.type.identity, m.encode⟩⟩

theorem frameOf_length (m : Message) (uid : UInt32) (hcmd : cmd ≠ 0) :
    (frameOf (m.packet uid cmd).outgoing m.encode).length =
      sizeofHeaderMessage + 4 + m.encode.length := by
  have hframe : frameOf (m.packet uid cmd).outgoing m.encode =
      encode HeaderTypeMessage [cmd] (be32 m.type.identity.toUInt32 ++ m.encode) := by
    simp [frameOf, IOPacket.outgoing, Message.packet, hcmd, frameData, SerializeMessage.toIMessage]
  rw [hframe, encode_length, List.length_append, be32_length]
  simp only [sizeofBlock, sizeofHeaderMessage, List.length_singleton]
  omega

theorem sendFrame_packet (host : Endian) (m : Message) (uid : UInt32) (hcmd : cmd ≠ 0)
    (hshort : sizeofHeaderMessage + 4 + m.encode.length < 2 ^ 31) :
    sendFrame host (m.packet uid cmd).outgoing =
      .ok (frameOf (m.packet uid cmd).outgoing m.encode) := by
  have hserializes (message : IMessage) (h : (m.packet uid cmd).outgoing.message = some message) :
      message.Serializes m.encode := by
    obtain rfl := Option.some.inj h
    exact SerializeMessage.serializes _
  obtain ⟨c, hc⟩ := InnerProtocol.onSerialize_writes host (.inl hcmd) hserializes
    (by rwa [frameOf_length m uid hcmd]) 2048
  simp only [sendFrame, hc, ok_bind]
  rfl

theorem encode_ne_nil (hfields : m.type.fields ≠ []) : m.encode ≠ [] := by
  obtain ⟨⟨identity, fields⟩, values⟩ := m
  cases fields with
  | nil => exact absurd rfl hfields
  | cons t ts =>
    obtain ⟨value, values⟩ := values
    have hpos := t.encode_pos value
    intro hnil
    have hlen := congrArg List.length hnil
    simp only [Message.encode, encodeAll, List.length_append, List.length_nil] at hlen
    omega

/-- The message is made again from the bytes that it was sent as. -/
theorem onPacket_eq (hregistered : factory.creators m.type.identity = some m.type) {key : UInt32}
    (hshort : m.encode.length < 2 ^ 31) :
    MessageHandler.onPacket host unlimited factory (m.packet key cmd) =
      .ok ⟨key, cmd, some (.typed m)⟩ := by
  have hat : At m.encode 0 m.encode := ⟨[], by rw [List.drop_zero, List.append_nil]⟩
  obtain ⟨htarget, -, hstop⟩ := serializeAll_gives host (Nat.lt_trans hshort (by decide))
    m.type.fields m.values (.init m.type.fields) (smallAll_of_length _ _ hshort) hat
  simp only [MessageHandler.onPacket, MessageHandler.onMessageConvert, Message.packet,
    MessageFactory.create, hregistered, Option.map_some, hstop, htarget]

theorem intact_of_fits (hregistered : factory.creators m.type.identity = some m.type)
    (hcmd : cmd ≠ 0) (hheart : cmd ≠ Heart) (havail : σ.isAvailable uid = true)
    (hfields : m.type.fields ≠ [])
    (hshort : sizeofHeaderMessage + 4 + m.encode.length < 2 ^ 31) :
    Intact host host' factory σ uid cmd m := by
  have hlength := frameOf_length m uid hcmd
  refine ⟨m.packet uid cmd, _, sendMessage_eq hcmd havail (by omega),
    sendFrame_packet host m uid hcmd hshort, by omega, fun key capacity hpos hlt before after hsendable chunks hchunks hflatten => ?_⟩
  have hsent : Sendable (m.packet uid cmd).outgoing m.encode := by
    refine ⟨.inl hcmd, fun message hmessage => ?_, by omega⟩
    obtain rfl := Option.some.inj hmessage
    exact ⟨SerializeMessage.serializes _, encode_ne_nil hfields⟩
  let sent := before ++ ((m.packet uid cmd).outgoing, m.encode) :: after
  have hall : ∀ s ∈ sent, Sendable s.1 s.2 := by
    intro s hs
    rcases List.mem_append.mp hs with hs | hs
    · exact hsendable s (List.mem_append_left _ hs)
    · rcases List.mem_cons.mp hs with rfl | hs
      · exact hsent
      · exact hsendable s (List.mem_append_right _ hs)
  have hstream : chunks.flatten = streamOf sent := by
    rw [hflatten]
    simp [streamOf, sent]
  obtain ⟨s, run⟩ := run_of_streamOf host' key hpos hlt hall hchunks (hstream ▸ List.prefix_rfl)
  have hreads := Receiver.run_reads hpos hlt run
  rw [hstream, drain_all hall] at hreads
  rw [← Receiver.run_foldl run]
  obtain ⟨dispatched, verdict⟩ := s
  obtain ⟨hdispatched, hstands⟩ := hreads
  have hreceived : received key (m.packet uid cmd).outgoing m.encode =
      .packet (m.packet key cmd) := by
    simp [received, IOPacket.outgoing, Message.packet, hheart, hcmd, SerializeMessage.toIMessage]
  cases hstands with
  | @waiting _ r hholds =>
    refine ⟨r, m.packet key cmd, ?_, ?_, onPacket_eq hregistered (by omega)⟩
    · simp only at hdispatched
      rw [hdispatched, List.map_append, List.map_cons, hreceived]
    · intro ρ h hρ hhandler
      simp [IOEngine.onIOPacket, IOEngine.dispatchPacket, Message.packet, hρ, hcmd, hhandler]
      rfl

/-- The message of a frame is shorter than the frame, by a header and an identity. -/
theorem frameMessage_length {header : Nat} {frame : List UInt8} {msg : SerializeMessage}
    (h : frameMessage header frame = some msg) :
    header + 4 + msg.buffer.length = frame.length ∧ msg.buffer ≠ [] := by
  unfold frameMessage at h
  split at h
  · cases h
  · rename_i hle
    obtain rfl := Option.some.inj h
    have hlen : (frame.drop (header + 4)).length = frame.length - (header + 4) := List.length_drop
    refine ⟨by simp only [hlen]; omega, fun hnil => ?_⟩
    simp only at hnil
    rw [hnil, List.length_nil] at hlen
    omega

theorem frameContent_length {key : UInt32} {frame : List UInt8} {p : IOPacket SerializeMessage}
    {msg : SerializeMessage} (h : frameContent key frame = .packet p)
    (hmsg : p.message = some msg) :
    sizeofHeaderMessage + 4 + msg.buffer.length ≤ frame.length ∧ msg.buffer ≠ [] := by
  unfold frameContent at h
  split at h
  · obtain rfl := Dispatch.packet.inj h
    obtain ⟨hlen, hne⟩ := frameMessage_length hmsg
    exact ⟨by simp only [sizeofHeaderCall, sizeofHeaderMessage] at hlen ⊢; omega, hne⟩
  · split at h
    · obtain rfl := Dispatch.packet.inj h
      obtain ⟨hlen, hne⟩ := frameMessage_length hmsg
      exact ⟨by simp only [sizeofHeaderCallback, sizeofHeaderMessage] at hlen ⊢; omega, hne⟩
    · split at h
      · cases h
      · obtain rfl := Dispatch.packet.inj h
        obtain ⟨hlen, hne⟩ := frameMessage_length hmsg
        exact ⟨by omega, hne⟩

/-- The one frame of a stream, and what it says. -/
theorem dispatched_length {key : UInt32} {frame : List UInt8} {p : IOPacket SerializeMessage}
    {msg : SerializeMessage} (h : ((frames key).drain frame).1 = [.packet p])
    (hmsg : p.message = some msg) :
    sizeofHeaderMessage + 4 + msg.buffer.length ≤ frame.length ∧ msg.buffer ≠ [] := by
  cases hnext : (frames key).next frame with
  | more =>
    rw [(frames key).drain_more hnext] at h
    cases h
  | halt v =>
    rw [(frames key).drain_halt hnext] at h
    cases h
  | item e rest =>
    obtain ⟨hcomplete, -, -, he, -⟩ := nextFrame_item hnext
    rw [(frames key).drain_item hnext] at h
    obtain ⟨rfl, -⟩ := List.cons.inj h
    obtain ⟨hle, hne⟩ := frameContent_length he.symm hmsg
    rw [List.length_take] at hle
    exact ⟨by omega, hne⟩

/-- A message that a handler gets was read from bytes that hold it. -/
theorem onPacket_length {key : UInt32} {p : IOPacket SerializeMessage}
    (h : MessageHandler.onPacket host unlimited factory p = .ok ⟨key, cmd, some (.typed m)⟩) :
    ∃ msg, p.message = some msg ∧
      (msg.buffer.length < 2 ^ 31 → m.encode.length ≤ msg.buffer.length) := by
  unfold MessageHandler.onPacket at h
  split at h
  · rename_i message hconvert
    simp only [Except.ok.injEq, CMessageContext.mk.injEq] at h
    obtain ⟨-, -, rfl⟩ := h
    unfold MessageHandler.onMessageConvert at hconvert
    cases hp : p.message with
    | none => simp [hp] at hconvert
    | some msg =>
      refine ⟨msg, rfl, fun hlt => ?_⟩
      simp only [hp] at hconvert
      cases hnew : factory.create msg.id with
      | none => simp [hnew] at hconvert
      | some newMsg =>
        simp only [hnew] at hconvert
        have hpost := serializeAll_post host unlimited hlt
          newMsg.type.fields (Nat.zero_le _) newMsg.values
        split at hconvert
        · rename_i hstop
          simp only [Except.ok.injEq, Option.some.injEq, AnyMessage.typed.injEq] at hconvert
          obtain ⟨q, hq, -, hle⟩ := hpost hstop
          have hle' : (encodeAll newMsg.type.fields (serializeAll host unlimited
              newMsg.type.fields ⟨msg.buffer, 0⟩ newMsg.values).target).length ≤
              msg.buffer.length := by omega
          rw [← hconvert]
          exact hle'
        · cases hconvert
  · cases h

/-- What is read of a frame that arrives alone, in one chunk. -/
theorem drain_of_arrives {frame : List UInt8}
    (hshort : frame.length < 2 ^ 31) (h : Delivers L host' factory cmd m frame) :
    ∃ p, ((frames 0).drain frame).1 = [.packet p] ∧
      MessageHandler.onPacket host' unlimited factory p = .ok ⟨0, cmd, some (.typed m)⟩ := by
  by_cases hframe : frame = []
  · obtain ⟨r, p, hreceive, -⟩ := h 0 1 (by decide) (by decide) [] [] nofun [] nofun
      (by rw [hframe]; rfl)
    have hnone := congrArg Receiver.dispatched hreceive
    cases hnone
  · obtain ⟨r, p, hreceive, -, hcontext⟩ := h 0 1 (by decide) (by decide) [] [] nofun [frame]
      (by simpa using ⟨hframe, hshort⟩) (by simp [streamOf])
    have hstep : Receiver.Step host' 0 (.start 1) frame ((Receiver.start 1).receive host' 0 frame) :=
      ⟨hframe, fun buffer hbuffer => by
        obtain rfl := Verdict.accepting.inj hbuffer
        show 0 + frame.length < 2 ^ 32
        omega, rfl⟩
    have hreads := Receiver.run_reads (by decide) (by decide) (Run.single hstep)
    rw [List.flatten_singleton] at hreads
    refine ⟨p, ?_, hcontext⟩
    rw [← hreads.dispatched]
    exact congrArg Receiver.dispatched hreceive

theorem fits_of_intact (hcmd : cmd ≠ 0) (havail : σ.isAvailable uid = true)
    (h : Intact host host' factory σ uid cmd m) :
    m.type.fields ≠ [] ∧ sizeofHeaderMessage + 4 + m.encode.length < 2 ^ 31 := by
  obtain ⟨packet, frame, hsend, hframe, hshort, harrives⟩ := h
  obtain ⟨p, hdrain, hcontext⟩ := drain_of_arrives hshort harrives
  obtain ⟨msg, hmsg, hfit⟩ := onPacket_length hcontext
  obtain ⟨hle, hne⟩ := dispatched_length hdrain hmsg
  have hencode := hfit (by omega)
  refine ⟨fun hfields => ?_, by omega⟩
  have hempty : m.encode = [] := by
    obtain ⟨⟨identity, fields⟩, values⟩ := m
    obtain rfl : fields = [] := hfields
    rfl
  have hpacket : packet = m.packet uid cmd := by
    rw [sendMessage_eq hcmd havail (by rw [hempty]; decide)] at hsend
    have hevents := congrArg IOEngine.events (Except.ok.inj hsend)
    simp only [IOEngine.pushEvent, List.append_cancel_left_eq, List.cons.injEq, Event.data.injEq,
      true_and, and_true] at hevents
    exact hevents.symm
  have hsent := sendFrame_packet host m uid hcmd (by rw [hempty]; decide)
  rw [hpacket, hsent] at hframe
  have hlength := frameOf_length m uid hcmd
  rw [Except.ok.inj hframe, hempty, List.length_nil] at hlength
  exact hne (List.eq_nil_of_length_eq_zero (by omega))

/-- A message of a registered class arrives as it was sent if and only if it has a field, and a size
below `2^31` with its header and identity. -/
theorem message_intact_iff (host host' : Endian)
    (hregistered : factory.creators m.type.identity = some m.type) (hcmd : cmd ≠ 0)
    (hheart : cmd ≠ Heart) (havail : σ.isAvailable uid = true) :
    Intact host host' factory σ uid cmd m ↔
      m.type.fields ≠ [] ∧ sizeofHeaderMessage + 4 + m.encode.length < 2 ^ 31 :=
  ⟨fits_of_intact hcmd havail,
    fun ⟨hfields, hshort⟩ => intact_of_fits hregistered hcmd hheart havail hfields hshort⟩

/-! ### Messages of a small server -/

/-- An engine with one connection. -/
def serving : IOEngine (List HandlerId) SerializeMessage :=
  { callbackTimeOutList := []
    protocols := fun uid => if uid = 1 then some 0 else none
    protocol := fun _ => { type := .CONNECTOR, key := 1, available := true } }

/-- A message with two numbers and a text, one with no fields, and their factory. -/
def report : Message where
  type := ⟨9999, [.int .int32, .vector (.int .int64), .string]⟩
  values := ((-3 : Int32), ([1, 2] : List Int64), ([104, 105] : List UInt8), ())

def tick : Message := ⟨⟨7, []⟩, ()⟩

def factoryOf (ms : List Message) : MessageFactory :=
  ⟨fun id => (ms.map Message.type).find? fun type => type.identity = id⟩

theorem message_intact_iff_report :
    let _ := IntrusiveNode.list
    Intact .little .big (factoryOf [report, tick]) serving 1 5 report := by
  let _ := IntrusiveNode.list
  exact (message_intact_iff .little .big (by decide) (by decide) (by decide) (by decide)).mpr
    ⟨by decide, by decide⟩

/-- A message with no fields arrives as a null pointer. -/
theorem message_null :
    let _ := IntrusiveNode.list
    ¬Intact .little .big (factoryOf [report, tick]) serving 1 5 tick ∧
      nextFrame 1 [0x83, 0, 0, 0, 13, 0, 0, 0, 5, 0, 0, 0, 7] =
        .item (.packet ⟨1, 5, 0, 0, none⟩) [] ∧
      sendFrame .little (tick.packet 1 5).outgoing =
        .ok [0x83, 0, 0, 0, 13, 0, 0, 0, 5, 0, 0, 0, 7] := by
  let _ := IntrusiveNode.list
  refine ⟨fun h => ?_, rfl, ?_⟩
  · exact (fits_of_intact (by decide) (by decide) h).1 rfl
  · exact sendFrame_packet .little tick 1 (by decide) (by decide)

end ZlNet.Engine
