import ZlNet.Engine.Cluster
import ZlNet.Engine.Proof.RoundTrip

/-! A handshake on its way from one node to another: the bytes that it is packed in, the frame that
its packet is sent as, and what the other node unpacks. -/

namespace ZlNet.Engine

open Network Lib Lib.Word Lib.Bytes

/-! ### The bytes of a handshake -/

section Packing

variable {host host' : Endian} {w w' : Buffer.Writer} {bytes : List UInt8} {h : Handshake}
  {msg : SerializeMessage}

theorem ensure_content {b b' : Buffer} {size : Nat} (h : b.ensure size = .ok b') :
    b'.content = b.content := by
  unfold Buffer.ensure at h
  split at h
  · obtain rfl := Except.ok.inj h
    rfl
  split at h
  · obtain rfl := Except.ok.inj h
    rfl
  · cases h

/-- The bytes that were written are in the buffer, however many they are. -/
theorem writeBytes_grows (hwrite : w.writeBytes bytes = .ok w') :
    bytes.length ≤ w'.buf.content.length := by
  obtain ⟨buf, hbuf, hw⟩ := of_bind_ok hwrite
  obtain rfl := Except.ok.inj hw
  obtain ⟨_, -, hbuf⟩ := of_bind_ok hbuf
  obtain ⟨b, -, hbuf⟩ := of_bind_ok hbuf
  split at hbuf
  · cases hbuf
  · obtain rfl := Except.ok.inj hbuf
    rw [List.length_append]
    omega

theorem writeScalar_grows {s : Scalar} {value : s.T} (hwrite : w.writeScalar host s value = .ok w') :
    w.buf.content.length ≤ w'.buf.content.length := by
  obtain ⟨⟨p, buf⟩, hptr, hwrite⟩ := of_bind_ok hwrite
  obtain ⟨off, -, hwrite⟩ := of_bind_ok hwrite
  obtain ⟨content, hcopy, hw⟩ := of_bind_ok hwrite
  obtain rfl := Except.ok.inj hw
  have hstore : content.length = buf.content.length := by
    unfold copyIn at hcopy
    split at hcopy
    · next mem hmem =>
      obtain rfl := Except.ok.inj hcopy
      obtain ⟨hle, rfl⟩ := Block.store_eq_some.mp hmem
      simp only [List.length_append, List.length_take, List.length_drop]
      omega
    · cases hcopy
  rw [hstore]
  simp only [Buffer.writePtr] at hptr
  split at hptr
  · cases hptr
    exact Nat.le_refl _
  · obtain ⟨b, hb, hptr⟩ := of_bind_ok hptr
    cases hptr
    rw [← ensure_content hb, List.length_append]
    omega

theorem length_toNat (value : List UInt8) :
    (Int32.ofNat value.length).toUInt32.toNat = value.length % 2 ^ 32 :=
  BitVec.toNat_ofNat ..

theorem length_take_mod (value : List UInt8) :
    (value.take (value.length % 2 ^ 32)).length = value.length % 2 ^ 32 := by
  rw [List.length_take]
  exact Nat.min_eq_left (Nat.mod_le _ _)

theorem writeString_grows {value : List UInt8} (hwrite : writeString host w value = .ok w') :
    value.length % 2 ^ 32 ≤ w'.buf.content.length := by
  obtain ⟨v, -, hbytes⟩ := of_bind_ok hwrite
  have hgrows := writeBytes_grows hbytes
  rwa [length_toNat, length_take_mod] at hgrows

/-- As much of a string is written as the length in front of it says. -/
theorem writeString_take (w : Buffer.Writer) (value : List UInt8) :
    writeString host w (value.take (value.length % 2 ^ 32)) = writeString host w value := by
  have hsame : Int32.ofNat (value.length % 2 ^ 32) = Int32.ofNat value.length :=
    congrArg (fun bits : BitVec 32 => (⟨⟨bits⟩⟩ : Int32)) (BitVec.eq_of_toNat_eq (by simp))
  simp only [writeString, length_take_mod, hsame, length_toNat, List.take_take, Nat.min_self]

theorem pack_take : { h with info := h.info.take (h.info.length % 2 ^ 32) }.pack host =
    h.pack host := by
  simp only [Handshake.pack, Handshake.vals, writeAll, Ty.write, writeString_take]

theorem encode_length_handshake (h : Handshake) :
    (encodeAll Handshake.types h.vals).length = 20 + h.info.length := by
  simp only [Handshake.vals, encodeAll, Ty.encode, encodeString, List.length_append, toBe_length,
    List.length_nil]
  omega

/-- A handshake is packed as its four numbers, and as much of its text as the length in front of that
says. -/
theorem pack_encode (hpack : h.pack host = .ok msg) (hshort : msg.buffer.length < 2 ^ 31) :
    ∃ info, msg.buffer = encodeAll Handshake.types { h with info }.vals := by
  let info := h.info.take (h.info.length % 2 ^ 32)
  have hpacked := pack_take.trans hpack
  obtain ⟨w, hw, hmsg⟩ := of_bind_ok hpacked
  obtain rfl := Except.ok.inj hmsg
  have hinfo : info.length < 2 ^ 31 := by
    have hlen : info.length % 2 ^ 32 = info.length := by
      rw [length_take_mod, Nat.mod_mod]
    obtain ⟨w₁, -, hw⟩ := of_bind_ok hw
    obtain ⟨w₂, -, hw⟩ := of_bind_ok hw
    obtain ⟨w₃, h₃, hw⟩ := of_bind_ok hw
    obtain ⟨w₄, h₄, hw⟩ := of_bind_ok hw
    obtain ⟨w₅, h₅, hw⟩ := of_bind_ok hw
    obtain rfl := Except.ok.inj hw
    calc info.length = info.length % 2 ^ 32 := hlen.symm
      _ ≤ w₃.buf.content.length := writeString_grows h₃
      _ ≤ w₄.buf.content.length := writeScalar_grows h₄
      _ ≤ w₅.buf.content.length := writeScalar_grows h₅
      _ < 2 ^ 31 := hshort
  obtain ⟨w', hw', hcontent, -⟩ := writeAll_appends host Handshake.types { h with info }.vals
    (w := ⟨Buffer.new 128, 0⟩) rfl
    (by rw [encode_length_handshake]; change 0 + (20 + info.length) < 2 ^ 32; omega)
  obtain rfl := Except.ok.inj (hw'.symm.trans hw)
  exact ⟨info, hcontent⟩

/-- What a node packs, any other node unpacks, up to the text. -/
theorem unpack_of_pack (hpack : h.pack host = .ok msg) (hshort : msg.buffer.length < 2 ^ 31) :
    ∃ info, Handshake.unpack host' msg = .ok { h with info } := by
  obtain ⟨info, hbuffer⟩ := pack_encode hpack hshort
  refine ⟨info, ?_⟩
  let values : Vals Handshake.types := { h with info }.vals
  have hbuffer : msg.buffer = encodeAll Handshake.types values := hbuffer
  have hlt : (encodeAll Handshake.types values).length < 2 ^ 31 := hbuffer ▸ hshort
  have hrestores := unpack_encodeAll host' Handshake.types values (Handshake.vals {})
    (smallAll_of_length _ _ hlt) (Nat.lt_trans hlt (by decide))
  rw [← hbuffer] at hrestores
  have hunlimited : (fun _ _ => true : Ty → Nat → Bool) = unlimited := rfl
  simp only [Handshake.unpack, hunlimited, hrestores.returned, hrestores.target]
  rfl

end Packing

/-! ### The frame of a packet -/

section Framing

variable {host : Endian} {key : UInt32} {frame rest : List UInt8} {dispatch : Dispatch}

/-- A frame is sent only for a packet that says whom it is for. -/
theorem addressed_of_read {packet : IOPacket IMessage} (hsend : sendFrame host packet = .ok frame)
    (hread : nextFrame key frame = .item dispatch rest) :
    packet.cmd ≠ 0 ∨ packet.callbackId ≠ 0 := by
  by_contra hnot
  obtain ⟨hcmd, hcallback⟩ : packet.cmd = 0 ∧ packet.callbackId = 0 := by simpa using hnot
  obtain ⟨⟨_, buffer⟩, hserialize, hframe⟩ := of_bind_ok hsend
  obtain rfl := Except.ok.inj hframe
  obtain ⟨⟨innerBuf, datasize⟩, -, hserialize⟩ := of_bind_ok hserialize
  simp only [hcmd, hcallback, ne_eq, not_true_eq_false, if_false] at hserialize
  cases hserialize
  cases hread

/-- What is read of a frame has the command that was sent. -/
theorem nextFrame_cmd {packet : IOPacket IMessage} {body : List UInt8}
    {p : IOPacket SerializeMessage} (haddressed : packet.cmd ≠ 0 ∨ packet.callbackId ≠ 0)
    (hshort : (frameOf packet body).length < 2 ^ 31)
    (hread : nextFrame key (frameOf packet body) = .item (.packet p) rest) :
    p.uid = key ∧ p.cmd = packet.cmd := by
  have hshort : (frameOf packet body).length < 2 ^ 32 := by omega
  have hdata : frameData packet.message body = [] ∨ 4 ≤ (frameData packet.message body).length := by
    cases hm : packet.message with
    | none => exact .inl rfl
    | some m => exact .inr (by simp [frameData])
  rw [← List.append_nil (frameOf packet body)] at hread
  rcases frameOf_cases haddressed body with ⟨hcmd, hcallback, hframe⟩ | ⟨hcmd, hcallback, hframe⟩ |
    ⟨hcmd, hcallback, hframe⟩
  · have hkind : frameType (encode HeaderTypeCall [packet.cmd, packet.callbackId]
      (frameData packet.message body)) = HeaderTypeCall := rfl
    rw [hframe] at hshort hread
    rw [nextFrame_encode hshort rfl hdata] at hread
    simp only [frameContent, hkind, if_true, wordAt_field] at hread
    obtain ⟨hp, -⟩ := Decoded.item.inj hread
    obtain rfl := Dispatch.packet.inj hp
    exact ⟨rfl, rfl⟩
  · have hkind : frameType (encode HeaderTypeMessage [packet.cmd]
      (frameData packet.message body)) = HeaderTypeMessage := rfl
    have hcall : HeaderTypeMessage ≠ HeaderTypeCall := by decide
    have hreply : HeaderTypeMessage ≠ HeaderTypeCallback := by decide
    rw [hframe] at hshort hread
    rw [nextFrame_encode hshort rfl hdata] at hread
    simp only [frameContent, hkind, hcall, hreply, if_false, wordAt_field] at hread
    obtain ⟨hp, -⟩ := Decoded.item.inj hread
    split at hp
    · cases hp
    · obtain rfl := Dispatch.packet.inj hp
      exact ⟨rfl, rfl⟩
  · have hkind : frameType (encode HeaderTypeCallback [packet.callbackId, packet.error]
      (frameData packet.message body)) = HeaderTypeCallback := rfl
    have hcall : HeaderTypeCallback ≠ HeaderTypeCall := by decide
    rw [hframe] at hshort hread
    rw [nextFrame_encode hshort rfl hdata] at hread
    simp only [frameContent, hkind, hcall, if_true, if_false] at hread
    obtain ⟨hp, -⟩ := Decoded.item.inj hread
    obtain rfl := Dispatch.packet.inj hp
    exact ⟨rfl, hcmd.symm⟩

variable {packet : IOPacket SerializeMessage}

theorem sendFrame_outgoing (haddressed : packet.cmd ≠ 0 ∨ packet.callbackId ≠ 0)
    (hshort : (frameOf packet.outgoing packet.body).length < 2 ^ 31) :
    sendFrame host packet.outgoing = .ok (frameOf packet.outgoing packet.body) := by
  have hserializes (message : IMessage) (hmessage : packet.outgoing.message = some message) :
      message.Serializes packet.body := by
    obtain ⟨msg, hmsg, rfl⟩ := Option.map_eq_some_iff.mp hmessage
    have hbody : packet.body = msg.buffer := by simp [IOPacket.body, hmsg]
    rw [hbody]
    exact SerializeMessage.serializes msg
  obtain ⟨capacity, hc⟩ :=
    InnerProtocol.onSerialize_writes host haddressed hserializes hshort 2048
  simp only [sendFrame, hc, ok_bind]
  rfl

/-- What arrives of a packet has the key of the connection, and the command of the packet. -/
theorem arrives_cmd (hsend : sendFrame host packet.outgoing = .ok frame)
    (hshort : (frameOf packet.outgoing packet.body).length < 2 ^ 31)
    {p : IOPacket SerializeMessage} (hread : nextFrame key frame = .item (.packet p) rest) :
    p.uid = key ∧ p.cmd = packet.cmd := by
  have haddressed := addressed_of_read hsend hread
  obtain rfl := Except.ok.inj ((sendFrame_outgoing haddressed hshort).symm.trans hsend)
  exact nextFrame_cmd haddressed hshort hread

/-- A ping or a pong arrives as it was sent, and its message is shorter than its frame. -/
theorem arrives_handshake {host' : Endian} {h : Handshake} {msg : SerializeMessage} {uid cmd : UInt32}
    (hcmd : cmd = Ping ∨ cmd = Pong) (hpack : h.pack host' = .ok msg)
    (hsend : sendFrame host (IOPacket.outgoing ⟨uid, cmd, 0, 0, some msg⟩) = .ok frame)
    (hshort : (frameOf (IOPacket.outgoing ⟨uid, cmd, 0, 0, some msg⟩) msg.buffer).length < 2 ^ 31)
    (hread : nextFrame key frame = .item dispatch rest) :
    dispatch = .packet ⟨key, cmd, 0, 0, some msg⟩ ∧ msg.buffer.length < 2 ^ 31 := by
  have hne : cmd ≠ 0 ∧ cmd ≠ Heart := by
    rcases hcmd with rfl | rfl
    · exact ⟨by decide, by decide⟩
    · exact ⟨by decide, by decide⟩
  let packet : IOPacket SerializeMessage := ⟨uid, cmd, 0, 0, some msg⟩
  have hframe : frameOf packet.outgoing msg.buffer =
      encode HeaderTypeMessage [cmd] (be32 msg.id.toUInt32 ++ msg.buffer) := by
    simp [frameOf, packet, IOPacket.outgoing, hne, frameData, SerializeMessage.toIMessage]
  have hlength : msg.buffer.length < 2 ^ 31 := by
    have hshort : (frameOf packet.outgoing msg.buffer).length < 2 ^ 31 := hshort
    rw [hframe, encode_length, List.length_append] at hshort
    omega
  have hbuffer : msg.buffer ≠ [] := by
    obtain ⟨info, hencode⟩ := pack_encode hpack hlength
    intro hnil
    have hcount := encode_length_handshake { h with info }
    rw [← hencode, hnil, List.length_nil] at hcount
    omega
  have hsent : sendFrame host packet.outgoing = .ok (frameOf packet.outgoing packet.body) :=
    sendFrame_outgoing (.inl hne.1) hshort
  obtain rfl := Except.ok.inj (hsent.symm.trans hsend)
  have hsendable : Sendable packet.outgoing msg.buffer := by
    refine ⟨.inl hne.1, fun message hmessage => ?_, hshort⟩
    obtain rfl := Option.some.inj hmessage
    exact ⟨SerializeMessage.serializes msg, hbuffer⟩
  have hreceived : received key packet.outgoing msg.buffer =
      .packet ⟨key, cmd, 0, 0, some msg⟩ := by
    simp [received, packet, IOPacket.outgoing, hne, SerializeMessage.toIMessage]
  have hnext := nextFrame_frameOf key hsendable []
  rw [List.append_nil] at hnext
  rw [← hreceived]
  exact ⟨(Decoded.item.inj (hread.symm.trans hnext)).1, hlength⟩

end Framing

end ZlNet.Engine
