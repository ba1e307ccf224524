import ZlNet.Engine.Frame
import ZlNet.Network.Proof.Buffer

/-! `onSerialize` writes a packet as one frame, from which the packet is read back. -/

namespace ZlNet.Engine

open Network Lib Lib.Bytes Lib.Block Lib.Word

/-- A message that appends `body` to whatever has been written before it. -/
def IMessage.Serializes (message : IMessage) (body : List UInt8) : Prop :=
  ∀ w : BufferWriter, w.AtEnd → w.pos + body.length < 2 ^ 32 →
    ∃ w', message.serialize w = .ok w' ∧ w'.buf.content = w.buf.content ++ body ∧ w'.AtEnd

/-- A message that is itself a block of bytes, as a received one is. -/
def SerializeMessage.toIMessage (message : SerializeMessage) : IMessage where
  identity := message.id
  serialize w := w.writeBytes message.buffer

theorem SerializeMessage.serializes (message : SerializeMessage) :
    message.toIMessage.Serializes message.buffer :=
  fun _ hend hfit => BufferWriter.writeBytes_end hend hfit

theorem flatMap_be32_length (fields : List UInt32) :
    (fields.flatMap be32).length = 4 * fields.length := by
  induction fields with
  | nil => rfl
  | cons field fields ih =>
    rw [List.flatMap_cons, List.length_append, ih, be32_length, List.length_cons]
    omega

/-- A frame with the given type, fields and data. -/
def encode (type : UInt8) (fields : List UInt32) (data : List UInt8) : List UInt8 :=
  type :: (be32 (.ofNat (data.length + (sizeofBlock + 4 * fields.length))) ++
    (fields.flatMap be32 ++ data))

theorem encode_length (type : UInt8) (fields : List UInt32) (data : List UInt8) :
    (encode type fields data).length = data.length + (sizeofBlock + 4 * fields.length) := by
  simp only [encode, List.length_cons, List.length_append, be32_length, flatMap_be32_length,
    sizeofBlock]
  omega

/-- The identity and the bytes of a message, if there is one. -/
def frameData (message : Option IMessage) (body : List UInt8) : List UInt8 :=
  match message with
  | none => []
  | some message => be32 message.identity.toUInt32 ++ body

/-- The frame of a packet whose message, if it has one, writes `body`. -/
def frameOf (packet : IOPacket IMessage) (body : List UInt8) : List UInt8 :=
  let data := frameData packet.message body
  if packet.cmd ≠ 0 then
    if packet.callbackId ≠ 0 then encode HeaderTypeCall [packet.cmd, packet.callbackId] data
    else encode HeaderTypeMessage [packet.cmd] data
  else encode HeaderTypeCallback [packet.callbackId, packet.error] data

/-- A packet that says whom it is for, with no message or one of at least one byte. -/
structure Sendable (packet : IOPacket IMessage) (body : List UInt8) : Prop where
  addressed : packet.cmd ≠ 0 ∨ packet.callbackId ≠ 0
  serializes : ∀ message, packet.message = some message → message.Serializes body ∧ body ≠ []
  short : (frameOf packet body).length < 2 ^ 31

/-- The three kinds of frames. -/
theorem frameOf_cases {packet : IOPacket IMessage} (h : packet.cmd ≠ 0 ∨ packet.callbackId ≠ 0)
    (body : List UInt8) :
    (packet.cmd ≠ 0 ∧ packet.callbackId ≠ 0 ∧ frameOf packet body =
      encode HeaderTypeCall [packet.cmd, packet.callbackId] (frameData packet.message body)) ∨
    (packet.cmd ≠ 0 ∧ packet.callbackId = 0 ∧ frameOf packet body =
      encode HeaderTypeMessage [packet.cmd] (frameData packet.message body)) ∨
    (packet.cmd = 0 ∧ packet.callbackId ≠ 0 ∧ frameOf packet body =
      encode HeaderTypeCallback [packet.callbackId, packet.error]
        (frameData packet.message body)) := by
  by_cases hcmd : packet.cmd = 0
  · have hcallback : packet.callbackId ≠ 0 := h.resolve_left fun hne => hne hcmd
    exact .inr (.inr ⟨hcmd, hcallback, by simp [frameOf, hcmd]⟩)
  · by_cases hcallback : packet.callbackId = 0
    · exact .inr (.inl ⟨hcmd, hcallback, by simp [frameOf, hcmd, hcallback]⟩)
    · exact .inl ⟨hcmd, hcallback, by simp [frameOf, hcmd, hcallback]⟩

/-- What the receiver makes of a packet. -/
def received (key : UInt32) (packet : IOPacket IMessage) (body : List UInt8) : Dispatch :=
  if packet.cmd = Heart ∧ packet.callbackId = 0 then .heart
  else .packet
    { uid := key
      cmd := packet.cmd
      callbackId := packet.callbackId
      error := if packet.cmd = 0 then packet.error else 0
      message := packet.message.map fun message => ⟨message.identity, body⟩ }

namespace InnerProtocol

/-! ### Writing -/

theorem putFields_eq (host : Endian) (fields : List UInt32) (before old after : List UInt8)
    (hlen : old.length = 4 * fields.length) :
    putFields host (before ++ (old ++ after)) before.length fields =
      .ok (before ++ (fields.flatMap be32 ++ after)) := by
  induction fields generalizing before old with
  | nil =>
    have hnil : old = [] := List.eq_nil_of_length_eq_zero (by simpa using hlen)
    subst hnil
    rfl
  | cons field fields ih =>
    rw [List.length_cons] at hlen
    have hstore : store (before ++ (old ++ after)) before.length (be32 field) =
        some (before ++ (be32 field ++ (old.drop 4 ++ after))) :=
      store_middle before (old.take 4) _ (by
        rw [← List.append_assoc (old.take 4), List.take_append_drop]) rfl (by
        rw [be32_length, List.length_take]
        omega)
    have hrest := ih (before ++ be32 field) (old.drop 4) (by
      rw [List.length_drop]
      omega)
    rw [List.length_append, be32_length, List.append_assoc, List.append_assoc] at hrest
    simp only [putFields, store32_hostToNetwork32, copyIn_eq hstore, ok_bind, hrest,
      List.flatMap_cons, List.append_assoc]

theorem putFrame_eq (host : Endian) (buffer : StackBuffer) {innerBuf : StackBuffer} (type : UInt8)
    (fields : List UInt32) (hempty : buffer.content = [])
    (hfit : innerBuf.size + (sizeofBlock + 4 * fields.length) < 2 ^ 32) :
    ∃ capacity, putFrame host buffer (sizeofBlock + 4 * fields.length) type fields innerBuf
      innerBuf.size = .ok ⟨encode type fields innerBuf.content, capacity⟩ := by
  let data := innerBuf.content
  let words := UInt32.ofNat (innerBuf.size + (sizeofBlock + 4 * fields.length)) :: fields
  let room (n : Nat) : List UInt8 := List.replicate n 0
  have hwords : (words.flatMap be32).length = 4 * words.length := flatMap_be32_length words
  have hcount : 4 * words.length + 1 = sizeofBlock + 4 * fields.length := by
    simp only [words, List.length_cons, sizeofBlock]
    omega
  have hsum : add32 innerBuf.size (sizeofBlock + 4 * fields.length) =
      innerBuf.size + (sizeofBlock + 4 * fields.length) := add32_eq hfit
  obtain ⟨c, hwrite⟩ := StackBuffer.writePtr_empty hempty hfit
  -- the room that is made for the type, the fields and the message
  have hroom : List.replicate (innerBuf.size + (sizeofBlock + 4 * fields.length)) 0 =
      [] ++ ([0] ++ (room (4 * words.length) ++ room data.length)) := by
    have htotal : innerBuf.size + (sizeofBlock + 4 * fields.length) =
        1 + (4 * words.length + data.length) := by
      have : innerBuf.size = data.length := rfl
      omega
    rw [htotal, List.replicate_add, List.replicate_add]
    rfl
  rw [hroom] at hwrite
  have htype : copyIn ([] ++ ([0] ++ (room (4 * words.length) ++ room data.length))) 0 [type] =
      .ok ([type] ++ (room (4 * words.length) ++ room data.length)) :=
    copyIn_eq (store_middle [] [0] _ rfl rfl rfl)
  have hfields : putFields host ([type] ++ (room (4 * words.length) ++ room data.length)) (0 + 1)
      words = .ok ([type] ++ (words.flatMap be32 ++ room data.length)) :=
    putFields_eq host words [type] _ _ List.length_replicate
  have hread : innerBuf.read 0 innerBuf.size = .ok data := innerBuf.read_all (by omega)
  have hoff : 0 + (sizeofBlock + 4 * fields.length) = ([type] ++ words.flatMap be32).length := by
    rw [List.length_append, hwords, List.length_singleton]
    omega
  have hdata : copyIn ([type] ++ (words.flatMap be32 ++ room data.length))
      (0 + (sizeofBlock + 4 * fields.length)) data =
      .ok (([type] ++ words.flatMap be32) ++ (data ++ [])) :=
    copyIn_eq (store_middle _ (room data.length) [] (by simp) hoff List.length_replicate.symm)
  have hencode : ([type] ++ words.flatMap be32) ++ (data ++ []) =
      encode type fields innerBuf.content := by
    simp [encode, words, data, StackBuffer.size]
  rw [hencode] at hdata
  refine ⟨c, ?_⟩
  simp only [putFrame, hsum, hwrite, deref, ok_bind, htype, hread]
  change (putFields host _ (0 + 1) words >>= _) = _
  rw [hfields]
  change (copyIn _ (0 + (sizeofBlock + 4 * fields.length)) data >>= _) = _
  rw [hdata]
  rfl

theorem serializeMessage_eq (host : Endian) {message : Option IMessage} {body : List UInt8}
    (h : ∀ m, message = some m → m.Serializes body)
    (hfit : (frameData message body).length < 2 ^ 32) :
    ∃ innerBuf, serializeMessage host message = .ok (innerBuf, innerBuf.size) ∧
      innerBuf.content = frameData message body := by
  cases message with
  | none => exact ⟨.new INIT_BUFFER_SIZE, rfl, rfl⟩
  | some message =>
    simp only [frameData, List.length_append, be32_length] at hfit ⊢
    obtain ⟨w, hw, hwcontent, hwend⟩ := BufferWriter.writeInt32_end
      (w := ⟨.new INIT_BUFFER_SIZE, 0⟩) host message.identity rfl (by decide)
    have hwpos : w.pos = 4 := by
      rw [hwend, StackBuffer.size, hwcontent]
      rfl
    obtain ⟨w', hw', hw'content, hw'end⟩ := h message rfl w hwend (by omega)
    refine ⟨w'.buf, ?_, ?_⟩
    · simp only [serializeMessage, hw, hw', ok_bind, BufferWriter.bytesWritten]
      rw [hw'end]
      rfl
    · rw [hw'content, hwcontent]
      rfl

/-- A packet is written as its frame, also where its message writes nothing. -/
theorem onSerialize_writes (host : Endian) {packet : IOPacket IMessage} {body : List UInt8}
    (haddressed : packet.cmd ≠ 0 ∨ packet.callbackId ≠ 0)
    (hserializes : ∀ message, packet.message = some message → message.Serializes body)
    (hshort : (frameOf packet body).length < 2 ^ 31) (FIXED_SIZE : Nat) :
    ∃ capacity, onSerialize host packet (.new FIXED_SIZE) =
      .ok (true, ⟨frameOf packet body, capacity⟩) := by
  have hcases := frameOf_cases haddressed body
  have hdata : (frameData packet.message body).length < 2 ^ 32 := by
    rcases hcases with ⟨-, -, hframe⟩ | ⟨-, -, hframe⟩ | ⟨-, -, hframe⟩
    all_goals
      rw [hframe, encode_length] at hshort
      omega
  obtain ⟨innerBuf, hinner, hcontent⟩ := serializeMessage_eq host hserializes hdata
  have hput {type : UInt8} {fields : List UInt32}
      (hframe : frameOf packet body = encode type fields (frameData packet.message body)) :
      ∃ capacity, putFrame host (.new FIXED_SIZE) (sizeofBlock + 4 * fields.length) type fields
        innerBuf innerBuf.size = .ok ⟨frameOf packet body, capacity⟩ := by
    have hfit : innerBuf.size + (sizeofBlock + 4 * fields.length) < 2 ^ 32 := by
      rw [hframe, encode_length, ← hcontent] at hshort
      unfold StackBuffer.size
      omega
    obtain ⟨c, hc⟩ := putFrame_eq host (.new FIXED_SIZE) type fields rfl hfit
    exact ⟨c, by rw [hc, hcontent, hframe]⟩
  simp only [onSerialize, hinner, ok_bind]
  rcases hcases with ⟨hcmd, hcallback, hframe⟩ | ⟨hcmd, hcallback, hframe⟩ |
    ⟨hcmd, hcallback, hframe⟩
  · obtain ⟨c, hc⟩ := hput hframe
    have hcall : putCall host packet (.new FIXED_SIZE) innerBuf innerBuf.size =
      .ok ⟨frameOf packet body, c⟩ := hc
    exact ⟨c, by simp [hcmd, hcallback, hcall]⟩
  · obtain ⟨c, hc⟩ := hput hframe
    have hmessage : putMessage host packet (.new FIXED_SIZE) innerBuf innerBuf.size =
      .ok ⟨frameOf packet body, c⟩ := hc
    exact ⟨c, by simp [hcmd, hcallback, hmessage]⟩
  · obtain ⟨c, hc⟩ := hput hframe
    have hreply : putCallback host packet (.new FIXED_SIZE) innerBuf innerBuf.size =
      .ok ⟨frameOf packet body, c⟩ := hc
    exact ⟨c, by simp [hcmd, hcallback, hreply]⟩

/-- A packet to send is written as its frame. -/
theorem onSerialize_eq (host : Endian) {packet : IOPacket IMessage} {body : List UInt8}
    (h : Sendable packet body) (FIXED_SIZE : Nat) :
    ∃ capacity, onSerialize host packet (.new FIXED_SIZE) =
      .ok (true, ⟨frameOf packet body, capacity⟩) :=
  onSerialize_writes host h.addressed (fun m hm => (h.serializes m hm).1) h.short FIXED_SIZE

end InnerProtocol

/-! ### Reading back -/

section Decode

variable {type : UInt8} {fields : List UInt32} {data : List UInt8}

theorem wordAt_middle (before after : List UInt8) (w : UInt32) :
    wordAt (before ++ (be32 w ++ after)) before.length = w := by
  unfold wordAt
  rw [List.drop_left, List.take_left' (be32_length w), ofBe32_be32]

theorem encode_declared (h : (encode type fields data).length < 2 ^ 32) (x : List UInt8) :
    declared (encode type fields data ++ x) = (encode type fields data).length := by
  have hword := wordAt_middle [type] ((fields.flatMap be32 ++ data) ++ x)
    (.ofNat (data.length + (sizeofBlock + 4 * fields.length)))
  have hsplit : encode type fields data ++ x = [type] ++
      (be32 (.ofNat (data.length + (sizeofBlock + 4 * fields.length))) ++
        ((fields.flatMap be32 ++ data) ++ x)) := by
    simp [encode]
  rw [encode_length] at h ⊢
  unfold declared
  rw [hsplit]
  change (wordAt _ [type].length).toNat = _
  rw [hword, UInt32.toNat_ofNat']
  omega

theorem encode_complete (h : (encode type fields data).length < 2 ^ 32) (x : List UInt8) :
    Complete (encode type fields data ++ x) := by
  refine ⟨?_, ?_⟩
  · rw [List.length_append, encode_length]
    omega
  · rw [encode_declared h, List.length_append]
    omega

/-- A frame with a header of the right size is read from the start of a stream. -/
theorem nextFrame_encode {key : UInt32} (h : (encode type fields data).length < 2 ^ 32)
    (htype : headerSize type = some (sizeofBlock + 4 * fields.length))
    (hdata : data = [] ∨ 4 ≤ data.length) (x : List UInt8) :
    nextFrame key (encode type fields data ++ x) =
      .item (frameContent key (encode type fields data)) x := by
  have hdeclared := encode_declared h x
  have hpos : (encode type fields data).length ≠ 0 := by
    rw [encode_length]
    unfold sizeofBlock
    omega
  have hwell : WellSized (sizeofBlock + 4 * fields.length) (encode type fields data).length := by
    rw [encode_length]
    unfold WellSized
    rcases hdata with rfl | hdata
    · simp
    · omega
  have hkind : frameType (encode type fields data ++ x) = type := rfl
  simp only [nextFrame, encode_complete h x, ite_true, hdeclared, hpos, ite_false, hkind, htype,
    hwell]
  rw [List.take_left, List.drop_left]

/-- The header of a frame, up to its fields. -/
theorem encode_split (type : UInt8) (fields : List UInt32) (data : List UInt8) :
    ∃ before, before.length = sizeofBlock + 4 * fields.length ∧
      encode type fields data = before ++ data := by
  refine ⟨type :: (be32 (.ofNat (data.length + (sizeofBlock + 4 * fields.length))) ++
    fields.flatMap be32), ?_, by simp [encode]⟩
  simp only [List.length_cons, List.length_append, be32_length, flatMap_be32_length, sizeofBlock]
  omega

theorem frameMessage_encode {message : Option IMessage} {body : List UInt8}
    (h : ∀ m, message = some m → body ≠ []) :
    frameMessage (sizeofBlock + 4 * fields.length) (encode type fields (frameData message body)) =
      message.map fun m => ⟨m.identity, body⟩ := by
  cases message with
  | none =>
    have hle : (encode type fields (frameData none body)).length ≤
        sizeofBlock + 4 * fields.length + 4 := by
      rw [encode_length]
      simp only [frameData, List.length_nil]
      omega
    simp only [frameMessage, hle, ite_true, Option.map_none]
  | some m =>
    have hbody := List.length_pos_iff.mpr (h m rfl)
    obtain ⟨before, hlen, hsplit⟩ := encode_split type fields (frameData (some m) body)
    have hnot : ¬(encode type fields (frameData (some m) body)).length ≤ before.length + 4 := by
      rw [hsplit]
      simp only [frameData, List.length_append, be32_length]
      omega
    rw [← hlen]
    simp only [frameMessage, hnot, ite_false, Option.map_some]
    rw [hsplit]
    simp only [frameData]
    rw [wordAt_middle, ← List.append_assoc, List.drop_left' (by simp)]
    rfl

theorem wordAt_field (first : UInt32) (fields : List UInt32) :
    wordAt (encode type (first :: fields) data) 5 = first := by
  have hword := wordAt_middle
    (type :: be32 (.ofNat (data.length + (sizeofBlock + 4 * (first :: fields).length))))
    (fields.flatMap be32 ++ data) first
  simpa [encode] using hword

theorem wordAt_second (first second : UInt32) (fields : List UInt32) :
    wordAt (encode type (first :: second :: fields) data) 9 = second := by
  have hword := wordAt_middle
    (type :: (be32 (.ofNat (data.length + (sizeofBlock + 4 * (first :: second :: fields).length))) ++
      be32 first)) (fields.flatMap be32 ++ data) second
  simpa [encode] using hword

end Decode

/-- The frame of a packet is read back as what the receiver is to make of it. -/
theorem nextFrame_frameOf (key : UInt32) {packet : IOPacket IMessage} {body : List UInt8}
    (h : Sendable packet body) (x : List UInt8) :
    nextFrame key (frameOf packet body ++ x) = .item (received key packet body) x := by
  have hshort : (frameOf packet body).length < 2 ^ 32 := Nat.lt_trans h.short (by decide)
  have hdata : frameData packet.message body = [] ∨ 4 ≤ (frameData packet.message body).length := by
    cases hm : packet.message with
    | none => exact .inl rfl
    | some m => exact .inr (by simp [frameData])
  have hbody (m : IMessage) (hm : packet.message = some m) : body ≠ [] := (h.serializes m hm).2
  rcases frameOf_cases h.addressed body with ⟨hcmd, hcallback, hframe⟩ | ⟨hcmd, hcallback, hframe⟩ |
    ⟨hcmd, hcallback, hframe⟩
  · have hmessage : frameMessage sizeofHeaderCall
        (encode HeaderTypeCall [packet.cmd, packet.callbackId] (frameData packet.message body)) =
        packet.message.map fun m => ⟨m.identity, body⟩ := frameMessage_encode hbody
    have hkind : frameType (encode HeaderTypeCall [packet.cmd, packet.callbackId]
      (frameData packet.message body)) = HeaderTypeCall := rfl
    rw [hframe] at hshort ⊢
    rw [nextFrame_encode hshort rfl hdata]
    simp only [frameContent, received, hkind, ite_true, wordAt_field, wordAt_second, hmessage, hcmd,
      hcallback, and_false, ite_false]
  · have hmessage : frameMessage sizeofHeaderMessage
        (encode HeaderTypeMessage [packet.cmd] (frameData packet.message body)) =
        packet.message.map fun m => ⟨m.identity, body⟩ := frameMessage_encode hbody
    have hkind : frameType (encode HeaderTypeMessage [packet.cmd]
      (frameData packet.message body)) = HeaderTypeMessage := rfl
    have hcall : HeaderTypeMessage ≠ HeaderTypeCall := by decide
    have hreply : HeaderTypeMessage ≠ HeaderTypeCallback := by decide
    rw [hframe] at hshort ⊢
    rw [nextFrame_encode hshort rfl hdata]
    simp only [frameContent, received, hkind, hcall, hreply, ite_false, wordAt_field, hmessage,
      hcmd, hcallback, and_true]
  · have hmessage : frameMessage sizeofHeaderCallback
        (encode HeaderTypeCallback [packet.callbackId, packet.error]
          (frameData packet.message body)) =
        packet.message.map fun m => ⟨m.identity, body⟩ := frameMessage_encode hbody
    have hkind : frameType (encode HeaderTypeCallback [packet.callbackId, packet.error]
      (frameData packet.message body)) = HeaderTypeCallback := rfl
    have hcall : HeaderTypeCallback ≠ HeaderTypeCall := by decide
    rw [hframe] at hshort ⊢
    rw [nextFrame_encode hshort rfl hdata]
    simp only [frameContent, received, hkind, hcall, ite_false, ite_true, wordAt_field,
      wordAt_second, hmessage, hcmd, hcallback, and_false]

end ZlNet.Engine
