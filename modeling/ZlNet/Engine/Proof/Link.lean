import ZlNet.Engine.Link
import ZlNet.Network.Proof.Capacity

/-! What is sent over a connection arrives: the receiver has what it makes of the first packets, one
after another and each whole, however the bytes come, and in memory that the frames bound. -/

namespace ZlNet.Engine

open Network Lib Lib.Bytes

variable {host host' : Endian} {key : UInt32}

/-! ### Memory -/

namespace InnerProtocol

/-- Reading a frame makes no buffer larger. -/
theorem turn_capacity {r r' : CRingBuffer} {e : Dispatch}
    (h : turn host key r = .ok (.next e r')) : r'.capacity ≤ r.capacity := by
  unfold turn at h
  obtain ⟨block, -, h⟩ := of_bind_ok h
  dsimp only at h
  split at h
  · cases h
  · obtain ⟨innerBuf, -, h⟩ := of_bind_ok h
    obtain ⟨⟨ptr, innerBuf⟩, -, h⟩ := of_bind_ok h
    obtain ⟨⟨bytes, buffer⟩, hread, h⟩ := of_bind_ok h
    have hle := CRingBuffer.read_capacity hread
    obtain ⟨off, -, h⟩ := of_bind_ok h
    obtain ⟨content, -, h⟩ := of_bind_ok h
    split at h
    · obtain ⟨e, -, h⟩ := of_bind_ok h
      cases h
      exact hle
    split at h
    · obtain ⟨e, -, h⟩ := of_bind_ok h
      cases h
      exact hle
    split at h
    · obtain ⟨e, -, h⟩ := of_bind_ok h
      cases h
      exact hle
    · cases h

theorem loop_capacity {fuel : Nat} {r r' : CRingBuffer} {es : List Dispatch}
    (h : loop host key fuel r = (es, .ok (true, r'))) : r'.capacity ≤ r.capacity := by
  induction fuel generalizing r es with
  | zero => cases h
  | succ fuel ih =>
    unfold loop at h
    split at h
    · obtain ⟨-, h⟩ := Prod.mk.inj h
      obtain ⟨-, rfl⟩ := Prod.mk.inj (Except.ok.inj h)
      exact Nat.le_refl _
    · cases hturn : turn host key r with
      | error f => simp [hturn] at h
      | ok t =>
        simp only [hturn] at h
        cases t with
        | incomplete =>
          obtain ⟨-, h⟩ := Prod.mk.inj h
          obtain ⟨-, rfl⟩ := Prod.mk.inj (Except.ok.inj h)
          exact Nat.le_refl _
        | reject buffer => simp at h
        | next e buffer =>
          obtain ⟨-, h⟩ := Prod.mk.inj h
          exact Nat.le_trans (ih (Prod.ext rfl h)) (turn_capacity hturn)

theorem onUnserialize_capacity {r r' : CRingBuffer}
    (h : (onUnserialize host key r).2 = .ok (true, r')) : r'.capacity ≤ r.capacity :=
  loop_capacity (Prod.ext rfl h)

end InnerProtocol

/-! ### Reading -/

namespace Receiver

variable {s : Receiver} {stream : List Dispatch × Standing UInt8 Stop} {bytes extrabuf : List UInt8}

/-- The memory that a receiver holds is at most `limit` bytes, while it accepts. -/
def Within (s : Receiver) (limit : Nat) : Prop :=
  ∀ r, s.verdict = .accepting r → r.capacity ≤ limit

/-- What `readv` stores is decoded as the next bytes of the stream, and takes no more memory than
`limit` if that is enough for what waited before it. -/
theorem read_reads {limit : Nat} {rest : List UInt8} (h : s.Reads stream)
    (hrest : stream.2 = .waiting rest) (hread : s.Readable bytes)
    (hextra : extrabuf.length = extralen) (hwithin : s.Within limit) (hlimit : limit < 2 ^ 31)
    (hsmall : 2 * (rest.length + 2 * extralen) ≤ limit) :
    (s.read host key extrabuf bytes).Reads ((frames key).feed stream bytes) ∧
      (s.read host key extrabuf bytes).Within limit := by
  obtain ⟨dispatched, verdict⟩ := s
  obtain ⟨es, standing⟩ := stream
  obtain ⟨hes, hstands⟩ := h
  obtain rfl : standing = .waiting rest := hrest
  cases hstands with
  | @waiting _ r hholds =>
    have hcap : r.capacity < 2 ^ 31 := Nat.lt_of_le_of_lt (hwithin r rfl) hlimit
    have hfit := hread.2 r _ rfl (CRingBuffer.getWriteableVec_eq hholds hcap)
    obtain ⟨r', hreceive, hholds'⟩ := CRingBuffer.receive_holds hholds hcap hextra hread.1 hfit
    have hcapacity := CRingBuffer.receive_capacity hholds hcap (by omega) hfit hreceive
    simp only [read, hreceive]
    refine ⟨returned_reads hholds' hes, fun r₁ hverdict => ?_⟩
    have hreturns : (InnerProtocol.onUnserialize host key r').2 = .ok (true, r₁) := by
      simp only [returned] at hverdict
      split at hverdict
      · next heq =>
        obtain rfl := Verdict.accepting.inj hverdict
        exact heq
      · cases hverdict
      · cases hverdict
    have hle := InnerProtocol.onUnserialize_capacity hreturns
    have := hwithin r rfl
    omega

end Receiver

/-! ### Delivery -/

theorem sendFrame_eq {packet : IOPacket IMessage} {body : List UInt8} (h : Sendable packet body) :
    sendFrame host packet = .ok (frameOf packet body) := by
  obtain ⟨capacity, hserialize⟩ := InnerProtocol.onSerialize_eq host h 2048
  simp only [sendFrame, hserialize, ok_bind]
  rfl

namespace Link

variable [KeyPool] {id : ObjectId} {bound capacity : Nat} {l m : Link} {a : LinkAction}
  {as : List LinkAction} {σ : CNetwork}

/-- What the packets of a link are read as. -/
def delivers (l : Link) (key : UInt32) : List Dispatch :=
  l.packets.map fun s => received key s.1 s.2

/-- The memory that a receiver needs for frames of `bound` bytes. -/
def memory (bound capacity : Nat) : Nat := max capacity (2 * (bound + 2 * extralen))

/-- The sender's stream is that of the frames, and the receiver has read a start of what the socket has
taken. -/
structure Sound (id : ObjectId) (key : UInt32) (bound capacity : Nat) (l : Link) : Prop where
  box : ∃ b, l.sender.net.outbox id = some b ∧ b.stream = l.sender.kept.flatten ∧
    l.arrived <+: b.sent
  kept : l.sender.kept = l.packets.map fun s => frameOf s.1 s.2
  sendable : ∀ s ∈ l.packets, Sendable s.1 s.2 ∧ (frameOf s.1 s.2).length ≤ bound
  reads : l.receiver.Reads ((frames key).drain l.arrived)
  within : l.receiver.Within (memory bound capacity)

omit [KeyPool] in
/-- The frames of the packets are codewords, and what has arrived is the start of them. -/
theorem Sound.decodes (h : l.Sound id key bound capacity) :
    ∃ es rest, (frames key).drain l.arrived = (es, .waiting rest) ∧ es <+: l.delivers key ∧
      rest.length ≤ bound := by
  obtain ⟨b, -, hstream, harrived⟩ := h.box
  let cs := l.packets.map fun s => (frameOf s.1 s.2, received key s.1 s.2)
  have hcodes : ∀ c ∈ cs, (frames key).Codes c.1 c.2 := by
    intro c hc
    obtain ⟨s, hs, rfl⟩ := List.mem_map.mp hc
    exact nextFrame_frameOf key (h.sendable s hs).1
  have hstarts : l.arrived <+: (cs.map (·.1)).flatten := by
    have hframes : cs.map (·.1) = l.sender.kept := by simp [cs, h.kept]
    rw [hframes, ← hstream]
    exact harrived.trans b.sent_prefix
  obtain ⟨es, rest, hdrain, hes, hrest⟩ := (frames key).drain_codes hcodes rfl hstarts
  have hitems : cs.map (·.2) = l.delivers key := List.map_map
  refine ⟨es, rest, hdrain, hitems ▸ hes, ?_⟩
  rcases hrest with rfl | ⟨c, hc, hlt⟩
  · exact Nat.zero_le _
  · obtain ⟨s, hs, rfl⟩ := List.mem_map.mp hc
    have hlt : rest.length < (frameOf s.1 s.2).length := hlt
    have := (h.sendable s hs).2
    omega

omit [KeyPool] in
theorem sent_starts {c : Conversation} {b : Outbox UInt8} (op : SendOp) :
    b.sent <+: (c.outboxAfter id b op).sent := by
  cases op with
  | tcpSend ans =>
    simp only [Conversation.outboxAfter, CNetwork.offer]
    split
    · exact List.prefix_append ..
    · exact List.prefix_rfl
  | handleTcpConWrite ans => exact List.prefix_append ..
  | tcpCloseCon force => exact List.prefix_rfl

/-- A step of the sender leaves what was sent. -/
theorem Sound.box_step {d : Conversation} {op : SendOp} (h : l.Sound id key bound capacity)
    (hstep : Conversation.Step id l.sender op d) (horder : l.sender.InOrder id op) :
    ∃ b, d.net.outbox id = some b ∧ b.stream = d.kept.flatten ∧ l.arrived <+: b.sent := by
  obtain ⟨b, hbox, hstream, harrived⟩ := h.box
  exact ⟨_, hstep.outbox hbox horder.1, hstep.stream hbox hstream horder,
    harrived.trans (sent_starts op)⟩

/-- A send keeps the frame of its packet just where the socket takes some of it. -/
theorem kept_send {packet : IOPacket IMessage} {body : List UInt8} {ans : Answers}
    {d : Conversation} (hserialize : ans.onSerialize = some (frameOf packet body))
    (hstep : Conversation.Step id l.sender (.tcpSend ans) d) :
    d.kept = l.sender.kept ++ if l.Takes id ans then [frameOf packet body] else [] := by
  cases hstep
  have hframes : l.sender.net.frames id ans = [] ∨
      l.sender.net.frames id ans = [frameOf packet body] := by
    unfold CNetwork.frames
    split
    · split
      · exact .inr (by rw [hserialize]; rfl)
      · exact .inl rfl
    · exact .inl rfl
  unfold Takes
  rcases hframes with hnone | hframe
  · simp [hnone]
  · by_cases hneg : ans.written < 0
    · simp [hframe, hneg, Int.not_le.mpr hneg]
    · simp [hframe, hneg, Int.not_lt.mp hneg]

theorem step_sound (h : l.Sound id key bound capacity) (hcap : capacity < 2 ^ 31)
    (hbound : bound + 2 * extralen < 2 ^ 30) (hstep : Step host host' id key l a m)
    (horder : l.Orderly id bound a) : m.Sound id key bound capacity := by
  cases hstep with
  | @send packet body frame ans d hpacket hframe hserialize hstep =>
    obtain ⟨hshort, horder⟩ := horder
    obtain rfl := Except.ok.inj ((sendFrame_eq hpacket).symm.trans hframe)
    have hkept := kept_send hserialize hstep
    refine ⟨h.box_step hstep horder, ?_, ?_, h.reads, h.within⟩
    · simp only [hkept, h.kept]
      split
      · simp
      · simp
    · intro s hs
      simp only at hs
      split at hs
      · rcases List.mem_append.mp hs with hs | hs
        · exact h.sendable s hs
        · obtain rfl := List.mem_singleton.mp hs
          exact ⟨hpacket, hshort⟩
      · exact h.sendable s hs
  | @write ans d hstep =>
    refine ⟨h.box_step hstep horder, ?_, h.sendable, h.reads, h.within⟩
    cases hstep
    exact h.kept
  | @close force d hstep =>
    refine ⟨h.box_step hstep ⟨trivial, fun _ hop => by cases hop⟩, ?_, h.sendable, h.reads, h.within⟩
    cases hstep
    exact h.kept
  | @read extrabuf bytes hsent hread hextra =>
    obtain ⟨b, hbox, hstream, -⟩ := h.box
    obtain ⟨es, rest, hdrain, -, hrest⟩ := h.decodes
    have hlimit : memory bound capacity < 2 ^ 31 := by
      unfold memory
      omega
    have hsmall : 2 * (rest.length + 2 * extralen) ≤ memory bound capacity := by
      unfold memory
      omega
    obtain ⟨hreads, hwithin⟩ := Receiver.read_reads h.reads (by rw [hdrain]) hread
      hextra h.within hlimit hsmall
    rw [Decoder.feed_drain] at hreads
    exact ⟨⟨b, hbox, hstream, hsent b hbox⟩, h.kept, h.sendable, hreads, hwithin⟩

/-- A call with a message of two bytes. -/
def call : IOPacket IMessage := ⟨0, 5, 9, 0, some (SerializeMessage.toIMessage ⟨-7, [1, 2]⟩)⟩

end Link

end ZlNet.Engine
