import ZlNet.Engine.Proof.Calls
import ZlNet.Engine.Proof.Handshake
import ZlNet.Engine.Proof.Awake

/-! What a step of a process makes of the packets that its engine sends and of the bytes that go
through its connections.  Packets are handled in the order of the sends, the frame of a packet is a
codeword for what is read of it, and what is read is posted frame by frame. -/

namespace ZlNet.Engine

open Network Network.CNetwork Lib Lib.Bytes

/-! ### Frames of packets -/

section

variable {packet : IOPacket SerializeMessage} {host : Endian} {frame : List UInt8} {key : UInt32}

/-- A packet that is for nothing has no frame. -/
theorem addressed_of_sendFrame (hframe : sendFrame host packet.outgoing = .ok frame)
    (hne : frame ≠ []) : packet.cmd ≠ 0 ∨ packet.callbackId ≠ 0 := by
  by_contra hnone
  obtain ⟨hcmd, hcallback⟩ := not_or.mp hnone
  have hcmd : packet.outgoing.cmd = 0 := not_not.mp hcmd
  have hcallback : packet.outgoing.callbackId = 0 := not_not.mp hcallback
  unfold sendFrame InnerProtocol.onSerialize at hframe
  obtain ⟨result, hresult, hframe⟩ := of_bind_ok hframe
  obtain ⟨inner, -, hresult⟩ := of_bind_ok hresult
  simp only [hcmd, hcallback, ne_eq, not_true_eq_false, if_false] at hresult
  obtain rfl := Except.ok.inj hresult
  exact hne (Except.ok.inj hframe).symm

theorem frameMessage_outgoing (type : UInt8) (fields : List UInt32) :
    frameMessage (sizeofBlock + 4 * fields.length)
        (encode type fields (frameData packet.outgoing.message packet.body)) =
      packet.message.filter fun message => !message.buffer.isEmpty := by
  cases hm : packet.message with
  | none =>
    have hnone : packet.outgoing.message = none := by simp [IOPacket.outgoing, hm]
    exact hnone ▸ frameMessage_encode fun _ hsome => by cases hsome
  | some message =>
    have hsome : packet.outgoing.message = some message.toIMessage := by
      simp [IOPacket.outgoing, hm]
    have hbody : packet.body = message.buffer := by simp [IOPacket.body, hm]
    rw [hsome, hbody]
    cases hbuffer : message.buffer with
    | nil =>
      have hle : (encode type fields (frameData (some message.toIMessage) [])).length ≤
          sizeofBlock + 4 * fields.length + 4 := by
        rw [encode_length]
        simp only [frameData, List.append_nil, be32_length]
        omega
      simp [frameMessage, hle, Option.filter, hbuffer]
    | cons b buffer =>
      obtain ⟨id, bytes⟩ := message
      obtain rfl : bytes = b :: buffer := hbuffer
      exact (frameMessage_encode (fun _ _ => List.cons_ne_nil b buffer)).trans rfl

/-- The frame of a packet is a codeword for what is read of it. -/
theorem frame_codes (haddressed : packet.cmd ≠ 0 ∨ packet.callbackId ≠ 0)
    (hshort : packet.frame.length < 2 ^ 31) :
    (frames key).Codes packet.frame (packet.read key) := by
  intro x
  change nextFrame key (packet.frame ++ x) = _
  have hshort : packet.frame.length < 2 ^ 32 := Nat.lt_trans hshort (by decide)
  let data := frameData packet.outgoing.message packet.body
  have hdata : data = [] ∨ 4 ≤ data.length := by
    cases hm : packet.outgoing.message with
    | none => exact .inl (by simp [data, frameData, hm])
    | some m => exact .inr (by simp [data, frameData, hm])
  have haddressed : packet.outgoing.cmd ≠ 0 ∨ packet.outgoing.callbackId ≠ 0 := haddressed
  rcases frameOf_cases haddressed packet.body with
    ⟨hcmd, hcallback, hframe⟩ | ⟨hcmd, hcallback, hframe⟩ | ⟨hcmd, hcallback, hframe⟩
  · have hmessage : frameMessage sizeofHeaderCall (encode HeaderTypeCall
        [packet.cmd, packet.callbackId] data) = _ := frameMessage_outgoing _ _
    have hkind : frameType (encode HeaderTypeCall [packet.cmd, packet.callbackId] data) =
      HeaderTypeCall := rfl
    have hframe : packet.frame = encode HeaderTypeCall [packet.cmd, packet.callbackId] data :=
      hframe
    have hcmd : packet.cmd ≠ 0 := hcmd
    have hcallback : packet.callbackId ≠ 0 := hcallback
    rw [hframe] at hshort ⊢
    rw [nextFrame_encode hshort rfl hdata]
    simp only [frameContent, IOPacket.read, hkind, ite_true, wordAt_field, wordAt_second, hmessage,
      hcmd, hcallback, and_false, ite_false]
  · have hmessage : frameMessage sizeofHeaderMessage (encode HeaderTypeMessage
        [packet.cmd] data) = _ := frameMessage_outgoing _ _
    have hkind : frameType (encode HeaderTypeMessage [packet.cmd] data) = HeaderTypeMessage := rfl
    have hcall : HeaderTypeMessage ≠ HeaderTypeCall := by decide
    have hreply : HeaderTypeMessage ≠ HeaderTypeCallback := by decide
    have hframe : packet.frame = encode HeaderTypeMessage [packet.cmd] data := hframe
    have hcmd : packet.cmd ≠ 0 := hcmd
    have hcallback : packet.callbackId = 0 := hcallback
    rw [hframe] at hshort ⊢
    rw [nextFrame_encode hshort rfl hdata]
    simp only [frameContent, IOPacket.read, hkind, hcall, hreply, ite_false, wordAt_field, hmessage,
      hcmd, hcallback, and_true]
  · have hmessage : frameMessage sizeofHeaderCallback (encode HeaderTypeCallback
        [packet.callbackId, packet.error] data) = _ := frameMessage_outgoing _ _
    have hkind : frameType (encode HeaderTypeCallback [packet.callbackId, packet.error] data) =
      HeaderTypeCallback := rfl
    have hcall : HeaderTypeCallback ≠ HeaderTypeCall := by decide
    have hframe : packet.frame = encode HeaderTypeCallback [packet.callbackId, packet.error] data :=
      hframe
    have hcmd : packet.cmd = 0 := hcmd
    have hcallback : packet.callbackId ≠ 0 := hcallback
    rw [hframe] at hshort ⊢
    rw [nextFrame_encode hshort rfl hdata]
    simp only [frameContent, IOPacket.read, hkind, hcall, ite_false, ite_true, wordAt_field,
      wordAt_second, hmessage, hcmd, hcallback, and_false]

end

namespace System

variable {L : Type} [KeyPool] {σ τ : System L} {a : SystemAction} {id : ObjectId}
  {packet : IOPacket SerializeMessage} {key : UInt32}

/-! ### The event queue -/

/-- The data in the event queue is what the engine has sent last. -/
def Queued (σ : System L) : Prop :=
  σ.net.eventQueue.filterMap IOEvent.dataKey <:+ σ.engine.sends.map Prod.fst

omit [KeyPool] in
theorem Queued.le (h : σ.Queued) : σ.waiting ≤ σ.engine.sends.length := by
  have hle := h.length_le
  rwa [List.length_map] at hle

omit [KeyPool] in
theorem Queued.keys (h : σ.Queued) :
    σ.queued.map Prod.fst = σ.net.eventQueue.filterMap IOEvent.dataKey := by
  rw [List.suffix_iff_eq_drop.mp h, List.length_map, queued, List.map_drop]
  rfl

omit [KeyPool] in
/-- What the network thread has handled stays handled when more is sent. -/
theorem handled_grows {new : List (UInt32 × IOPacket SerializeMessage)}
    (hsends : τ.engine.sends = σ.engine.sends ++ new)
    (hwaiting : τ.waiting = σ.waiting + new.length) : τ.handled = σ.handled := by
  unfold handled
  rw [hsends, hwaiting, List.length_append, Nat.add_sub_add_right,
    List.take_append_of_le_length (Nat.sub_le _ _)]

omit [KeyPool] in
/-- The oldest send that waits is handled. -/
theorem handled_next (h : σ.Queued) (hsends : τ.engine.sends = σ.engine.sends)
    (hwaiting : σ.waiting = τ.waiting + 1) :
    τ.handled = σ.handled ++ σ.queued.head?.toList := by
  have hle := h.le
  have hcount : σ.engine.sends.length - τ.waiting = σ.engine.sends.length - σ.waiting + 1 := by
    omega
  unfold handled queued
  rw [hsends, hcount, List.take_add_one, List.head?_drop]

omit [KeyPool] in
/-- Events of the engine change only the event queue, and the keys that are taken. -/
theorem pushed_same (protocol : ProtocolId → Protocol) (events : List (Event SerializeMessage))
    (net : CNetwork) :
    let net' := events.foldl (Event.pushed protocol) net
    net'.heap = net.heap ∧ net'.created = net.created ∧ net'.pool = net.pool ∧
      net'.eventQueue.filterMap IOEvent.dataKey =
        net.eventQueue.filterMap IOEvent.dataKey ++
          (events.filterMap Event.data?).map Prod.fst := by
  induction events generalizing net with
  | nil => simp
  | cons event events ih =>
    obtain ⟨hheap, hcreated, hpool, hkeys⟩ := ih (event.pushed protocol net)
    have hfirst : (event.pushed protocol net).heap = net.heap ∧
        (event.pushed protocol net).created = net.created ∧
        (event.pushed protocol net).pool = net.pool ∧
        (event.pushed protocol net).eventQueue.filterMap IOEvent.dataKey =
          net.eventQueue.filterMap IOEvent.dataKey ++ event.data?.toList.map Prod.fst := by
      cases event with
      | listen port p =>
        simp only [Event.pushed, CNetwork.listen, CNetwork.popKey, CNetwork.pushEvent, Event.data?]
        split <;> simp [IOEvent.dataKey]
      | connect address p =>
        simp only [Event.pushed, CNetwork.connect, CNetwork.popKey, CNetwork.pushEvent, Event.data?]
        split <;> simp [IOEvent.dataKey]
      | data key packet => simp [Event.pushed, CNetwork.pushEvent, Event.data?, IOEvent.dataKey]
      | close key => simp [Event.pushed, CNetwork.pushEvent, Event.data?, IOEvent.dataKey]
    refine ⟨hheap.trans hfirst.1, hcreated.trans hfirst.2.1, hpool.trans hfirst.2.2.1, ?_⟩
    rw [List.foldl_cons, hkeys, hfirst.2.2.2, List.append_assoc, ← List.map_append]
    cases hsent : event.data? with
    | none => simp [List.filterMap_cons_none hsent]
    | some s => simp [List.filterMap_cons_some hsent]

omit [KeyPool] in
/-- The data at the head of the event queue is what has waited longest. -/
theorem Queued.head (h : σ.Queued)
    (hhead : σ.net.eventQueue.head?.bind IOEvent.dataKey = some key) :
    ∃ packet, σ.queued.head? = some (key, packet) := by
  obtain ⟨event, hevent, hkey⟩ := Option.bind_eq_some_iff.mp hhead
  obtain ⟨rest, hqueue⟩ := List.head?_eq_some_iff.mp hevent
  have hkeys := h.keys
  rw [hqueue, List.filterMap_cons_some hkey] at hkeys
  obtain ⟨⟨key', packet⟩, queued, hqueued, hfst, -⟩ := List.map_eq_cons_iff.mp hkeys
  obtain rfl : key' = key := hfst
  exact ⟨packet, by rw [hqueued, List.head?_cons]⟩

/-- Only events have a socket take a packet, and each of them one. -/
theorem takes_cases (σ : System L) (a : SystemAction) (id : ObjectId) : σ.takes a id = [] ∨
    ∃ ans packet, a = .network (.dispatch ans) ∧ 0 < ans.written ∧ σ.sending id = some packet ∧
      σ.takes a id = [packet] := by
  cases a with
  | network b =>
    cases b with
    | dispatch ans =>
      by_cases hpos : 0 < ans.written
      · cases hsending : σ.sending id with
        | none => exact .inl (by simp [takes, hsending])
        | some packet => exact .inr ⟨ans, packet, rfl, hpos, rfl, by simp [takes, hpos, hsending]⟩
      · exact .inl (by simp [takes, hpos])
    | _ => exact .inl rfl
  | _ => exact .inl rfl

/-- What a step has a socket take is the oldest send that waits, and is for the connection. -/
theorem sending_queued (hinv : σ.net.Inv) (hqueued : σ.Queued)
    (hsending : σ.sending id = some packet) :
    ∃ o, σ.net.heap id = some o ∧ σ.queued.head? = some (o.key, packet) := by
  unfold sending at hsending
  split at hsending
  · next hconnected =>
    obtain ⟨key, hhead, hget⟩ := Option.bind_eq_some_iff.mp hconnected.1
    obtain ⟨o, hin, rfl⟩ := hinv.inTable_of_getObject hget
    obtain ⟨packet', hnext⟩ := hqueued.head hhead
    rw [hnext] at hsending
    obtain rfl := Option.some.inj hsending
    exact ⟨o, hin.heap, hnext⟩
  · cases hsending

variable [IntrusiveNode L]

omit [KeyPool] [IntrusiveNode L] in
/-- The engine hands what it sends to the event queue, and changes no connection. -/
theorem asks_sends {engine : IOEngine L SerializeMessage}
    (hevents : σ.engine.events <+: engine.events) :
    (σ.asks engine).net.heap = σ.net.heap ∧ (σ.asks engine).net.created = σ.net.created ∧
      (σ.asks engine).net.pool = σ.net.pool ∧
      ∃ new, engine.sends = σ.engine.sends ++ new ∧
        (σ.asks engine).net.eventQueue.filterMap IOEvent.dataKey =
          σ.net.eventQueue.filterMap IOEvent.dataKey ++ new.map Prod.fst := by
  obtain ⟨events, hevents⟩ := hevents
  have hevents := hevents.symm
  obtain ⟨hheap, hcreated, hpool, hkeys⟩ := pushed_same engine.protocol events σ.net
  have hnet : (σ.asks engine).net = events.foldl (Event.pushed engine.protocol) σ.net := by
    rw [asks, hevents, List.drop_left]
  rw [hnet]
  refine ⟨hheap, hcreated, hpool, events.filterMap Event.data?, ?_, hkeys⟩
  rw [IOEngine.sends, hevents, List.filterMap_append]
  rfl

omit [KeyPool] [IntrusiveNode L] in
/-- What is sent goes to the end of what waits. -/
theorem asks_queued {engine : IOEngine L SerializeMessage} (hqueued : σ.Queued)
    (hevents : σ.engine.events <+: engine.events) :
    (σ.asks engine).Queued ∧ (σ.asks engine).handled = σ.handled := by
  obtain ⟨-, -, -, new, hsends, hkeys⟩ := asks_sends hevents
  refine ⟨?_, handled_grows hsends ?_⟩
  · obtain ⟨before, hbefore⟩ := hqueued
    refine ⟨before, ?_⟩
    rw [hkeys, ← List.append_assoc, hbefore, ← List.map_append, ← hsends]
    rfl
  · rw [waiting, hkeys, List.length_append, List.length_map]
    rfl

/-- What waits in the event queue stays what was sent last.  The oldest of it is handled where a
step lets a socket take some of it. -/
theorem step_queued (h : σ.Coupled) (hqueued : σ.Queued) (hstep : σ.Step a τ) :
    τ.Queued ∧ ((τ.handled = σ.handled ∧ ∀ id, σ.takes a id = []) ∨
      ∃ s, σ.queued.head? = some s ∧ τ.handled = σ.handled ++ [s]) := by
  obtain ⟨hc, hexec⟩ := hstep
  have hsame (hsends : τ.engine.sends = σ.engine.sends)
      (hkeys : τ.net.eventQueue.filterMap IOEvent.dataKey =
        σ.net.eventQueue.filterMap IOEvent.dataKey) : τ.Queued ∧ τ.handled = σ.handled := by
    refine ⟨?_, ?_⟩
    · rw [Queued, hsends, hkeys]
      exact hqueued
    · have hsends : τ.engine.sends = σ.engine.sends ++ [] := by rw [hsends, List.append_nil]
      exact handled_grows hsends (congrArg List.length hkeys)
  cases a with
  | engine b =>
    obtain ⟨engine, hengine, hexec⟩ := of_bind_ok hexec
    obtain rfl := Except.ok.inj hexec
    obtain ⟨hkept, hhandled⟩ := asks_queued hqueued (IOEngine.exec_continues hengine).initial
    exact ⟨hkept, .inl ⟨hhandled, fun _ => rfl⟩⟩
  | confirmListen uid | confirmConnect uid =>
    obtain ⟨⟨confirmed, engine⟩, hconfirm, hexec⟩ := of_bind_ok hexec
    obtain rfl := Except.ok.inj hexec
    obtain ⟨hkept, hhandled⟩ := asks_queued hqueued (IOEngine.confirm_posts hconfirm).events
    exact ⟨hkept, .inl ⟨hhandled, fun _ => rfl⟩⟩
  | network b =>
    have hnet := (h.network_step hc hexec).2.1
    obtain ⟨hpre, hruns⟩ := h.answered_pre hc
    obtain ⟨new, accepted, hreport⟩ := step_report h.inv hnet hruns
    obtain ⟨net, -, hexec⟩ := of_bind_ok hexec
    obtain ⟨packets, -, hexec⟩ := of_bind_ok hexec
    obtain rfl := Except.ok.inj hexec
    have hsends : (σ.hears packets net).engine.sends = σ.engine.sends :=
      (σ.hears_posts packets net).sends
    have hqueue : (σ.hears packets net).net.eventQueue = σ.net.rest (σ.answered b) :=
      hreport.steady.queue
    cases b with
    | dispatch ans =>
      have hqueue : (σ.hears packets net).net.eventQueue = σ.net.eventQueue.tail := hqueue
      cases hdata : σ.net.eventQueue.head?.bind IOEvent.dataKey with
      | none =>
        have hkeys : σ.net.eventQueue.tail.filterMap IOEvent.dataKey =
            σ.net.eventQueue.filterMap IOEvent.dataKey := by
          cases hevents : σ.net.eventQueue with
          | nil => rfl
          | cons event rest =>
            have hnone : event.dataKey = none := by simpa [hevents] using hdata
            rw [List.filterMap_cons_none hnone, List.tail_cons]
        obtain ⟨hτ, hhandled⟩ := hsame hsends (by rw [hqueue, hkeys])
        refine ⟨hτ, .inl ⟨hhandled, fun id => ?_⟩⟩
        have hnone : σ.net.addressee = none := by rw [CNetwork.addressee, hdata, Option.bind_none]
        simp [takes, sending, hnone]
      | some key =>
        obtain ⟨packet, hhead⟩ := hqueued.head hdata
        have hkeys : σ.net.eventQueue.filterMap IOEvent.dataKey =
            key :: σ.net.eventQueue.tail.filterMap IOEvent.dataKey := by
          obtain ⟨event, hevent, hkey⟩ := Option.bind_eq_some_iff.mp hdata
          obtain ⟨rest, hevents⟩ := List.head?_eq_some_iff.mp hevent
          rw [hevents, List.filterMap_cons_some hkey, List.tail_cons]
        refine ⟨?_, .inr ⟨_, hhead, ?_⟩⟩
        · rw [Queued, hqueue, hsends]
          exact (hkeys ▸ List.suffix_cons key _).trans hqueued
        · rw [handled_next hqueued hsends, hhead]
          · rfl
          · rw [waiting, waiting, hkeys, hqueue, List.length_cons]
    | poll key event ans =>
      obtain ⟨hτ, hhandled⟩ := hsame hsends (congrArg (List.filterMap _) hqueue)
      exact ⟨hτ, .inl ⟨hhandled, fun _ => rfl⟩⟩
    | fire con timer ans =>
      obtain ⟨hτ, hhandled⟩ := hsame hsends (congrArg (List.filterMap _) hqueue)
      exact ⟨hτ, .inl ⟨hhandled, fun _ => rfl⟩⟩
    | recycle object =>
      obtain ⟨hτ, hhandled⟩ := hsame hsends (congrArg (List.filterMap _) hqueue)
      exact ⟨hτ, .inl ⟨hhandled, fun _ => rfl⟩⟩
    | listen => exact hc.elim
    | connect => exact hc.elim
    | push => exact hc.elim
    | pushKey => exact hc.elim
  | clear group =>
    obtain rfl := Except.ok.inj hexec
    obtain ⟨hτ, hhandled⟩ := hsame rfl (by simp [CNetwork.pushEvent, IOEvent.dataKey])
    exact ⟨hτ, .inl ⟨hhandled, fun _ => rfl⟩⟩
  | recycle p =>
    obtain rfl := Except.ok.inj hexec
    obtain ⟨hτ, hhandled⟩ := hsame rfl rfl
    exact ⟨hτ, .inl ⟨hhandled, fun _ => rfl⟩⟩

/-! ### Bytes -/

/-- What a step makes of the connection `id`. -/
structure Handles (σ : System L) (a : SystemAction) (τ : System L) (id : ObjectId) : Prop where
  stream : (τ.net.pipe id).box.stream =
    (σ.net.pipe id).box.stream ++ (σ.takes a id).flatMap IOPacket.frame
  sent : (σ.net.pipe id).box.sent <+: (τ.net.pipe id).box.sent
  idle : σ.reads a id = [] → σ.posts a id = [] ∧ (τ.net.pipe id).input = (σ.net.pipe id).input
  reading : σ.reads a id ≠ [] → ∀ o, σ.net.heap id = some o → ∀ es rest,
    (frames o.key).drain ((σ.net.pipe id).input ++ σ.reads a id) = (es, .waiting rest) →
      σ.posts a id = es.filterMap Dispatch.message ∧ (τ.net.pipe id).input = rest

omit [IntrusiveNode L] in
/-- A step that sends nothing, reads nothing and makes nothing of what was read before. -/
theorem handles_of_pipe (htakes : σ.takes a id = []) (hreads : σ.reads a id = [])
    (hposts : σ.posts a id = []) (hpipe : τ.net.pipe id = σ.net.pipe id) : Handles σ a τ id where
  stream := by rw [hpipe, htakes, List.flatMap_nil, List.append_nil]
  sent := hpipe ▸ List.prefix_rfl
  idle _ := ⟨hposts, by rw [hpipe]⟩
  reading hne := absurd hreads hne

omit [IntrusiveNode L] in
/-- A packet of which the socket takes some bytes was serialized as its frame. -/
theorem sending_frame {host : Endian} {ans : Answers} (hfits : WriteFits ans)
    (hserializes : σ.Serializes host (.network (.dispatch ans)))
    (horder : σ.Orderly (.network (.dispatch ans))) (hpos : 0 < ans.written)
    (hsending : σ.sending id = some packet) :
    ans.onSerialize = some packet.frame ∧ (packet.cmd ≠ 0 ∨ packet.callbackId ≠ 0) ∧
      packet.frame.length < 2 ^ 31 ∧ (σ.net.pipe id).box.pending = [] := by
  have htakes : packet ∈ σ.takes (.network (.dispatch ans)) id := by simp [takes, hpos, hsending]
  obtain ⟨hshort, hpending⟩ := horder id packet htakes
  obtain ⟨frame, hframe, hserialize⟩ := hserializes id packet hsending
  have hne : frame ≠ [] := by
    rintro rfl
    have := hfits [] hserialize
    simp only [List.length_nil] at this
    omega
  have haddressed := addressed_of_sendFrame hframe hne
  obtain rfl := Except.ok.inj (hframe.symm.trans (sendFrame_outgoing haddressed hshort))
  exact ⟨hserialize, haddressed, hshort, hpending⟩

omit [IntrusiveNode L] in
/-- A packet of which the socket takes some bytes is pushed into the outbox of its connection. -/
theorem offered_stream {host : Endian} {ans : Answers} (hfits : WriteFits ans)
    (hqueued : σ.Queued) (hserializes : σ.Serializes host (.network (.dispatch ans)))
    (horder : σ.Orderly (.network (.dispatch ans))) (hsending : σ.net.addressee = some id) :
    let box := offer (σ.net.pipe id).box (σ.net.frames id ans).flatten ans.written
    box.stream = (σ.net.pipe id).box.stream ++
        (σ.takes (.network (.dispatch ans)) id).flatMap IOPacket.frame ∧
      (σ.net.pipe id).box.sent <+: box.sent := by
  intro box
  have hunsent (htakes : σ.takes (.network (.dispatch ans)) id = [])
      (hbox : box = (σ.net.pipe id).box) : box.stream = (σ.net.pipe id).box.stream ++
        (σ.takes (.network (.dispatch ans)) id).flatMap IOPacket.frame ∧
      (σ.net.pipe id).box.sent <+: box.sent := by
    rw [hbox, htakes, List.flatMap_nil, List.append_nil]
    exact ⟨rfl, List.prefix_rfl⟩
  by_cases hconnected : (σ.net.heap id).any IOObject.enableSend
  · by_cases hpos : 0 < ans.written
    · obtain ⟨o, hheap, hsend⟩ := (Option.any_eq_true _ _).mp hconnected
      obtain ⟨key, hhead, -⟩ := Option.bind_eq_some_iff.mp hsending
      obtain ⟨packet, hpacket⟩ := hqueued.head hhead
      have hnext : σ.sending id = some packet := by
        rw [sending, if_pos ⟨hsending, hconnected⟩, hpacket]
        rfl
      obtain ⟨hserialize, -, -, hpending⟩ := sending_frame hfits hserializes horder hpos hnext
      have htakes : σ.takes (.network (.dispatch ans)) id = [packet] := by
        simp [takes, hpos, hnext]
      have hframes : (σ.net.frames id ans).flatten = packet.frame := by
        rw [frames_eq hheap, if_pos hsend, hserialize]
        simp
      have hbox : box = (σ.net.pipe id).box.push packet.frame ans.written.toNat := by
        simp only [box, hframes, offer, if_pos hpos]
      rw [hbox, Outbox.push_stream _ hpending, htakes]
      exact ⟨by simp, List.prefix_append _ _⟩
    · exact hunsent (by simp [takes, hpos]) (offer_refused hpos)
  · have hframes : σ.net.frames id ans = [] := by
      unfold CNetwork.frames
      cases hheap : σ.net.heap id with
      | none => rfl
      | some o =>
        have hoff : o.enableSend = false := by simpa [hheap] using hconnected
        simp [hoff]
    refine hunsent (by simp [takes, sending, hconnected]) ?_
    simp only [box, hframes, List.flatten_nil, offer_nil]

omit [IntrusiveNode L] in
/-- What a record lets a connection read goes with what waited before it to the protocol. -/
theorem input_eq (event : Record) (ans : Answers) {o : IOObject}
    (hget : σ.net.getObject key = some id) (hheap : σ.net.heap id = some o) :
    σ.input key event ans = if σ.net.incoming key event ans = [] then none
      else some ⟨o.inputBuffer.bytes ++ σ.net.incoming key event ans⟩ := by
  simp only [input, CNetwork.incoming, hget, Option.bind_some, hheap]
  cases herr : event.err with
  | true => simp
  | false =>
    cases hread : (event.readable || event.hup) && o.hasReading with
    | false => simp
    | true =>
      by_cases hcallback : o.readCallback = some .handleTcpConRead
      · cases hreadv : ans.readv with
        | none => simp [hcallback]
        | some bytes =>
          cases bytes with
          | nil => simp [hcallback]
          | cons b bytes => simp [hcallback]
      · simp [hcallback]

omit [IntrusiveNode L] in
/-- What is not there has no part in a step. -/
theorem absent_idle (hinv : σ.net.Inv) (hnone : σ.net.heap id = none) (a : SystemAction) :
    σ.takes a id = [] ∧ σ.reads a id = [] ∧ σ.posts a id = [] := by
  have hsending : σ.sending id = none := by simp [sending, hnone]
  have hget (key : UInt32) : ¬σ.net.getObject key = some id := by
    intro hget
    obtain ⟨o, hin, -⟩ := hinv.inTable_of_getObject hget
    exact absurd (hin.heap.symm.trans hnone) (by simp)
  cases a with
  | network b =>
    cases b with
    | dispatch ans => exact ⟨by simp [takes, hsending], rfl, rfl⟩
    | poll key event ans => exact ⟨rfl, if_neg (hget key), if_neg (hget key)⟩
    | _ => exact ⟨rfl, rfl, rfl⟩
  | _ => exact ⟨rfl, rfl, rfl⟩

omit [IntrusiveNode L] in
theorem poll_handles (h : σ.Coupled) {event : Record} {ans : Answers}
    (hpasses : σ.net.Passes τ.net (σ.answered (.poll key event ans))) :
    Handles σ (.network (.poll key event ans)) τ id := by
  have hother (hget : σ.net.getObject key ≠ some id) (hpipe : τ.net.pipe id = σ.net.pipe id) :
      Handles σ (.network (.poll key event ans)) τ id :=
    handles_of_pipe rfl (if_neg hget) (if_neg hget) hpipe
  rcases hpasses with ⟨hnone, hpipe⟩ | ⟨id₁, n, hget, hpipe⟩
  · exact hother (by simp [hnone]) (congrFun hpipe id)
  by_cases heq : id = id₁
  · subst heq
    have hget : σ.net.getObject key = some id := hget
    have hpipe : τ.net.pipe id = (((σ.net.pipe id).fed (σ.answers key ans)
        (σ.net.incoming key event ans)).drained n) := by
      rw [hpipe, Function.update_self]
      rfl
    obtain ⟨o, hin, rfl⟩ := h.inv.inTable_of_getObject hget
    have hreads : σ.reads (.network (.poll o.key event ans)) id = σ.net.incoming o.key event ans :=
      if_pos hget
    have hposts : σ.posts (.network (.poll o.key event ans)) id =
        (σ.received (.poll o.key event ans)).toOption.getD [] := if_pos hget
    have hinput := input_eq event ans hget hin.heap
    refine ⟨?_, ?_, fun hnone => ?_, fun hsome o' hheap' es rest hdrain => ?_⟩
    · have htakes : σ.takes (.network (.poll o.key event ans)) id = [] := rfl
      rw [hpipe, htakes, Pipe.drained, Pipe.fed_box, Outbox.drain_stream]
      simp
    · rw [hpipe, Pipe.drained, Pipe.fed_box]
      exact List.prefix_append _ _
    · rw [hreads] at hnone
      rw [hposts, received, hinput, if_pos hnone, hpipe, hnone, Pipe.fed_nil]
      exact ⟨rfl, rfl⟩
    · obtain rfl := Option.some.inj (hin.heap.symm.trans hheap')
      rw [hreads] at hsome hdrain
      have hbytes : (σ.net.pipe id).input = o.inputBuffer.bytes := by
        rw [pipe_eq hin.heap]
        rfl
      have hunserialize : InnerProtocol.unserialize o.key
          ⟨(σ.net.pipe id).input ++ σ.net.incoming o.key event ans⟩ = (es, .ok (true, ⟨rest⟩)) := by
        simp only [InnerProtocol.unserialize, hdrain]
      refine ⟨?_, ?_⟩
      · rw [hposts, received, hinput, if_neg hsome, ← hbytes]
        simp only [hunserialize]
        rfl
      · rw [hpipe, Pipe.drained, Pipe.fed, if_neg hsome]
        simp only [answers, hunserialize]
  · refine hother (fun hself => heq ?_) ?_
    · exact Option.some.inj (hself.symm.trans hget)
    · rw [hpipe, Function.update_of_ne heq]

/-- What a step makes of each connection that is there after it, and a connection that is not has no
part in it. -/
theorem step_handles {host : Endian} (h : σ.Coupled) (htidy : σ.net.Tidy) (hqueued : σ.Queued)
    (hstep : σ.Step a τ) (hserializes : σ.Serializes host a) (horder : σ.Orderly a) :
    τ.net.Tidy ∧ σ.net.Later τ.net ∧ ∀ id,
      ((τ.net.heap id).isSome → Handles σ a τ id) ∧
      (τ.net.heap id = none → σ.takes a id = [] ∧ σ.reads a id = [] ∧ σ.posts a id = []) := by
  obtain ⟨hc, hexec⟩ := hstep
  have hquiet (hheap : τ.net.heap = σ.net.heap) (hcreated : τ.net.created = σ.net.created)
      (hpool : τ.net.pool = σ.net.pool) (htakes : ∀ id, σ.takes a id = [])
      (hreads : ∀ id, σ.reads a id = []) (hposts : ∀ id, σ.posts a id = []) :
      τ.net.Tidy ∧ σ.net.Later τ.net ∧ ∀ id,
        ((τ.net.heap id).isSome → Handles σ a τ id) ∧
        (τ.net.heap id = none → σ.takes a id = [] ∧ σ.reads a id = [] ∧ σ.posts a id = []) :=
    ⟨htidy.of_heap hheap hpool, later_of_heap hheap hcreated, fun id =>
      ⟨fun _ => handles_of_pipe (htakes id) (hreads id) (hposts id)
        (congrFun (flows_of_heap hheap hpool).pipe id), fun _ => ⟨htakes id, hreads id, hposts id⟩⟩⟩
  cases a with
  | engine b =>
    obtain ⟨engine, hengine, hexec⟩ := of_bind_ok hexec
    obtain rfl := Except.ok.inj hexec
    obtain ⟨hheap, hcreated, hpool, -⟩ := asks_sends (IOEngine.exec_continues hengine).initial
    exact hquiet hheap hcreated hpool (fun _ => rfl) (fun _ => rfl) fun _ => rfl
  | confirmListen uid | confirmConnect uid =>
    obtain ⟨⟨confirmed, engine⟩, hconfirm, hexec⟩ := of_bind_ok hexec
    obtain rfl := Except.ok.inj hexec
    obtain ⟨hheap, hcreated, hpool, -⟩ := asks_sends (IOEngine.confirm_posts hconfirm).events
    exact hquiet hheap hcreated hpool (fun _ => rfl) (fun _ => rfl) fun _ => rfl
  | clear group =>
    obtain rfl := Except.ok.inj hexec
    exact hquiet rfl rfl rfl (fun _ => rfl) (fun _ => rfl) fun _ => rfl
  | recycle p =>
    obtain rfl := Except.ok.inj hexec
    exact hquiet rfl rfl rfl (fun _ => rfl) (fun _ => rfl) fun _ => rfl
  | network b =>
    have hnet := (h.network_step hc hexec).2.1
    obtain ⟨hpre, hruns⟩ := h.answered_pre hc
    have hdrains : σ.net.Drains (σ.answered b) := by
      cases b with
      | poll key event ans => exact horder
      | _ => trivial
    obtain ⟨hpasses, htidy'⟩ := step_passes h.inv htidy hdrains hnet
    refine ⟨htidy', step_later h.inv hnet, fun id => ?_⟩
    have hkeeps (hruns : Action.Runs (σ.answered b)) (hgone : τ.net.heap id = none) :
        σ.net.heap id = none := by
      have hproceeds := exec_proceeds h.inv hpre hruns
      rw [hnet.2] at hproceeds
      by_contra hsome
      have hkept := (hproceeds.leads h.inv).keeps id (Option.isSome_iff_ne_none.mpr hsome)
      rw [hgone] at hkept
      cases hkept
    cases b with
    | dispatch ans =>
      have hpipe : τ.net.pipe = σ.net.offered ans σ.net.addressee := hpasses
      refine ⟨fun _ => ?_, fun hgone => absent_idle h.inv (hkeeps trivial hgone) _⟩
      cases hsending : σ.net.addressee with
      | none =>
        rw [hsending] at hpipe
        exact handles_of_pipe (by simp [takes, sending, hsending]) rfl rfl (congrFun hpipe id)
      | some id₁ =>
        rw [hsending] at hpipe
        by_cases heq : id = id₁
        · subst heq
          have hself : τ.net.pipe id = { σ.net.pipe id with
              box := offer (σ.net.pipe id).box (σ.net.frames id ans).flatten ans.written } := by
            rw [hpipe, CNetwork.offered, Function.update_self]
          obtain ⟨hstream, hsent⟩ := offered_stream hc hqueued hserializes horder hsending
          exact ⟨by rw [hself]; exact hstream, by rw [hself]; exact hsent,
            fun _ => ⟨rfl, by rw [hself]⟩, fun hne => absurd rfl hne⟩
        · refine handles_of_pipe ?_ rfl rfl ?_
          · have hne : ¬σ.net.addressee = some id := by
              rw [hsending]
              exact fun hself => heq (Option.some.inj hself).symm
            simp [takes, sending, hne]
          · rw [hpipe, CNetwork.offered, Function.update_of_ne heq]
    | poll key event ans =>
      exact ⟨fun _ => poll_handles h hpasses,
        fun hgone => absent_idle h.inv (hkeeps trivial hgone) _⟩
    | fire con timer ans =>
      exact ⟨fun _ => handles_of_pipe rfl rfl rfl (congrFun hpasses id), fun _ => ⟨rfl, rfl, rfl⟩⟩
    | recycle object =>
      refine ⟨fun hthere => ?_, fun _ => ⟨rfl, rfl, rfl⟩⟩
      have hpipe : τ.net.pipe = Function.update σ.net.pipe object .empty := hpasses
      have hrecycled : σ.net.recycle object = τ.net := Except.ok.inj hnet.2
      have hne : id ≠ object := by
        rintro rfl
        rw [← hrecycled] at hthere
        unfold CNetwork.recycle at hthere
        split at hthere
        · simp at hthere
        · next hnone => simp [hnone] at hthere
      exact handles_of_pipe rfl rfl rfl (by rw [hpipe, Function.update_of_ne hne])
    | listen => exact hc.elim
    | connect => exact hc.elim
    | push => exact hc.elim
    | pushKey => exact hc.elim

end System

end ZlNet.Engine
