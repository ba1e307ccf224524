import ZlNet.Lib.Outbox
import ZlNet.Lib.Outcome
import ZlNet.Network.Proof.Loop

/-! What a connection sends.  Its socket and its output buffer are an outbox: `tcpSend` offers a
frame to the socket directly and queues what the socket does not take, and `handleTcpConWrite`
drains the queue. -/

namespace ZlNet.Network.CNetwork

open Lib Lib.Word IOObject

/-- What the socket of a connection has taken, and what is in its output buffer. -/
def outbox (σ : CNetwork) (id : ObjectId) : Option (Outbox UInt8) :=
  (σ.heap id).bind fun o => o.endPoint.map fun e => ⟨e.accepted, o.outBuffer.bytes⟩

variable {σ τ : CNetwork} {id : ObjectId} {o : IOObject} {e : CEndPoint}
  {b : Outbox UInt8} {x : Except Fault CNetwork}

/-- Whatever `x` returns, the connection `id` has the outbox `b`. -/
def Ships (id : ObjectId) (b : Outbox UInt8) (x : Except Fault CNetwork) : Prop :=
  Outcome (fun _ => True) (fun τ => τ.outbox id = some b) x

theorem outbox_eq (hheap : σ.heap id = some o) (hend : o.endPoint = some e) :
    σ.outbox id = some ⟨e.accepted, o.outBuffer.bytes⟩ := by
  simp [outbox, hheap, hend]

theorem outbox_put (hend : o.endPoint = some e) (hsent : e.accepted = b.sent)
    (hout : o.outBuffer.bytes = b.pending) : (σ.put id o).outbox id = some b := by
  rw [outbox_eq (σ.put_heap_self id o) hend, hsent, hout]

theorem exists_of_outbox (h : σ.outbox id = some b) :
    ∃ o e, σ.heap id = some o ∧ o.endPoint = some e ∧ b = ⟨e.accepted, o.outBuffer.bytes⟩ := by
  obtain ⟨o, hheap, hbox⟩ := Option.bind_eq_some_iff.mp h
  obtain ⟨e, hend, rfl⟩ := Option.map_eq_some_iff.mp hbox
  exact ⟨o, e, hheap, hend, rfl⟩

theorem accepted_write (data : List UInt8) (count : Int) :
    (e.write data count).accepted = e.accepted ++ data.take count.toNat := by
  simp [CEndPoint.accepted, CEndPoint.write]

theorem accepted_shutdownWrite : e.shutdownWrite.accepted = e.accepted := by
  simp [CEndPoint.accepted, CEndPoint.shutdownWrite]

/-- A computation that goes on after a part whose result does not matter. -/
theorem ships_bind {α : Type} {y : Except Fault α} {f : α → Except Fault CNetwork}
    (h : ∀ a, y = .ok a → Ships id b (f a)) : Ships id b (y >>= f) :=
  Outcome.bind_any h

theorem heap_of_get (h : σ.get id = .ok o) : σ.heap id = some o := by
  unfold get nonNull at h
  split at h
  · next hheap => rw [hheap, Except.ok.inj h]
  · cases h

theorem heap_of_connection (h : σ.connection id = .ok o) : σ.heap id = some o := by
  unfold connection at h
  cases hget : σ.get id with
  | error f => rw [hget] at h; cases h
  | ok o' =>
    rw [hget, ok_bind] at h
    split at h
    · rw [heap_of_get hget, Except.ok.inj h]
    · cases h

theorem notifyProtocol_outbox {notice : Notice} (h : σ.outbox id = some b)
    (hnotify : σ.notifyProtocol o notice = .ok τ) : τ.outbox id = some b := by
  unfold notifyProtocol at hnotify
  cases hp : o.protocol with
  | none => simp [hp, nonNull] at hnotify
  | some p =>
    rw [hp] at hnotify
    obtain rfl := Except.ok.inj hnotify
    exact h

theorem startDisconnecting_ships (h : σ.outbox id = some b) :
    Ships id b (σ.startDisconnecting id) := by
  obtain ⟨o, e, hheap, hend, rfl⟩ := exists_of_outbox h
  simp only [startDisconnecting]
  apply ships_bind
  intro o' hget
  obtain rfl := Option.some.inj (hheap.symm.trans (heap_of_get hget))
  split
  · exact outbox_put hend rfl rfl
  · apply ships_bind
    intro e' he'
    obtain rfl : e = e' := by simpa [hend, nonNull] using he'
    exact outbox_put rfl accepted_shutdownWrite rfl

variable [KeyPool]

/-! ### Closing changes nothing -/

theorem removeObject_ships (h : σ.outbox id = some b) (key : UInt32) :
    Ships id b (σ.removeObject key) := by
  simp only [removeObject]
  split
  · exact ships_bind fun _ _ => ships_bind fun _ _ => h
  · trivial

theorem removeTcpCon_ships (h : σ.outbox id = some b) : Ships id b (σ.removeTcpCon id) := by
  obtain ⟨o, e, hheap, hend, rfl⟩ := exists_of_outbox h
  simp only [removeTcpCon]
  apply ships_bind
  intro o' hget
  obtain rfl := Option.some.inj (hheap.symm.trans (heap_of_get hget))
  apply removeObject_ships
  exact outbox_put hend rfl rfl

/-- What both ways to close a connection do after telling its protocol. -/
theorem close_tail_ships (h : σ.outbox id = some b) (force : Bool) (state : EConnectState) :
    Ships id b (if force then σ.removeTcpCon id
      else if state = .DISCONNECTING then .ok σ else σ.startDisconnecting id) := by
  split
  · exact removeTcpCon_ships h
  · split
    · exact h
    · exact startDisconnecting_ships h

theorem tcpCloseConnection_ships (h : σ.outbox id = some b) (force : Bool) :
    Ships id b (σ.tcpCloseConnection id force) := by
  simp only [tcpCloseConnection]
  refine ships_bind fun o _ => ships_bind fun _ _ => ships_bind fun _ _ => ?_
  by_cases hstate : o.state = .CONNECTED
  · rw [if_pos hstate]
    exact ships_bind fun τ hτ => close_tail_ships (notifyProtocol_outbox h hτ) force o.state
  · rw [if_neg hstate]
    exact close_tail_ships h force o.state

theorem tcpCloseConnector_ships (h : σ.outbox id = some b) (force : Bool) :
    Ships id b (σ.tcpCloseConnector id force) := by
  simp only [tcpCloseConnector]
  refine ships_bind fun o _ => ships_bind fun _ _ => ?_
  split
  · exact ships_bind fun τ hτ => removeTcpCon_ships (notifyProtocol_outbox h hτ)
  by_cases hstate : o.state = .CONNECTED
  · rw [if_pos hstate]
    exact ships_bind fun τ hτ => close_tail_ships (notifyProtocol_outbox h hτ) force o.state
  · rw [if_neg hstate]
    exact close_tail_ships h force o.state

theorem tcpCloseCon_ships (h : σ.outbox id = some b) (force : Bool) :
    Ships id b (σ.tcpCloseCon id force) := by
  apply ships_bind
  intro o _
  split
  · exact tcpCloseConnection_ships h force
  · exact tcpCloseConnector_ships h force

/-! ### Sending and draining -/

/-- The outbox after its socket was offered a frame and returned `count`.  A frame that the socket
refuses is not kept. -/
def offer (b : Outbox UInt8) (data : List UInt8) (count : Int) : Outbox UInt8 :=
  if 0 < count then b.push data count.toNat else b

omit [KeyPool] in
theorem offer_nil (count : Int) : offer b [] count = b := by
  simp [offer, Outbox.push]

omit [KeyPool] in
theorem offer_refused {data : List UInt8} {count : Int} (h : ¬0 < count) :
    offer b data count = b :=
  if_neg h

theorem tcpSend_unsent {ans : Answers} (h : σ.outbox id = some b) (hheap : σ.heap id = some o)
    (hunsent : o.enableSend = false ∨ ans.onSerialize = none) :
    Ships id b (σ.tcpSend id ans) := by
  simp only [tcpSend]
  apply ships_bind
  intro o' hget
  obtain rfl : o = o' := Option.some.inj (hheap.symm.trans (heap_of_get hget))
  apply ships_bind
  intro _ _
  cases hsend : o.enableSend with
  | false => exact h
  | true =>
    rw [hunsent.resolve_left (by simp [hsend])]
    exact tcpCloseCon_ships h true

/-- A send offers its frame to the socket, and keeps what the socket does not take of it. -/
theorem tcpSend_ships {ans : Answers} {data : List UInt8} (h : σ.outbox id = some b)
    (hheap : σ.heap id = some o) (hsend : o.enableSend = true)
    (hdata : ans.onSerialize = some data) (hfits : WriteFits ans) :
    Ships id (offer b data ans.written) (σ.tcpSend id ans) := by
  have hle := hfits data hdata
  obtain ⟨o', e, hheap', hend, hb⟩ := exists_of_outbox h
  obtain rfl : o = o' := Option.some.inj (hheap.symm.trans hheap')
  simp only [tcpSend]
  apply ships_bind
  intro o' hget
  obtain rfl : o = o' := Option.some.inj (hheap.symm.trans (heap_of_get hget))
  apply ships_bind
  intro _ _
  simp only [hsend, hdata, Bool.not_true, Bool.false_eq_true, if_false]
  split
  · trivial
  split
  · next hsize =>
    obtain rfl : data = [] := by simpa using hsize
    rw [offer_nil]
    exact h
  apply ships_bind
  intro e' he'
  obtain rfl : e = e' := by simpa [hend, nonNull] using he'
  split
  · next hcount =>
    apply ships_bind
    intro outBuffer hwrite
    have hbytes := IIOBuffer.bytes_of_write hwrite
    rw [offer, if_pos hcount.1, hb]
    split
    · exact outbox_put rfl (accepted_write ..) hbytes
    · refine outbox_put (e := e.write data ans.written) ?_ (accepted_write ..) ?_
      · rw [deregisterWriteHandler_endPoint]
      · rw [deregisterWriteHandler_outBuffer]
        exact hbytes
  · next hcount =>
    by_cases hpos : 0 < ans.written
    · have hall : ans.written.toNat = data.length := by omega
      rw [offer, if_pos hpos, hb]
      exact outbox_put rfl (accepted_write ..) (by simp [Outbox.push, hall])
    · have hnone : ans.written.toNat = 0 := by omega
      rw [offer, if_neg hpos, hb]
      exact outbox_put rfl (by simp [accepted_write, hnone]) rfl

omit [KeyPool] in
/-- A drain offers the pending bytes to the socket, as long as their number is positive as a signed
integer. -/
theorem handleTcpConWrite_ships {ans : Answers} (h : σ.outbox id = some b)
    (hsmall : b.pending.length < 2 ^ 31) (hfits : ans.written ≤ b.pending.length) :
    Ships id (b.drain ans.written.toNat) (σ.handleTcpConWrite id ans) := by
  obtain ⟨o, e, hheap, hend, rfl⟩ := exists_of_outbox h
  have hsize : toInt32 o.outBuffer.size = o.outBuffer.bytes.length := by
    rw [IIOBuffer.size, toInt32_eq hsmall]
  have hlen : ofInt32 o.outBuffer.bytes.length = o.outBuffer.bytes.length :=
    ofInt32_natCast (Nat.lt_trans hsmall (by decide))
  simp only [handleTcpConWrite]
  apply ships_bind
  intro o' hcon
  obtain rfl : o = o' := Option.some.inj (hheap.symm.trans (heap_of_connection hcon))
  rw [hsize]
  apply ships_bind
  intro _ _
  apply ships_bind
  intro _ _
  apply ships_bind
  intro _ _
  apply ships_bind
  intro e' he'
  obtain rfl : e = e' := by simpa [hend, nonNull] using he'
  rw [hlen]
  split
  · next hall =>
    apply ships_bind
    intro outBuffer hread
    have hbytes := IIOBuffer.bytes_of_readConfirm hread
    refine outbox_put (deregisterWriteHandler_endPoint _) ?_ ?_
    · split
      · rw [accepted_shutdownWrite]
        exact accepted_write ..
      · exact accepted_write ..
    · rw [deregisterWriteHandler_outBuffer]
      exact hbytes.trans (by simp [Outbox.drain, hall])
  split
  · next hpart =>
    apply ships_bind
    intro outBuffer hread
    exact outbox_put rfl (accepted_write ..) (IIOBuffer.bytes_of_readConfirm hread)
  · next hall hpart =>
    have hnone : ans.written.toNat = 0 := by
      simp only [] at hfits
      omega
    exact outbox_put rfl (accepted_write ..) (by simp [Outbox.drain, hnone])

/-! ### Conversations -/

/-- The frame that a send serializes for a connection, if it finds it established. -/
def frames (σ : CNetwork) (id : ObjectId) (ans : Answers) : List (List UInt8) :=
  match σ.heap id with
  | some o => if o.enableSend then ans.onSerialize.toList else []
  | none => []

omit [KeyPool] in
theorem frames_eq {ans : Answers} (hheap : σ.heap id = some o) :
    σ.frames id ans = if o.enableSend then ans.onSerialize.toList else [] := by
  simp [frames, hheap]

/-- A send has the socket take the frame that it serializes, or a part of it. -/
theorem tcpSend_offers {ans : Answers} (h : σ.outbox id = some b) (hfits : WriteFits ans) :
    Ships id (offer b (σ.frames id ans).flatten ans.written) (σ.tcpSend id ans) := by
  obtain ⟨o, e, hheap, -⟩ := exists_of_outbox h
  rw [frames_eq hheap]
  cases hsend : o.enableSend with
  | false =>
    rw [if_neg Bool.false_ne_true, List.flatten_nil, offer_nil]
    exact tcpSend_unsent h hheap (.inl hsend)
  | true =>
    rw [if_pos rfl]
    cases hdata : ans.onSerialize with
    | none =>
      rw [Option.toList_none, List.flatten_nil, offer_nil]
      exact tcpSend_unsent h hheap (.inr hdata)
    | some data =>
      rw [Option.toList_some, List.flatten_singleton]
      exact tcpSend_ships h hheap hsend hdata hfits

end CNetwork

/-- What the socket says to `offered` bytes: it takes some of them, or it is full. -/
def Took (offered : Nat) (count : Int) : Prop := count = -1 ∨ 1 ≤ count ∧ count ≤ offered

instance {offered : Nat} {count : Int} : Decidable (Took offered count) :=
  inferInstanceAs (Decidable (_ ∨ _))

/-- A network thread with the frames that were serialized for one of its connections, and those of
them that the socket did not refuse. -/
structure Conversation where
  net : CNetwork
  serialized : List (List UInt8) := []
  kept : List (List UInt8) := []

inductive SendOp
  | tcpSend (ans : Answers)
  | handleTcpConWrite (ans : Answers)
  | tcpCloseCon (force : Bool)

namespace Conversation

open CNetwork Lib

variable [KeyPool] {id : ObjectId} {c d : Conversation} {op : SendOp} {ops : List SendOp}
  {σ : CNetwork}

/-- One call for the connection `id`. -/
inductive Step (id : ObjectId) (c : Conversation) : SendOp → Conversation → Prop
  | tcpSend {ans : Answers} {τ : CNetwork}
      (htook : ∀ data ∈ ans.onSerialize, Took data.length ans.written)
      (hexec : c.net.tcpSend id ans = .ok τ) :
      Step id c (.tcpSend ans)
        ⟨τ, c.serialized ++ c.net.frames id ans,
          c.kept ++ if ans.written < 0 then [] else c.net.frames id ans⟩
  | handleTcpConWrite {ans : Answers} {τ : CNetwork}
      (htook : ∀ b ∈ c.net.outbox id, Took b.pending.length ans.written)
      (hexec : c.net.handleTcpConWrite id ans = .ok τ) :
      Step id c (.handleTcpConWrite ans) { c with net := τ }
  | tcpCloseCon {force : Bool} {τ : CNetwork} (hexec : c.net.tcpCloseCon id force = .ok τ) :
      Step id c (.tcpCloseCon force) { c with net := τ }

/-- A drain finds fewer bytes than a signed integer can count. -/
def Countable (id : ObjectId) (c : Conversation) : SendOp → Prop
  | .handleTcpConWrite _ => ∀ b ∈ c.net.outbox id, b.pending.length < 2 ^ 31
  | .tcpSend _ | .tcpCloseCon _ => True

/-- A send of some bytes finds the output buffer empty, or the socket refuses them. -/
def InOrder (id : ObjectId) (c : Conversation) (op : SendOp) : Prop :=
  c.Countable id op ∧ ∀ ans, op = .tcpSend ans →
    (c.net.frames id ans).flatten = [] ∨ ans.written < 0 ∨ ∀ b ∈ c.net.outbox id, b.pending = []

/-- The socket refuses no bytes that a send offers it. -/
def Unrefused (id : ObjectId) (c : Conversation) (op : SendOp) : Prop :=
  c.Countable id op ∧ ∀ ans, op = .tcpSend ans →
    (c.net.frames id ans).flatten = [] ∨ 0 ≤ ans.written

/-- What a call makes of the outbox of the connection. -/
def outboxAfter (id : ObjectId) (c : Conversation) (b : Outbox UInt8) : SendOp → Outbox UInt8
  | .tcpSend ans => offer b (c.net.frames id ans).flatten ans.written
  | .handleTcpConWrite ans => b.drain ans.written.toNat
  | .tcpCloseCon _ => b

theorem Step.outbox {b : Outbox UInt8} (h : Step id c op d) (hbox : c.net.outbox id = some b)
    (hcount : c.Countable id op) : d.net.outbox id = some (c.outboxAfter id b op) := by
  cases h with
  | tcpSend htook hexec =>
    have hships := tcpSend_offers hbox fun data hdata => by
      rcases htook data hdata with hnone | ⟨-, hle⟩
      · omega
      · exact hle
    rwa [hexec] at hships
  | @handleTcpConWrite ans τ htook hexec =>
    have hfits : ans.written ≤ b.pending.length := by
      rcases htook b hbox with hnone | ⟨-, hle⟩
      · omega
      · exact hle
    have hships := handleTcpConWrite_ships hbox (hcount b hbox) hfits
    rwa [hexec] at hships
  | @tcpCloseCon force τ hexec =>
    have hships := tcpCloseCon_ships hbox force
    rwa [hexec] at hships

omit [KeyPool] in
/-- If a send has bytes to offer, the socket takes some of them or refuses them. -/
theorem offered (σ : CNetwork) (id : ObjectId) {ans : Answers}
    (htook : ∀ data ∈ ans.onSerialize, Took data.length ans.written) :
    (σ.frames id ans).flatten = [] ∨ ans.written < 0 ∨ 0 < ans.written := by
  unfold frames
  split
  · split
    · cases hdata : ans.onSerialize with
      | none => exact .inl rfl
      | some data =>
        rcases htook data hdata with hnone | ⟨hpos, -⟩
        · exact .inr (.inl (by omega))
        · exact .inr (.inr (by omega))
    · exact .inl rfl
  · exact .inl rfl

/-- A step in order keeps the stream in the order of the frames. -/
theorem Step.stream {b : Outbox UInt8} (h : Step id c op d) (hbox : c.net.outbox id = some b)
    (hstream : b.stream = c.kept.flatten) (horder : c.InOrder id op) :
    (c.outboxAfter id b op).stream = d.kept.flatten := by
  cases h with
  | @tcpSend ans τ htook hexec =>
    rw [outboxAfter, List.flatten_append, ← hstream]
    rcases offered c.net id htook with hnil | hneg | hpos
    · rw [hnil, offer_nil]
      split
      · simp
      · simp [hnil]
    · rw [offer_refused (by omega), if_pos hneg]
      simp
    · rw [if_neg (by omega), offer, if_pos hpos]
      rcases horder.2 ans rfl with hnil | hneg | hempty
      · simp [hnil, Outbox.push]
      · omega
      · exact Outbox.push_stream _ (hempty b hbox)
  | handleTcpConWrite => rw [outboxAfter, Outbox.drain_stream, hstream]
  | tcpCloseCon => exact hstream

/-- A step without a refusal keeps the number of bytes. -/
theorem Step.count {b : Outbox UInt8} (h : Step id c op d)
    (hcount : b.stream.length = c.serialized.flatten.length) (hunrefused : c.Unrefused id op) :
    (c.outboxAfter id b op).stream.length = d.serialized.flatten.length := by
  cases h with
  | @tcpSend ans τ htook hexec =>
    rw [outboxAfter, List.flatten_append, List.length_append, ← hcount]
    rcases offered c.net id htook with hnil | hneg | hpos
    · simp [hnil, offer_nil]
    · rcases hunrefused.2 ans rfl with hnil | hle
      · simp [hnil, offer_nil]
      · omega
    · rw [offer, if_pos hpos]
      exact Outbox.push_count ..
  | handleTcpConWrite => rw [outboxAfter, Outbox.drain_stream, hcount]
  | tcpCloseCon => exact hcount

omit [KeyPool] in
theorem ok_getD {x : Except Fault CNetwork} (σ : CNetwork) (h : x.toBool = true) :
    x = .ok (x.toOption.getD σ) := by
  cases x with
  | ok τ => rfl
  | error f => cases h

/-- In a run in order, what the socket took and what is in the output buffer are, together, the
frames that it did not refuse, in the order of the sends. -/
theorem accepted_in_order (hstart : σ.outbox id = some .empty)
    (run : Run (fun c op d => Step id c op d ∧ c.InOrder id op) ⟨σ, [], []⟩ ops c) :
    ∃ b, c.net.outbox id = some b ∧ b.sent ++ b.pending = c.kept.flatten ∧
      b.sent <+: c.kept.flatten := by
  obtain ⟨b, hbox, hstream⟩ : ∃ b, c.net.outbox id = some b ∧ b.stream = c.kept.flatten := by
    refine run.invariant (fun c => ∃ b, c.net.outbox id = some b ∧ b.stream = c.kept.flatten)
      (fun c op d hinv hstep => ?_) ⟨_, hstart, rfl⟩
    obtain ⟨b, hbox, hstream⟩ := hinv
    obtain ⟨hstep, horder⟩ := hstep
    exact ⟨_, hstep.outbox hbox horder.1, hstep.stream hbox hstream horder⟩
  exact ⟨b, hbox, hstream, hstream ▸ b.sent_prefix⟩

omit [KeyPool] in
/-- Three bytes, of which the socket takes one and then the others, and one more. -/
theorem accepted_in_order_drained :
    ∃ ops c b, Run (fun c op d => @Step .lowBits 0 c op d ∧ c.InOrder 0 op) ⟨connected, [], []⟩
      ops c ∧ c.net.outbox 0 = some b ∧ b.sent = [1, 2, 3, 4] ∧ b.sent <+: c.kept.flatten := by
  let _ := KeyPool.lowBits
  let start : Conversation := ⟨connected, [], []⟩
  have h1 : Run (fun c op d => Step 0 c op d ∧ c.InOrder 0 op) start _ _ := Run.nil.snoc
    ⟨@Step.tcpSend _ 0 _ { onSerialize := some [1, 2, 3], written := 1 } _ (by decide)
      (ok_getD connected (by decide +kernel)), trivial, by rintro _ ⟨⟩; decide +kernel⟩
  have h2 := h1.snoc
    ⟨@Step.handleTcpConWrite _ 0 _ { written := 2 } _ (by decide +kernel)
      (ok_getD connected (by decide +kernel)), by unfold Countable; decide +kernel, by rintro _ ⟨⟩⟩
  have h3 := h2.snoc
    ⟨@Step.tcpSend _ 0 _ { onSerialize := some [4], written := 1 } _ (by decide)
      (ok_getD connected (by decide +kernel)), trivial, by rintro _ ⟨⟩; decide +kernel⟩
  obtain ⟨b, hbox, -, hpre⟩ := accepted_in_order (by decide +kernel) h3
  obtain rfl : ⟨[1, 2, 3, 4], []⟩ = b := Option.some.inj (Eq.trans (by decide +kernel) hbox)
  exact ⟨_, _, _, h3, hbox, rfl, hpre⟩

omit [KeyPool] in
/-- Three bytes, of which the socket takes one, and one more, which it takes before the others. -/
theorem accepted_out_of_order :
    ∃ as ops c b, Run (@CNetwork.Step .lowBits) CNetwork.empty as connected ∧
      connected.outbox 0 = some .empty ∧ Run (@Step .lowBits 0) ⟨connected, [], []⟩ ops c ∧
      c.net.outbox 0 = some b ∧ b.sent = [1, 4] ∧ c.kept = [[1, 2, 3], [4]] ∧
      ¬b.sent <+: c.kept.flatten := by
  let _ := KeyPool.lowBits
  obtain ⟨as, hrun⟩ := connected_run
  have h1 := Run.nil.snoc (@Step.tcpSend _ 0 ⟨connected, [], []⟩
    { onSerialize := some [1, 2, 3], written := 1 } _ (by decide)
    (ok_getD connected (by decide +kernel)))
  have h2 := h1.snoc (@Step.tcpSend _ 0 _ { onSerialize := some [4], written := 1 } _ (by decide)
    (ok_getD connected (by decide +kernel)))
  exact ⟨as, _, _, ⟨[1, 4], [2, 3]⟩, hrun, by decide +kernel, h2, by decide +kernel, rfl,
    by decide +kernel, by decide +kernel⟩

/-- In a run without a refusal, the socket and the output buffer have all bytes that were
serialized. -/
theorem accepted_conserved (hstart : σ.outbox id = some .empty)
    (run : Run (fun c op d => Step id c op d ∧ c.Unrefused id op) ⟨σ, [], []⟩ ops c) :
    ∃ b, c.net.outbox id = some b ∧
      b.sent.length + b.pending.length = (c.serialized.map List.length).sum := by
  obtain ⟨b, hbox, hcount⟩ : ∃ b, c.net.outbox id = some b ∧
      b.stream.length = c.serialized.flatten.length := by
    refine run.invariant
      (fun c => ∃ b, c.net.outbox id = some b ∧ b.stream.length = c.serialized.flatten.length)
      (fun c op d hinv hstep => ?_) ⟨_, hstart, rfl⟩
    obtain ⟨b, hbox, hcount⟩ := hinv
    obtain ⟨hstep, hunrefused⟩ := hstep
    exact ⟨_, hstep.outbox hbox hunrefused.1, hstep.count hcount hunrefused⟩
  exact ⟨b, hbox, by rw [← List.length_append, ← List.length_flatten]; exact hcount⟩

omit [KeyPool] in
/-- Three bytes, of which the socket takes one, and two more, of which it takes one. -/
theorem accepted_conserved_partly :
    ∃ ops c b, Run (fun c op d => @Step .lowBits 0 c op d ∧ c.Unrefused 0 op) ⟨connected, [], []⟩
      ops c ∧ c.net.outbox 0 = some b ∧ b.sent.length + b.pending.length = 5 := by
  let _ := KeyPool.lowBits
  let start : Conversation := ⟨connected, [], []⟩
  have h1 : Run (fun c op d => Step 0 c op d ∧ c.Unrefused 0 op) start _ _ := Run.nil.snoc
    ⟨@Step.tcpSend _ 0 _ { onSerialize := some [1, 2, 3], written := 1 } _ (by decide)
      (ok_getD connected (by decide +kernel)), trivial, by rintro _ ⟨⟩; decide +kernel⟩
  have h2 := h1.snoc
    ⟨@Step.tcpSend _ 0 _ { onSerialize := some [4, 5], written := 1 } _ (by decide)
      (ok_getD connected (by decide +kernel)), trivial, by rintro _ ⟨⟩; decide +kernel⟩
  obtain ⟨b, hbox, hcount⟩ := accepted_conserved (by decide +kernel) h2
  exact ⟨_, _, b, h2, hbox, hcount.trans (by decide +kernel)⟩

omit [KeyPool] in
/-- Three bytes that the socket refuses are lost. -/
theorem accepted_lost :
    ∃ as ops c b, Run (@CNetwork.Step .lowBits) CNetwork.empty as connected ∧
      connected.outbox 0 = some .empty ∧ Run (@Step .lowBits 0) ⟨connected, [], []⟩ ops c ∧
      c.net.outbox 0 = some b ∧ b.sent.length + b.pending.length = 0 ∧
      (c.serialized.map List.length).sum = 3 := by
  let _ := KeyPool.lowBits
  obtain ⟨as, hrun⟩ := connected_run
  have h1 := Run.nil.snoc (@Step.tcpSend _ 0 ⟨connected, [], []⟩
    { onSerialize := some [1, 2, 3], written := -1 } _ (by decide)
    (ok_getD connected (by decide +kernel)))
  exact ⟨as, _, _, ⟨[], []⟩, hrun, by decide +kernel, h1, by decide +kernel, rfl,
    by decide +kernel⟩

end Conversation

end ZlNet.Network
