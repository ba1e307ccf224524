import Mathlib.Logic.Relation
import ZlNet.Engine.NodeLoop
import ZlNet.Engine.Proof.Settled

/-! What a step of a node does, as moves one after another.  A move changes what the engine knows, or
takes a protocol out of its table and calls the function that overrides what is called then, or adds
a connection that is opened or a peer. -/

namespace ZlNet.Engine

open Network Lib.Bytes

/-- What is called when a protocol leaves the table. -/
inductive Ends (protocol : Protocol) : List Upcall → Prop
  | quiet (havail : protocol.available = false) : Ends protocol []
  | unlisten (htype : protocol.type = .LISTENER) {uid : UInt32} : Ends protocol [.onUnlisten uid]
  | listen (htype : protocol.type = .LISTENER) {uid : UInt32} {success : Bool} :
      Ends protocol [.onListen uid success]
  | session (havail : protocol.available = true) (htype : protocol.type = .SESSION) :
      Ends protocol [.onClose protocol.key]
  | connector (havail : protocol.available = true) (htype : protocol.type = .CONNECTOR) :
      Ends protocol [.onDisconnect protocol.key]

theorem Connections.Closing.ends {protocol : Protocol} {calls : List Upcall} (h : Connections.Closing protocol calls) :
    Ends protocol calls := by
  cases h with
  | quiet havail => exact .quiet havail
  | listener _ htype => exact .unlisten htype
  | session havail htype => exact .session havail htype
  | connector havail htype => exact .connector havail htype

namespace NetEngine

variable {L : Type}

/-- A move of a node.  In a `careful` one, no connector that is not available leaves the table while a
node is connecting with it, and in a `tidy` one no listener gets a peer. -/
inductive Move (careful tidy : Prop) (σ : NetEngine L) : NetEngine L → Prop
  | calm {io : IOEngine L SerializeMessage} (hwired : io.Wired tidy)
      (hlater : σ.io.connections.Later io.connections)
      (hcalm : σ.io.connections.Calm io.connections) : Move careful tidy σ { σ with io }
  | ended {io : IOEngine L SerializeMessage} {p : ProtocolId} {calls : List Upcall}
      (hwired : io.Wired tidy) (hlater : σ.io.connections.Later io.connections)
      (hheld : p ∈ σ.io.outstanding) (hdrops : σ.io.connections.Drops p io.connections)
      (hends : Ends (σ.io.protocol p) calls)
      (hcareful : careful → (σ.io.protocol p).available = false →
        (σ.io.protocol p).type = .CONNECTOR → σ.connectingNodes (σ.io.protocol p).key = none) :
      Move careful tidy σ ((calls.map (p, ·)).foldl gone { σ with io })
  | opened {io : IOEngine L SerializeMessage} {p : ProtocolId} {n m : NodeId} {uid : UInt32}
      (hwired : io.Wired tidy) (hlater : σ.io.connections.Later io.connections)
      (hcalm : σ.io.connections.Calm io.connections) (hfree : σ.io.protocols uid = none)
      (hknown : io.protocols uid = some p) (htype : (io.protocol p).type = .CONNECTOR)
      (hm : m = n ∨ σ.connectingNodes uid = some m) :
      Move careful tidy σ { σ.setNode n { σ.node n with uid } with
        io
        connectingNodes := Function.update σ.connectingNodes uid (some m) }
  | listed {code : UInt32} {node : Node} (huid : node.uid = 0) :
      Move careful tidy σ { σ.setNode σ.nodes node with
        nodes := σ.nodes + 1
        connetNodes := Function.update σ.connetNodes code (some σ.nodes) }
  | registered {τ : NetEngine L} {p : ProtocolId} {uid code type : UInt32} {n : NodeId}
      (hknown : σ.io.protocols uid = some p) (havail : (σ.io.protocol p).available = true)
      (htype : tidy → (σ.io.protocol p).type ≠ .LISTENER) (hpeer : σ.peersByUid uid = none)
      (hio : τ.io = σ.io) (hpeers : τ.peersByUid = Function.update σ.peersByUid uid (some n))
      (hcalls : τ.nodeCalls = σ.nodeCalls ++ [(p, .onNodeConnect uid code type)])
      (hconnet : τ.connetNodes = σ.connetNodes)
      (hconnecting : τ.connectingNodes = σ.connectingNodes) (hnodes : σ.nodes ≤ τ.nodes)
      (huids : ∀ m < σ.nodes, (τ.node m).uid = (σ.node m).uid) : Move careful tidy σ τ
  | own {τ : NetEngine L} (hio : τ.io = σ.io) (hpeers : τ.peersByUid = σ.peersByUid)
      (hcalls : τ.nodeCalls = σ.nodeCalls) (hconnet : τ.connetNodes = σ.connetNodes)
      (hconnecting : τ.connectingNodes = σ.connectingNodes) (hnodes : τ.nodes = σ.nodes)
      (hnode : τ.node = σ.node) : Move careful tidy σ τ

/-- `σ` gets to `τ` by moves, and its engine stays wired. -/
structure Moves (careful tidy : Prop) (σ τ : NetEngine L) : Prop where
  wired : τ.io.Wired tidy
  steps : Relation.ReflTransGen (Move careful tidy) σ τ

variable {careful tidy : Prop} {σ σ' τ : NetEngine L} {io : IOEngine L SerializeMessage}
  {p : ProtocolId} {uid : UInt32} {n : IONotify}

theorem setNode_self {k : NodeId} {node : Node} : (σ.setNode k node).node k = node :=
  Function.update_self ..

theorem setNode_ne {k m : NodeId} {node : Node} (hne : m ≠ k) :
    (σ.setNode k node).node m = σ.node m :=
  Function.update_of_ne hne ..

theorem setNode_uid {k m : NodeId} {node : Node} (huid : node.uid = (σ.node k).uid) :
    ((σ.setNode k node).node m).uid = (σ.node m).uid := by
  by_cases heq : m = k
  · rw [heq, setNode_self, huid]
  · rw [setNode_ne heq]

@[simp] theorem removePeer_io : (σ.removePeer p uid).io = σ.io := by
  unfold removePeer
  split <;> rfl

@[simp] theorem onUnlisten_io : (σ.onUnlisten uid).io = σ.io := by
  unfold onUnlisten
  split <;> rfl

@[simp] theorem onClose_io : (σ.onClose p uid).io = σ.io := removePeer_io

@[simp] theorem onDisconnect_io : (σ.onDisconnect p uid).io = σ.io := by
  simp only [onDisconnect, removePeer_io]
  split <;> rfl

@[simp] theorem gone_io {call : ProtocolId × Upcall} : (σ.gone call).io = σ.io := by
  unfold gone
  split
  · exact onUnlisten_io
  · exact onClose_io
  · exact onDisconnect_io
  all_goals rfl

theorem foldl_gone_io (calls : List (ProtocolId × Upcall)) : (calls.foldl gone σ).io = σ.io := by
  induction calls generalizing σ with
  | nil => rfl
  | cons call calls ih => rw [List.foldl_cons, ih, gone_io]

theorem Move.wired (h : σ.io.Wired tidy) (hmove : Move careful tidy σ τ) : τ.io.Wired tidy := by
  cases hmove with
  | calm hwired => exact hwired
  | ended hwired =>
    rw [foldl_gone_io]
    exact hwired
  | opened hwired => exact hwired
  | listed => exact h
  | registered _ _ _ _ hio => exact hio ▸ h
  | own hio => exact hio ▸ h

theorem Moves.refl (h : σ.io.Wired tidy) : Moves careful tidy σ σ := ⟨h, .refl⟩

theorem Moves.single (h : σ.io.Wired tidy) (hmove : Move careful tidy σ τ) : Moves careful tidy σ τ :=
  ⟨hmove.wired h, .single hmove⟩

theorem Moves.trans (h : Moves careful tidy σ σ') (h' : Moves careful tidy σ' τ) : Moves careful tidy σ τ :=
  ⟨h'.wired, h.steps.trans h'.steps⟩

/-- The engine gets to `io`, and all that is known stays known. -/
structure Stays (tidy : Prop) (σ io : IOEngine L SerializeMessage) : Prop where
  wired : io.Wired tidy
  later : σ.connections.Later io.connections
  calm : σ.connections.Calm io.connections

theorem Stays.moves (h : Stays tidy σ.io io) (hwired : σ.io.Wired tidy) : Moves careful tidy σ { σ with io } :=
  .single hwired (.calm h.wired h.later h.calm)

theorem Stays.trans {io' : IOEngine L SerializeMessage} (h : Stays tidy σ.io io) (h' : Stays tidy io io') :
    Stays tidy σ.io io' :=
  ⟨h'.wired, h.later.trans h'.later, h.calm.trans h'.calm⟩

/-- Only the message queue changes, or what is not about protocols. -/
theorem Stays.same (h : σ.io.Wired tidy) (hconn : io.connections = σ.io.connections)
    (hdrains : σ.io.Drains io) : Stays tidy σ.io io := by
  have hheld : io.outstanding = σ.io.outstanding := congrArg Connections.outstanding hconn
  have hlater : σ.io.connections.Later io.connections := by
    rw [hconn]
    exact .refl _
  refine ⟨h.next (hconn ▸ h.sound) hlater ?_ hdrains, hlater, ?_⟩
  · intro p hp
    rwa [← hheld]
  · rw [hconn]
    exact .refl _

theorem Moves.calm (h : σ.io.Wired tidy) (hwired : io.Wired tidy)
    (hlater : σ.io.connections.Later io.connections)
    (hcalm : σ.io.connections.Calm io.connections) : Moves careful tidy σ { σ with io } :=
  Stays.moves ⟨hwired, hlater, hcalm⟩ h

theorem Moves.same (h : σ.io.Wired tidy) (hconn : io.connections = σ.io.connections)
    (hdrains : σ.io.Drains io) : Moves careful tidy σ { σ with io } :=
  (Stays.same h hconn hdrains).moves h

/-! ### Connections that go -/

theorem called_eq {calls : List Upcall} (h : io.upcalls = σ.io.upcalls ++ calls.map (p, ·)) :
    σ.called io = calls.map (p, ·) := by
  simp [called, h]

theorem called_none (h : io.upcalls = σ.io.upcalls) : σ.called io = [] := by
  rw [called, h, List.drop_length]

/-- The protocol is taken out of the table. -/
structure Ended (tidy : Prop) (σ : IOEngine L SerializeMessage) (p : ProtocolId)
    (io : IOEngine L SerializeMessage) : Prop where
  held : p ∈ σ.outstanding
  wired : io.Wired tidy
  retains : σ.Retains io
  later : σ.connections.Later io.connections
  drops : σ.connections.Drops p io.connections

/-- A close finds nothing, or ends the connection that it finds. -/
theorem close_ended (h : σ.io.Wired tidy) (hclose : σ.close uid = .ok τ) :
    τ = σ ∨ ∃ io p calls, σ.io.close uid = .ok io ∧ σ.io.protocols uid = some p ∧
      (σ.io.protocol p).key = uid ∧ Connections.Closing (σ.io.protocol p) calls ∧ Ended tidy σ.io p io ∧
      τ = (calls.map (p, ·)).foldl gone { σ with io } := by
  obtain ⟨io, hio, hτ⟩ := of_bind_ok hclose
  obtain rfl := Except.ok.inj hτ
  rcases IOEngine.close_cases h.sound hio with hsame | ⟨p, calls, hfound, hcalls, hconn⟩
  · subst hsame
    exact .inl (by simp only [called, List.drop_length, List.foldl_nil])
  obtain ⟨hheld, huid⟩ : p ∈ σ.io.outstanding ∧ (σ.io.protocol p).key = uid := h.sound.entry uid p hfound
  have hlater : σ.io.connections.Later io.connections := by
    rw [hconn]
    exact h.sound.touch_later hheld (.inl rfl)
  have hsame : io.outstanding = σ.io.outstanding := congrArg Connections.outstanding hconn
  have hretains : σ.io.Retains io :=
    h.retains hlater (fun q hq => hsame ▸ hq) (IOEngine.close_plain hio).drains
  have hwired : io.Wired tidy := by
    refine h.of_retains ?_ hlater fun _ => hretains
    rw [hconn]
    exact h.sound.touch_none hheld
  have hdrops : σ.io.connections.Drops p io.connections := by
    rw [hconn]
    exact h.sound.touch_drops hheld
  have hupcalls : io.upcalls = σ.io.upcalls ++ calls.map (p, ·) :=
    congrArg Connections.upcalls hconn
  rw [called_eq hupcalls]
  exact .inr ⟨io, p, calls, hio, hfound, huid, hcalls, ⟨hheld, hwired, hretains, hlater, hdrops⟩, rfl⟩

theorem Ended.moves {calls : List Upcall} (h : σ.io.Wired tidy) (hended : Ended tidy σ.io p io)
    (hends : Ends (σ.io.protocol p) calls)
    (hcareful : careful → (σ.io.protocol p).available = false → (σ.io.protocol p).type = .CONNECTOR →
      σ.connectingNodes (σ.io.protocol p).key = none) :
    Moves careful tidy σ ((calls.map (p, ·)).foldl gone { σ with io }) :=
  .single h (.ended hended.wired hended.later hended.held hended.drops hends hcareful)

theorem close_moves (h : σ.io.Wired tidy) (hclose : σ.close uid = .ok τ)
    (hcareful : careful → ∀ p, σ.io.protocols uid = some p → (σ.io.protocol p).available = false →
      (σ.io.protocol p).type = .CONNECTOR → σ.connectingNodes uid = none) : Moves careful tidy σ τ := by
  rcases close_ended h hclose with rfl | ⟨io, p, calls, -, hfound, huid, hcalls, hended, rfl⟩
  · exact .refl h
  refine hended.moves h hcalls.ends fun hc havail htype => ?_
  rw [huid]
  exact hcareful hc p hfound havail htype

/-! ### Notifications -/

variable [IntrusiveNode L] {host : Endian}

theorem send_moves (h : σ.io.Wired tidy) {packet : IOPacket SerializeMessage}
    (hsend : σ.send packet = .ok τ) :
    Moves careful tidy σ τ ∧ τ.io.connections = σ.io.connections := by
  obtain ⟨io, hio, hτ⟩ := of_bind_ok hsend
  obtain rfl := Except.ok.inj hτ
  have hconn := IOEngine.send_connections hio
  refine ⟨.same h hconn ?_, hconn⟩
  intro packet hpacket
  cases IOEngine.send_cases hio with
  | dropped => exact .inl hpacket
  | event => exact .inl hpacket
  | request _ hhandler => cases hhandler
  | failed _ _ hhandler => cases hhandler

omit [IntrusiveNode L] in
/-- A connection that was accepted for the node waits for a ping, or is closed if one does already. -/
theorem onAccept_cases {fromUid : UInt32} (haccept : σ.onAccept uid fromUid = .ok τ) :
    τ = σ ∧ σ.nodeUid ≠ fromUid ∨ σ.nodeUid = fromUid ∧
      (σ.accpetedNodes uid = true ∧ σ.close uid = .ok τ ∨
        τ = { σ with accpetedNodes := Function.update σ.accpetedNodes uid true }) := by
  unfold onAccept at haccept
  split at haccept
  · next huid =>
    split at haccept
    · next hwaits => exact .inr ⟨huid, .inl ⟨hwaits, haccept⟩⟩
    · exact .inr ⟨huid, .inr (Except.ok.inj haccept).symm⟩
  · next hother => exact .inl ⟨(Except.ok.inj haccept).symm, hother⟩

omit [IntrusiveNode L] in
theorem onAccept_moves (h : σ.io.Wired tidy) {fromUid : UInt32}
    (hknown : σ.io.protocols uid = some p) (havail : (σ.io.protocol p).available = true)
    (haccept : σ.onAccept uid fromUid = .ok τ) : Moves careful tidy σ τ := by
  rcases onAccept_cases haccept with ⟨rfl, -⟩ | ⟨-, ⟨-, hclose⟩ | rfl⟩
  · exact .refl h
  · refine close_moves h hclose ?_
    intro _ q hq hquiet
    obtain rfl := Option.some.inj (hknown.symm.trans hq)
    simp [havail] at hquiet
  · exact .single h (.own rfl rfl rfl rfl rfl rfl rfl)

/-- A node that is told that it is connected sends nothing, or its ping. -/
theorem onConnect_cases {success : Bool} (hconnect : σ.onConnect host uid success = .ok τ) :
    τ = σ ∨ ∃ k msg, Handshake.pack host
        ⟨σ.nodeCode, σ.nodeType, σ.nodeInfo, (σ.node k).code, (σ.node k).type⟩ = .ok msg ∧
      σ.send ⟨(σ.node k).uid, Ping, 0, 0, some msg⟩ = .ok τ := by
  unfold onConnect at hconnect
  split at hconnect
  · exact .inl (Except.ok.inj hconnect).symm
  next k _ =>
  split at hconnect
  · obtain ⟨msg, hpack, hsend⟩ := of_bind_ok hconnect
    exact .inr ⟨k, msg, hpack, hsend⟩
  · exact .inl (Except.ok.inj hconnect).symm

theorem onConnect_moves (h : σ.io.Wired tidy) {success : Bool}
    (hconnect : σ.onConnect host uid success = .ok τ) : Moves careful tidy σ τ := by
  rcases onConnect_cases hconnect with rfl | ⟨k, msg, -, hsend⟩
  · exact .refl h
  · exact (send_moves h hsend).1

/-- One call of users. -/
theorem upcall_of_foldlM {call : ProtocolId × Upcall}
    (h : [call].foldlM (fun σ call => σ.upcall host call) σ = .ok τ) :
    σ.upcall host call = .ok τ := by
  simpa only [List.foldlM_cons, List.foldlM_nil, bind_pure] using h

/-- The engine handles a notification, from any place in the queue, and then its users are called. -/
theorem notify_cases (h : σ.io.Wired tidy) {queue : List (Packet SerializeMessage)}
    (hperm : σ.io.msgqueue.Perm (.notify n :: queue)) (hsub : queue.Sublist σ.io.msgqueue)
    (hexec : { σ with io := { σ.io with msgqueue := queue } }.dispatchIOPacket host (.notify n) =
      .ok τ) :
    ∃ io, { σ.io with msgqueue := queue }.dispatchIOPacket (.notify n) = .ok io ∧
      { σ.io.connections with notices := queue.filterMap Packet.notice }.Popped n ∧
      Connections.Handled { σ.io.connections with notices := queue.filterMap Packet.notice } n
        io.connections ∧
      (io.Wired tidy ∧ σ.io.Retains io) ∧
      σ.io.connections.Later io.connections ∧
      (σ.called io).foldlM (fun σ call => σ.upcall host call) { σ with io } = .ok τ := by
  have hqueue : (queue.filterMap Packet.notice).Sublist σ.io.connections.notices :=
    hsub.filterMap _
  have hpopped := h.sound.extract (hperm.filterMap _) hqueue
  obtain ⟨io, hio, hexec⟩ := of_bind_ok hexec
  obtain ⟨σ', hcalled, hexec⟩ := of_bind_ok hexec
  have hplain := IOEngine.dispatchNotify_plain hio
  have hnone : io.dispatched.drop σ.io.dispatched.length = [] := by
    rw [hplain.dispatched]
    exact List.drop_length
  simp only [hnone, List.foldlM_nil] at hexec
  obtain rfl := Except.ok.inj hexec
  have hhandled : Connections.Handled
      { σ.io.connections with notices := queue.filterMap Packet.notice } n io.connections := by
    have hhandled := IOEngine.dispatchNotify_handled (σ := { σ.io with msgqueue := queue }) hpopped
    rwa [IOEngine.Handles, hio] at hhandled
  have hlater := hhandled.later h.sound (hperm.filterMap _) hqueue
  have htalks := IOEngine.dispatchNotify_talks (σ := { σ.io with msgqueue := queue }) n
  rw [hio] at htalks
  have hsame : io.outstanding = σ.io.outstanding := (congrArg IOEngine.outstanding htalks :)
  have hretains : σ.io.Retains io := by
    refine h.retains hlater (fun p hp => hsame ▸ hp) fun packet hpacket => ?_
    rw [hplain.msgqueue] at hpacket
    exact .inl (hsub.subset hpacket)
  exact ⟨io, hio, hpopped, hhandled,
    ⟨h.of_retains (hhandled.sound hpopped) hlater fun _ => hretains, hretains⟩, hlater, hcalled⟩

/-- What a node does with a notification after which its engine is `io`.  It goes on with the protocols
that it knows, ends a connection, or goes on and lets its users know of a connection. -/
inductive Notified (tidy : Prop) (host : Endian) (σ : NetEngine L) (n : IONotify)
    (io : IOEngine L SerializeMessage) : NetEngine L → Prop
  | stays (hstays : Stays tidy σ.io io) : Notified tidy host σ n io { σ with io }
  | ended {calls : List Upcall} (hended : Ended tidy σ.io n.protocol io)
      (hends : Ends (σ.io.protocol n.protocol) calls)
      (hquiet : (σ.io.protocol n.protocol).available = false →
        (σ.io.protocol n.protocol).type = .LISTENER)
      (hlistener : (σ.io.protocol n.protocol).type = .LISTENER →
        n.type = .PacketUnlisten ∧ σ.io.protocols n.uid = some n.protocol) :
      Notified tidy host σ n io ((calls.map (n.protocol, ·)).foldl gone { σ with io })
  | accepted {τ : NetEngine L} {fromUid : UInt32} (hstays : Stays tidy σ.io io)
      (hknown : io.protocols (σ.io.protocol n.protocol).key = some n.protocol)
      (htype : (io.protocol n.protocol).type = .SESSION)
      (havail : (io.protocol n.protocol).available = true)
      (haccept : { σ with io }.onAccept (σ.io.protocol n.protocol).key fromUid = .ok τ) :
      Notified tidy host σ n io τ
  | connected {τ : NetEngine L} (htype : n.type = .PacketConnect) (hstays : Stays tidy σ.io io)
      (hconnect : { σ with io }.onConnect host (σ.io.protocol n.protocol).key n.success = .ok τ) :
      Notified tidy host σ n io τ

theorem notify_notified (h : σ.io.Wired tidy) {queue : List (Packet SerializeMessage)}
    (hperm : σ.io.msgqueue.Perm (.notify n :: queue)) (hsub : queue.Sublist σ.io.msgqueue)
    (hexec : { σ with io := { σ.io with msgqueue := queue } }.dispatchIOPacket host (.notify n) =
      .ok τ) : ∃ io, { σ.io with msgqueue := queue }.dispatchIOPacket (.notify n) = .ok io ∧
        σ.io.Retains io ∧ Notified tidy host σ n io τ := by
  obtain ⟨io, hio, hpopped, hhandled, ⟨hwired, hretains⟩, hlater, hcalled⟩ :=
    notify_cases h hperm hsub hexec
  refine ⟨io, hio, hretains, ?_⟩
  let c : Connections := { σ.io.connections with notices := queue.filterMap Packet.notice }
  have hcalls {available : Bool} {entry : Option ProtocolId} {calls : List Upcall}
      (hconn : io.connections = c.touch n.protocol available entry calls) :
      σ.called io = calls.map (n.protocol, ·) :=
    called_eq (congrArg Connections.upcalls hconn :)
  have hstays {available : Bool} {calls : List Upcall}
      (hconn : io.connections = c.touch n.protocol available (some n.protocol) calls)
      (havail : (σ.io.protocol n.protocol).available = true → available = true) : Stays tidy σ.io io := by
    refine ⟨hwired, hlater, ?_⟩
    rw [hconn]
    exact hpopped.sound.touch_calm hpopped.held havail
  have hended {available : Bool} {calls : List Upcall}
      (hconn : io.connections = c.touch n.protocol available none calls) :
      Ended tidy σ.io n.protocol io := by
    refine ⟨hpopped.held, hwired, hretains, hlater, ?_⟩
    rw [hconn]
    exact hpopped.sound.touch_drops hpopped.held
  generalize hconn : io.connections = c' at hhandled
  cases hhandled with
  | ignored =>
    have hupcalls : io.upcalls = σ.io.upcalls := congrArg Connections.upcalls hconn
    rw [called_none hupcalls] at hcalled
    obtain rfl := Except.ok.inj hcalled
    exact .stays ⟨hwired, hlater,
      Connections.same_calm (congrArg Connections.protocols hconn :)
        (congrArg Connections.protocol hconn :)⟩
  | listened =>
    rw [hcalls hconn] at hcalled
    obtain rfl := Except.ok.inj hcalled
    exact .stays (hstays hconn fun havail => (Bool.or_eq_true ..).mpr (.inr havail))
  | unlistened htype hknown =>
    rw [hcalls hconn] at hcalled
    obtain rfl := Except.ok.inj hcalled
    have hlistener : (σ.io.protocol n.protocol).type = .LISTENER := hpopped.type (by rw [htype]; rfl)
    have hends : Ends (σ.io.protocol n.protocol) [.onListen n.uid n.success] := .listen hlistener
    have hfound : σ.io.protocols n.uid = some n.protocol := by
      rw [hpopped.uid]
      exact hknown
    exact .ended (hended hconn) hends (fun _ => hlistener) fun _ => ⟨htype, hfound⟩
  | accepted haccept =>
    rw [hcalls hconn] at hcalled
    have htype : (io.connections.protocol n.protocol).type = .SESSION := by
      rw [hconn, Connections.touch_type]
      exact hpopped.session haccept
    have hknown : io.connections.protocols (σ.io.protocol n.protocol).key = some n.protocol := by
      rw [hconn]
      exact Function.update_self ..
    have havail : (io.connections.protocol n.protocol).available = true := by
      rw [hconn, Connections.touch_available]
    exact .accepted (hstays hconn fun _ => rfl) hknown htype havail (upcall_of_foldlM hcalled)
  | closed htype havail =>
    rw [hcalls hconn] at hcalled
    obtain rfl := Except.ok.inj hcalled
    have hsession : (σ.io.protocol n.protocol).type = .SESSION := hpopped.type (by rw [htype]; rfl)
    exact .ended (hended hconn) (.session havail hsession)
      (fun hquiet => absurd (hquiet.symm.trans havail) Bool.false_ne_true)
      fun hlistener => by simp [hsession] at hlistener
  | connected htype =>
    rw [hcalls hconn] at hcalled
    have hstays := hstays hconn fun havail => (Bool.or_eq_true ..).mpr (.inr havail)
    exact .connected htype hstays (upcall_of_foldlM hcalled)
  | disconnected htype _ havail =>
    rw [hcalls hconn] at hcalled
    obtain rfl := Except.ok.inj hcalled
    have hconnector : (σ.io.protocol n.protocol).type = .CONNECTOR :=
      hpopped.type (by rw [htype]; rfl)
    exact .ended (hended hconn) (.connector havail hconnector)
      (fun hquiet => absurd (hquiet.symm.trans havail) Bool.false_ne_true)
      fun hlistener => by simp [hconnector] at hlistener

theorem notify_moves (h : σ.io.Wired tidy) {queue : List (Packet SerializeMessage)}
    (hperm : σ.io.msgqueue.Perm (.notify n :: queue)) (hsub : queue.Sublist σ.io.msgqueue)
    (hexec : { σ with io := { σ.io with msgqueue := queue } }.dispatchIOPacket host (.notify n) =
      .ok τ) : Moves careful tidy σ τ := by
  obtain ⟨io, -, -, hnotified⟩ := notify_notified h hperm hsub hexec
  cases hnotified with
  | stays hstays => exact hstays.moves h
  | ended hended hends hquiet =>
    exact hended.moves h hends fun _ havail htype => by simp [hquiet havail] at htype
  | accepted hstays hknown _ havail haccept =>
    exact (hstays.moves h).trans (onAccept_moves hstays.wired hknown havail haccept)
  | connected _ hstays hconnect => exact (hstays.moves h).trans (onConnect_moves hstays.wired hconnect)

/-! ### Packets of data -/

section

omit [IntrusiveNode L]

variable {packet : IOPacket SerializeMessage}

/-- The message of the packet is a handshake with the node. -/
def Greeted (host : Endian) (σ : NetEngine L) (packet : IOPacket SerializeMessage) (h : Handshake) :
    Prop :=
  (∃ msg, packet.message = some msg ∧ Handshake.unpack host msg = .ok h) ∧
    h.toCode = σ.nodeCode ∧ h.toType = σ.nodeType

/-- The packet is a ping that is waited for. -/
def Pinged (host : Endian) (σ : NetEngine L) (packet : IOPacket SerializeMessage) : Prop :=
  ∃ h, σ.Greeted host packet h ∧ σ.accpetedNodes packet.uid = true ∧ σ.peersByUid packet.uid = none

/-- The packet is a pong of the node that is connecting. -/
def Ponged (host : Endian) (σ : NetEngine L) (packet : IOPacket SerializeMessage) : Prop :=
  ∃ h k, σ.Greeted host packet h ∧ σ.connectingNodes packet.uid = some k ∧
    (σ.node k).code = h.fromCode ∧ (σ.node k).type = h.fromType ∧ σ.peersByUid packet.uid = none

/-- There is one handshake in a message. -/
theorem Greeted.only {h h' : Handshake} {msg : SerializeMessage}
    (hgreeted : σ.Greeted host packet h) (hmessage : packet.message = some msg)
    (hunpack : Handshake.unpack host msg = .ok h') : h = h' := by
  obtain ⟨⟨msg', hmessage', hunpack'⟩, -⟩ := hgreeted
  obtain rfl := Option.some.inj (hmessage'.symm.trans hmessage)
  exact Except.ok.inj (hunpack'.symm.trans hunpack)

theorem Greeted.message {h : Handshake} (hgreeted : σ.Greeted host packet h) :
    packet.message ≠ none := by
  obtain ⟨⟨msg, hmessage, -⟩, -⟩ := hgreeted
  simp [hmessage]

/-- The node once it has let the peer in that sent it a ping. -/
def admitted (σ : NetEngine L) (p : ProtocolId) (uid : UInt32) (h : Handshake)
    (io : IOEngine L SerializeMessage) : NetEngine L :=
  { σ with
    io
    node := Function.update σ.node σ.nodes
      { uid, code := h.fromCode, type := h.fromType, info := h.info }
    nodes := σ.nodes + 1
    peersByUid := Function.update σ.peersByUid uid (some σ.nodes)
    nodeCalls := σ.nodeCalls ++ [(p, .onNodeConnect uid h.fromCode h.fromType)] }

/-- The node with the uid of a pong no longer among those that wait for a ping. -/
def unaccpeted (σ : NetEngine L) (uid : UInt32) : NetEngine L :=
  { σ with accpetedNodes := Function.update σ.accpetedNodes uid false }

/-- The node once the node `k` that it connected with has answered its ping. -/
def met (σ : NetEngine L) (p : ProtocolId) (uid : UInt32) (k : NodeId) (h : Handshake) :
    NetEngine L :=
  { σ.unaccpeted uid with
    node := Function.update σ.node k { σ.node k with info := h.info }
    peersByUid := Function.update σ.peersByUid uid (some k)
    nodeCalls := σ.nodeCalls ++ [(p, .onNodeConnect uid (σ.node k).code (σ.node k).type)] }

end

/-- A connection whose ping is not waited for is closed. -/
theorem handlerNodePing_cases {packet : IOPacket SerializeMessage}
    (hping : σ.handlerNodePing host p packet = .ok τ) :
    σ.close packet.uid = .ok τ ∧ ¬σ.Pinged host packet ∨
    ∃ h pong io, σ.Greeted host packet h ∧ σ.accpetedNodes packet.uid = true ∧
      σ.peersByUid packet.uid = none ∧
      Handshake.pack host ⟨σ.nodeCode, σ.nodeType, σ.nodeInfo, h.fromCode, h.fromType⟩ = .ok pong ∧
      σ.send ⟨packet.uid, Pong, 0, 0, some pong⟩ = .ok { σ with io } ∧
      τ = σ.admitted p packet.uid h io := by
  unfold handlerNodePing at hping
  split at hping
  · next hmessage => exact .inl ⟨hping, fun ⟨_, hgreeted, _⟩ => hgreeted.message hmessage⟩
  next msg hmessage =>
  obtain ⟨ping, hunpack, hping⟩ := of_bind_ok hping
  split at hping
  · next hto =>
    refine .inl ⟨hping, fun ⟨h, hgreeted, _⟩ => ?_⟩
    obtain rfl := hgreeted.only hmessage hunpack
    exact hto.elim (· hgreeted.2.1) (· hgreeted.2.2)
  next hto =>
  split at hping
  · next hquiet =>
    exact .inl ⟨hping, fun ⟨_, _, hwaits, _⟩ => Bool.false_ne_true (hquiet.symm.trans hwaits)⟩
  next hwaits =>
  split at hping
  · next hpeer => exact .inl ⟨hping, fun ⟨_, _, _, hnone⟩ => hpeer hnone⟩
  next hpeer =>
  obtain ⟨pong, hpack, hping⟩ := of_bind_ok hping
  obtain ⟨σ', hsend, hτ⟩ := of_bind_ok hping
  obtain rfl := Except.ok.inj hτ
  obtain ⟨io, hio, hσ'⟩ := of_bind_ok hsend
  obtain rfl := Except.ok.inj hσ'
  -- the pong does not depend on the peer that was just added
  have hsent : σ.send ⟨packet.uid, Pong, 0, 0, some pong⟩ = .ok { σ with io } := by
    rw [send, show σ.io.send _ = _ from hio]
    rfl
  obtain ⟨hcode, htype⟩ : ping.toCode = σ.nodeCode ∧ ping.toType = σ.nodeType := by simpa using hto
  exact .inr ⟨ping, pong, io, ⟨⟨msg, hmessage, hunpack⟩, hcode, htype⟩, by simpa using hwaits,
    not_not.mp hpeer, hpack, hsent, rfl⟩

omit [IntrusiveNode L] in
/-- A connection whose pong is not waited for is closed. -/
theorem handlerNodePong_cases {packet : IOPacket SerializeMessage}
    (hpong : σ.handlerNodePong host p packet = .ok τ) :
    (σ.close packet.uid = .ok τ ∨ (σ.unaccpeted packet.uid).close packet.uid = .ok τ) ∧
      ¬σ.Ponged host packet ∨
    ∃ h k, σ.Greeted host packet h ∧ σ.connectingNodes packet.uid = some k ∧
      (σ.node k).code = h.fromCode ∧ (σ.node k).type = h.fromType ∧
      σ.peersByUid packet.uid = none ∧ τ = σ.met p packet.uid k h := by
  unfold handlerNodePong at hpong
  split at hpong
  · next hmessage =>
    exact .inl ⟨.inl hpong, fun ⟨_, _, hgreeted, _⟩ => hgreeted.message hmessage⟩
  next msg hmessage =>
  obtain ⟨pong, hunpack, hpong⟩ := of_bind_ok hpong
  split at hpong
  · next hto =>
    refine .inl ⟨.inl hpong, fun ⟨h, _, hgreeted, _⟩ => ?_⟩
    obtain rfl := hgreeted.only hmessage hunpack
    exact hto.elim (· hgreeted.2.1) (· hgreeted.2.2)
  next hto =>
  split at hpong
  · next hnone => exact .inl ⟨.inl hpong, fun ⟨_, _, _, hsome, _⟩ => by simp [hsome] at hnone⟩
  next k hconnecting =>
  dsimp only at hpong
  split at hpong
  · next hfrom =>
    refine .inl ⟨.inr hpong, fun ⟨h, m, hgreeted, hsome, hcode, htype, _⟩ => ?_⟩
    obtain rfl := hgreeted.only hmessage hunpack
    obtain rfl := Option.some.inj (hsome.symm.trans hconnecting)
    exact hfrom.elim (· hcode) (· htype)
  next hfrom =>
  split at hpong
  · next hpeer => exact .inl ⟨.inr hpong, fun ⟨_, _, _, _, _, _, hnone⟩ => hpeer hnone⟩
  next hpeer =>
  obtain rfl := Except.ok.inj hpong
  obtain ⟨hcode, htype⟩ : pong.toCode = σ.nodeCode ∧ pong.toType = σ.nodeType := by simpa using hto
  obtain ⟨hcode', htype'⟩ : (σ.node k).code = pong.fromCode ∧ (σ.node k).type = pong.fromType := by
    simpa using hfrom
  exact .inr ⟨pong, k, ⟨⟨msg, hmessage, hunpack⟩, hcode, htype⟩, hconnecting, hcode', htype',
    not_not.mp hpeer, rfl⟩

theorem handlerNodePing_moves (h : σ.io.Wired tidy) {packet : IOPacket SerializeMessage}
    (hknown : σ.io.protocols packet.uid = some p) (havail : (σ.io.protocol p).available = true)
    (htype : tidy → (σ.io.protocol p).type ≠ .LISTENER)
    (hping : σ.handlerNodePing host p packet = .ok τ) : Moves careful tidy σ τ := by
  rcases handlerNodePing_cases hping with
    ⟨hclose, -⟩ | ⟨handshake, pong, io, -, -, hpeer, -, hsend, rfl⟩
  · refine close_moves h hclose fun _ q hq hquiet => ?_
    obtain rfl := Option.some.inj (hknown.symm.trans hq)
    simp [havail] at hquiet
  obtain ⟨hmoves, hconn⟩ := send_moves h hsend
  have hprotocols : io.protocols = σ.io.protocols := congrArg Connections.protocols hconn
  have hprotocol : io.protocol = σ.io.protocol := congrArg Connections.protocol hconn
  refine hmoves.trans (.single hmoves.wired (.registered (p := p) ?_ ?_ ?_ hpeer rfl rfl
    rfl rfl rfl (Nat.le_succ _) ?_))
  · exact hprotocols ▸ hknown
  · exact hprotocol ▸ havail
  · exact hprotocol ▸ htype
  · intro m hm
    exact congrArg Node.uid (Function.update_of_ne (Nat.ne_of_lt hm) ..)

omit [IntrusiveNode L] in
theorem handlerNodePong_moves (h : σ.io.Wired tidy) {packet : IOPacket SerializeMessage}
    (hknown : σ.io.protocols packet.uid = some p) (havail : (σ.io.protocol p).available = true)
    (htype : tidy → (σ.io.protocol p).type ≠ .LISTENER)
    (hpong : σ.handlerNodePong host p packet = .ok τ) : Moves careful tidy σ τ := by
  have hclose {σ' : NetEngine L} (hio : σ'.io = σ.io) (hclose : σ'.close packet.uid = .ok τ) :
      Moves careful tidy σ' τ := by
    refine close_moves (hio ▸ h) hclose fun _ q hq hquiet => ?_
    rw [hio] at hq hquiet
    obtain rfl := Option.some.inj (hknown.symm.trans hq)
    exact absurd (hquiet.symm.trans havail) Bool.false_ne_true
  rcases handlerNodePong_cases hpong with
    ⟨hclosed | hclosed, -⟩ | ⟨handshake, k, -, -, -, -, hpeer, rfl⟩
  · exact hclose rfl hclosed
  · have hunaccpeted : Moves careful tidy σ (σ.unaccpeted packet.uid) :=
      .single h (.own rfl rfl rfl rfl rfl rfl rfl)
    exact hunaccpeted.trans (hclose rfl hclosed)
  · exact .single h (.registered hknown havail htype hpeer rfl rfl rfl rfl rfl (Nat.le_refl _)
      fun _ _ => setNode_uid rfl)

/-- A packet of data is dropped, or is a ping or a pong on a connection in the map. -/
theorem handle_cases {call : Nat × IOPacket SerializeMessage}
    (hhandle : σ.handle host call = .ok τ) :
    (τ = σ ∧ ∀ p, σ.io.protocols call.2.uid = some p →
      call.1 ≠ pingHandler ∧ call.1 ≠ pongHandler) ∨
    ∃ p, σ.io.protocols call.2.uid = some p ∧
      (call.1 = pingHandler ∧ σ.handlerNodePing host p call.2 = .ok τ ∨
       call.1 = pongHandler ∧ σ.handlerNodePong host p call.2 = .ok τ) := by
  unfold handle at hhandle
  split at hhandle
  · next hnone =>
    refine .inl ⟨(Except.ok.inj hhandle).symm, fun p hfound => ?_⟩
    exact absurd (hfound.symm.trans hnone) (Option.some_ne_none p)
  next p hfound =>
  split at hhandle
  · next hping => exact .inr ⟨p, hfound, .inl ⟨hping, hhandle⟩⟩
  next hping =>
  split at hhandle
  · next hpong => exact .inr ⟨p, hfound, .inr ⟨hpong, hhandle⟩⟩
  · next hpong => exact .inl ⟨(Except.ok.inj hhandle).symm, fun _ _ => ⟨hping, hpong⟩⟩

theorem handle_moves (h : σ.io.Wired tidy) {call : Nat × IOPacket SerializeMessage}
    (havail : σ.io.isAvailable call.2.uid = true)
    (htype : tidy → ∀ p, σ.io.protocols call.2.uid = some p → (σ.io.protocol p).type ≠ .LISTENER)
    (hhandle : σ.handle host call = .ok τ) : Moves careful tidy σ τ := by
  obtain ⟨rfl, -⟩ | ⟨p, hfound, hhandle⟩ := handle_cases hhandle
  · exact .refl h
  have havail : (σ.io.protocol p).available = true := by
    rw [IOEngine.isAvailable, IOEngine.getProtocol, hfound] at havail
    exact havail
  rcases hhandle with ⟨-, hping⟩ | ⟨-, hpong⟩
  · exact handlerNodePing_moves h hfound havail (htype · p hfound) hping
  · exact handlerNodePong_moves h hfound havail (htype · p hfound) hpong

/-- The engine handles a packet of data, which leaves the connections alone, and then the packet
handler is called, if there is one. -/
theorem msg_cases (h : σ.io.Wired tidy) {queue : List (Packet SerializeMessage)}
    {packet : IOPacket SerializeMessage} (hqueue : σ.io.msgqueue = .msg packet :: queue)
    (hexec : { σ with io := { σ.io with msgqueue := queue } }.dispatchIOPacket host (.msg packet) =
      .ok τ) :
    ∃ io, { σ.io with msgqueue := queue }.onIOPacket packet = .ok io ∧
      Stays tidy σ.io io ∧ σ.io.Retains io ∧ io.connections = σ.io.connections ∧
      (τ = { σ with io } ∨ σ.io.isAvailable packet.uid = true ∧
        ∃ handler, σ.io.packetHandlers packet.cmd = some handler ∧
          { σ with io }.handle host (handler, packet) = .ok τ) := by
  let σ₁ : NetEngine L := { σ with io := { σ.io with msgqueue := queue } }
  have hpop : σ₁.io.connections = σ.io.connections := by
    refine Connections.ext rfl rfl rfl rfl ?_ rfl
    change queue.filterMap Packet.notice = σ.io.msgqueue.filterMap Packet.notice
    rw [hqueue]
    rfl
  obtain ⟨io, hio, hexec⟩ := of_bind_ok hexec
  obtain ⟨σ', hcalled, hexec⟩ := of_bind_ok hexec
  have hconn : io.connections = σ.io.connections := (IOEngine.onIOPacket_connections hio).trans hpop
  have hnone : σ₁.called io = [] := by
    have hupcalls : io.upcalls = σ.io.upcalls := congrArg Connections.upcalls hconn
    simp [called, hupcalls, σ₁]
  rw [hnone] at hcalled
  obtain rfl := Except.ok.inj hcalled
  obtain ⟨hsame, hdispatched⟩ := IOEngine.onIOPacket_dispatched hio
  have hdrains : σ.io.Drains io := by
    intro packet' hpacket
    rw [hsame] at hpacket
    rw [hqueue]
    exact .inl (List.mem_cons_of_mem _ hpacket)
  have hstays := Stays.same h hconn hdrains
  have hheld : io.outstanding = σ.io.outstanding := congrArg Connections.outstanding hconn
  refine ⟨io, hio, hstays, h.retains hstays.later (fun _ hq => hheld ▸ hq) hdrains, hconn, ?_⟩
  rcases hdispatched with hnone | ⟨havail, handler, hhandler, hcall⟩
  · rw [hnone, List.drop_length] at hexec
    exact .inl (Except.ok.inj hexec).symm
  · rw [hcall, List.drop_left] at hexec
    exact .inr ⟨havail, handler, hhandler,
      by simpa only [List.foldlM_cons, List.foldlM_nil, bind_pure] using hexec⟩

/-- What a node does with a packet of data. -/
theorem msg_moves (h : σ.io.Wired tidy) {queue : List (Packet SerializeMessage)}
    {packet : IOPacket SerializeMessage} (hqueue : σ.io.msgqueue = .msg packet :: queue)
    (hexec : { σ with io := { σ.io with msgqueue := queue } }.dispatchIOPacket host (.msg packet) =
      .ok τ) : Moves careful tidy σ τ := by
  obtain ⟨io, -, hstays, -, hconn, rfl | ⟨havail, handler, -, hhandle⟩⟩ := msg_cases h hqueue hexec
  · exact hstays.moves h
  have hprotocols : io.protocols = σ.io.protocols := congrArg Connections.protocols hconn
  have hprotocol : io.protocol = σ.io.protocol := congrArg Connections.protocol hconn
  refine (hstays.moves h).trans (handle_moves hstays.wired ?_ ?_ hhandle)
  · rw [IOEngine.isAvailable, IOEngine.getProtocol, hprotocols, hprotocol]
    exact havail
  · intro htidy p hp
    rw [hprotocols] at hp
    rw [hprotocol]
    obtain ⟨hheld, huid⟩ := h.sound.entry _ p hp
    refine h.addressed htidy packet ?_ p hheld huid
    rw [hqueue]
    exact List.mem_cons_self

end NetEngine

end ZlNet.Engine
