import ZlNet.Engine.Cluster
import ZlNet.Engine.Proof.Peers

/-! What a step of a node says: the packets that it sends, and the peers that it tells users of.  Most
steps say nothing, and none says more than one thing. -/

namespace ZlNet.Engine

open Network Lib Lib.Bytes

namespace IOEngine

variable {L μ : Type} {σ τ υ : IOEngine L μ} {uid : UInt32} {n : IONotify} {packet : IOPacket μ}

/-- Nothing is sent, and the packet handlers stay as they are. -/
structure Mute (σ τ : IOEngine L μ) : Prop where
  handlers : τ.packetHandlers = σ.packetHandlers
  sends : τ.sends = σ.sends

theorem Mute.refl (σ : IOEngine L μ) : σ.Mute σ := ⟨rfl, rfl⟩

theorem Mute.trans (h : σ.Mute τ) (h' : τ.Mute υ) : σ.Mute υ :=
  ⟨h'.handlers.trans h.handlers, h'.sends.trans h.sends⟩

theorem pushEvent_sends (event : Event μ) :
    (σ.pushEvent event).sends = σ.sends ++ event.data?.toList := by
  rw [sends, pushEvent, List.filterMap_append, List.filterMap_cons, List.filterMap_nil]
  cases event.data? with
  | none => rfl
  | some send => rfl

/-- An event that sends no data. -/
theorem Mute.push {event : Event μ} (hdata : event.data? = none) : σ.Mute (σ.pushEvent event) :=
  ⟨rfl, by rw [pushEvent_sends, hdata, Option.toList_none, List.append_nil]⟩

theorem takeKey_mute {p : ProtocolId} {type : EIOOBJECT_TYPE} {key : UInt32} {event : Event μ}
    (hdata : event.data? = none) : σ.Mute (σ.takeKey p type key event) := by
  have hpush : σ.Mute { σ with events := σ.events ++ [event] } := .push hdata
  simp only [takeKey]
  split
  · exact ⟨rfl, hpush.sends⟩
  · exact ⟨rfl, hpush.sends⟩

theorem open_mute {p : ProtocolId} {type : EIOOBJECT_TYPE} {key : UInt32} {event : Event μ}
    (hdata : event.data? = none) :
    σ.Mute (if (σ.protocol p).key ≠ 0 then σ else if key = 0 then σ
      else σ.takeKey p type key event) := by
  apply takeKey_guard (P := fun τ => σ.Mute τ) (.refl σ)
  intro _ _
  exact takeKey_mute hdata

theorem Talks.mute (h : σ.Talks τ) : σ.Mute τ :=
  ⟨(congrArg packetHandlers h :), congrArg (List.filterMap Event.data?) (congrArg events h :)⟩

theorem close_mute (hclose : σ.close uid = .ok τ) : σ.Mute τ := by
  have htalks := close_talks (σ := σ) uid
  rw [hclose] at htalks
  rcases htalks with rfl | ⟨-, htalks⟩
  · exact .refl τ
  · exact (Mute.push rfl).trans htalks.mute

variable [IntrusiveNode L]

theorem dispatchNotify_mute (hexec : σ.dispatchIOPacket (.notify n) = .ok τ) : σ.Mute τ := by
  have htalks := dispatchNotify_talks (σ := σ) n
  rw [hexec] at htalks
  exact htalks.mute

/-- A packet of data is for the handler that its command is bound to. -/
theorem onIOPacket_mute (hexec : σ.onIOPacket packet = .ok τ) : σ.Mute τ ∧
    ∀ call ∈ τ.dispatched.drop σ.dispatched.length,
      σ.packetHandlers packet.cmd = some call.1 := by
  have hnone : ∀ call ∈ σ.dispatched.drop σ.dispatched.length,
      σ.packetHandlers packet.cmd = some call.1 := by simp
  cases onIOPacket_cases hexec with
  | dropped => exact ⟨.refl σ, hnone⟩
  | dispatched =>
    unfold dispatchPacket
    split
    · exact ⟨.refl σ, hnone⟩
    · next handler hhandler => exact ⟨⟨rfl, rfl⟩, by simpa using hhandler⟩
  | completed => exact ⟨⟨rfl, rfl⟩, hnone⟩

end IOEngine

/-- The calls that tell of a new peer. -/
def NodeCall.connects : NodeCall → Bool
  | .onNodeConnect _ _ _ => true
  | .onNodeDisConnect _ => false

namespace NetEngine

variable {L : Type} {tidy : Prop} {σ τ υ : NetEngine L} {io : IOEngine L SerializeMessage}
  {p : ProtocolId} {uid : UInt32} {n : IONotify} {sent sent' : List (UInt32 × IOPacket SerializeMessage)}
  {calls calls' : List (ProtocolId × NodeCall)}

/-- What waits for a ping are sessions that the engine knows. -/
def Attends (σ : NetEngine L) : Prop :=
  ∀ uid, σ.accpetedNodes uid = true → ∃ p, σ.io.protocols uid = some p ∧
    (σ.io.protocol p).type = .SESSION ∧ (σ.io.protocol p).available = true

/-- The handlers that a node binds are for pings and for pongs. -/
def Bound (σ : NetEngine L) : Prop :=
  ∀ cmd, (σ.io.packetHandlers cmd = some pingHandler → cmd = Ping) ∧
    (σ.io.packetHandlers cmd = some pongHandler → cmd = Pong)

/-- On the way from `σ` to `τ` the packets `sent` are sent, and `calls` tells of new peers. -/
structure Speaks (tidy : Prop) (σ : NetEngine L) (sent : List (UInt32 × IOPacket SerializeMessage))
    (calls : List (ProtocolId × NodeCall)) (τ : NetEngine L) : Prop where
  retains : tidy → σ.io.Retains τ.io
  attends : σ.Attends → τ.Attends
  bound : σ.Bound → τ.Bound
  sends : τ.io.sends = σ.io.sends ++ sent
  calls : ∃ told, τ.nodeCalls = σ.nodeCalls ++ told ∧ told.filter (·.2.connects) = calls

theorem Speaks.refl (σ : NetEngine L) : Speaks tidy σ [] [] σ :=
  ⟨fun _ => .refl σ.io, id, id, (List.append_nil _).symm, [], (List.append_nil _).symm, rfl⟩

theorem Speaks.trans (h : Speaks tidy σ sent calls τ) (h' : Speaks tidy τ sent' calls' υ) :
    Speaks tidy σ (sent ++ sent') (calls ++ calls') υ := by
  obtain ⟨told, htold, rfl⟩ := h.calls
  obtain ⟨told', htold', rfl⟩ := h'.calls
  refine ⟨fun ht => (h.retains ht).trans (h'.retains ht), h'.attends ∘ h.attends, h'.bound ∘ h.bound, ?_,
    told ++ told', ?_, List.filter_append ..⟩
  · rw [h'.sends, h.sends, List.append_assoc]
  · rw [htold', htold, List.append_assoc]

theorem bound_of_handlers (hhandlers : τ.io.packetHandlers = σ.io.packetHandlers) (h : σ.Bound) :
    τ.Bound := by
  intro cmd
  rw [hhandlers]
  exact h cmd

/-! ### Who waits for a ping -/

/-- A session that stays known is still there. -/
theorem attended_later (hwired : σ.io.Wired tidy) (hlater : σ.io.connections.Later τ.io.connections)
    (hfound : σ.io.protocols uid = some p) (htype : (σ.io.protocol p).type = .SESSION)
    (hknown : τ.io.connections.Known p) (havail : (τ.io.protocol p).available = true) :
    ∃ p, τ.io.protocols uid = some p ∧ (τ.io.protocol p).type = .SESSION ∧
      (τ.io.protocol p).available = true := by
  have howned := hwired.sound.owned p (hwired.sound.entry uid p hfound).1
  exact ⟨p, found_of_known hwired hlater hfound hknown, (hlater.keys p howned).2.trans htype, havail⟩

theorem Attends.calm (h : σ.Attends) (hwired : σ.io.Wired tidy)
    (hlater : σ.io.connections.Later τ.io.connections)
    (hcalm : σ.io.connections.Calm τ.io.connections)
    (haccpeted : ∀ uid, τ.accpetedNodes uid = true → σ.accpetedNodes uid = true) : τ.Attends := by
  intro uid huid
  obtain ⟨p, hfound, htype, havail⟩ := h uid (haccpeted uid huid)
  obtain ⟨hknown, havail'⟩ := hcalm p (hwired.sound.known_of_found hfound)
  exact attended_later hwired hlater hfound htype hknown (havail' havail)

/-- A session that leaves the table does not wait for a ping any more. -/
theorem Attends.ended (h : σ.Attends) (hwired : σ.io.Wired tidy)
    (hlater : σ.io.connections.Later τ.io.connections)
    (hdrops : σ.io.connections.Drops p τ.io.connections)
    (haccpeted : ∀ uid, τ.accpetedNodes uid = true → σ.accpetedNodes uid = true ∧
      ((σ.io.protocol p).type = .SESSION → (σ.io.protocol p).available = true →
        uid ≠ (σ.io.protocol p).key)) : τ.Attends := by
  intro uid huid
  obtain ⟨hold, hother⟩ := haccpeted uid huid
  obtain ⟨q, hfound, htype, havail⟩ := h uid hold
  have hne : q ≠ p := by
    intro heq
    subst heq
    exact hother htype havail (hwired.sound.entry uid q hfound).2.symm
  obtain ⟨hknown, havail'⟩ := hdrops.2 q hne (hwired.sound.known_of_found hfound)
  exact attended_later hwired hlater hfound htype hknown (havail' havail)

/-- The engine changes, and all that is known stays known. -/
theorem Stays.speaks (hstays : Stays tidy σ.io io) (hwired : σ.io.Wired tidy)
    (hretains : tidy → σ.io.Retains io) (hbound : σ.Bound → { σ with io }.Bound)
    (hsends : io.sends = σ.io.sends ++ sent) : Speaks tidy σ sent [] { σ with io } where
  retains := hretains
  attends h := h.calm hwired hstays.later hstays.calm fun _ => id
  bound := hbound
  sends := hsends
  calls := ⟨[], (List.append_nil _).symm, rfl⟩

theorem Stays.mute (hstays : Stays tidy σ.io io) (hwired : σ.io.Wired tidy)
    (hretains : tidy → σ.io.Retains io) (hmute : σ.io.Mute io) : Speaks tidy σ [] [] { σ with io } :=
  hstays.speaks hwired hretains (bound_of_handlers hmute.handlers)
    (hmute.sends.trans (List.append_nil _).symm)

/-- The engine stays as it is. -/
theorem own_speaks (hio : τ.io = σ.io) (hcalls : τ.nodeCalls = σ.nodeCalls)
    (hattends : σ.Attends → τ.Attends) : Speaks tidy σ [] [] τ where
  retains _ := hio ▸ .refl σ.io
  attends := hattends
  bound := bound_of_handlers (congrArg IOEngine.packetHandlers hio)
  sends := by rw [hio, List.append_nil]
  calls := ⟨[], by rw [hcalls, List.append_nil], rfl⟩

/-- Users are told of a peer. -/
theorem told_speaks {code type : UInt32} (hio : τ.io = σ.io)
    (hcalls : τ.nodeCalls = σ.nodeCalls ++ [(p, .onNodeConnect uid code type)])
    (hattends : σ.Attends → τ.Attends) : Speaks tidy σ [] [(p, .onNodeConnect uid code type)] τ where
  retains _ := hio ▸ .refl σ.io
  attends := hattends
  bound := bound_of_handlers (congrArg IOEngine.packetHandlers hio)
  sends := by rw [hio, List.append_nil]
  calls := ⟨_, hcalls, rfl⟩

/-! ### Connections that go -/

theorem removePeer_accpeted : (σ.removePeer p uid).accpetedNodes = σ.accpetedNodes := by
  unfold removePeer
  split
  · rfl
  · rfl

theorem removePeer_told : ∃ told, (σ.removePeer p uid).nodeCalls = σ.nodeCalls ++ told ∧
    told.filter (·.2.connects) = [] := by
  refine ⟨_, removePeer_calls, ?_⟩
  split
  · rfl
  · rfl

theorem onUnlisten_quiet (σ : NetEngine L) (uid : UInt32) :
    (σ.onUnlisten uid).accpetedNodes = σ.accpetedNodes ∧
      (σ.onUnlisten uid).nodeCalls = σ.nodeCalls := by
  unfold onUnlisten
  split
  · exact ⟨rfl, rfl⟩
  · exact ⟨rfl, rfl⟩

theorem onDisconnect_quiet (σ : NetEngine L) (p : ProtocolId) (uid : UInt32) :
    (σ.onDisconnect p uid).accpetedNodes = σ.accpetedNodes ∧
    ∃ told, (σ.onDisconnect p uid).nodeCalls = σ.nodeCalls ++ told ∧
      told.filter (·.2.connects) = [] := by
  unfold onDisconnect
  split
  · exact ⟨removePeer_accpeted, removePeer_told⟩
  · exact ⟨removePeer_accpeted, removePeer_told⟩

/-- A protocol leaves the table, and its users are told so. -/
theorem Ended.speaks {calls : List Upcall} (hended : Ended tidy σ.io p io) (hwired : σ.io.Wired tidy)
    (hmute : σ.io.Mute io) (hends : Ends (σ.io.protocol p) calls) :
    Speaks tidy σ [] [] ((calls.map (p, ·)).foldl gone { σ with io }) := by
  have speaks {τ : NetEngine L} (hio : τ.io = io) (haccpeted : ∀ uid, τ.accpetedNodes uid = true →
        σ.accpetedNodes uid = true ∧ ((σ.io.protocol p).type = .SESSION →
          (σ.io.protocol p).available = true → uid ≠ (σ.io.protocol p).key))
      (hcalls : ∃ told, τ.nodeCalls = σ.nodeCalls ++ told ∧ told.filter (·.2.connects) = []) :
      Speaks tidy σ [] [] τ := by
    subst hio
    exact ⟨fun _ => hended.retains, fun h => h.ended hwired hended.later hended.drops haccpeted,
      bound_of_handlers hmute.handlers, hmute.sends.trans (List.append_nil _).symm, hcalls⟩
  have same : ∃ told, σ.nodeCalls = σ.nodeCalls ++ told ∧ told.filter (·.2.connects) = [] :=
    ⟨[], (List.append_nil _).symm, rfl⟩
  cases hends with
  | quiet havail =>
    exact speaks rfl (fun _ huid => ⟨huid, fun _ havail' => by simp [havail] at havail'⟩) same
  | @unlisten htype uid =>
    obtain ⟨haccpeted, hcalls⟩ := onUnlisten_quiet { σ with io } uid
    refine speaks onUnlisten_io (fun _ huid => ⟨?_, fun htype' => by simp [htype] at htype'⟩) ?_
    · exact haccpeted ▸ huid
    · exact ⟨[], hcalls.trans (List.append_nil _).symm, rfl⟩
  | listen htype =>
    exact speaks rfl (fun _ huid => ⟨huid, fun htype' => by simp [htype] at htype'⟩) same
  | session =>
    refine speaks onClose_io (fun uid huid => ?_) removePeer_told
    have huid : Function.update σ.accpetedNodes (σ.io.protocol p).key false uid = true :=
      (congrFun removePeer_accpeted uid).symm.trans huid
    by_cases heq : uid = (σ.io.protocol p).key
    · rw [heq, Function.update_self] at huid
      exact absurd huid Bool.false_ne_true
    · rw [Function.update_of_ne heq] at huid
      exact ⟨huid, fun _ _ => heq⟩
  | connector _ htype =>
    obtain ⟨haccpeted, hcalls⟩ :=
      onDisconnect_quiet { σ with io } p (σ.io.protocol p).key
    refine speaks onDisconnect_io (fun _ huid => ⟨?_, fun htype' => by simp [htype] at htype'⟩) hcalls
    exact haccpeted ▸ huid

theorem close_speaks (h : σ.io.Wired tidy) (hclose : σ.close uid = .ok τ) :
    Speaks tidy σ [] [] τ := by
  rcases close_ended h hclose with rfl | ⟨io, p, calls, hio, -, -, hcalls, hended, rfl⟩
  · exact .refl τ
  · exact hended.speaks h (IOEngine.close_mute hio) hcalls.ends

/-! ### Notifications -/

theorem onAccept_speaks (h : σ.io.Wired tidy) {fromUid : UInt32}
    (hknown : σ.io.protocols uid = some p) (htype : (σ.io.protocol p).type = .SESSION)
    (havail : (σ.io.protocol p).available = true) (haccept : σ.onAccept uid fromUid = .ok τ) : Speaks tidy σ [] [] τ := by
  rcases onAccept_cases haccept with ⟨rfl, -⟩ | ⟨-, ⟨-, hclose⟩ | rfl⟩
  · exact .refl τ
  · exact close_speaks h hclose
  · refine own_speaks rfl rfl fun hattends uid' huid => ?_
    have huid : Function.update σ.accpetedNodes uid true uid' = true := huid
    by_cases heq : uid' = uid
    · exact ⟨p, heq ▸ hknown, htype, havail⟩
    · rw [Function.update_of_ne heq] at huid
      exact hattends uid' huid

/-- What is sent is nothing, or a ping of the node. -/
inductive Greets (host : Endian) (σ τ : NetEngine L) :
    List (UInt32 × IOPacket SerializeMessage) → Prop
  | silent : Greets host σ τ []
  | ping {key : UInt32} {h : Handshake} {msg : SerializeMessage} (hpack : h.pack host = .ok msg)
      (hbefore : σ.Owns h.fromCode h.fromType) (hafter : τ.Owns h.fromCode h.fromType) :
      Greets host σ τ [(key, ⟨key, Ping, 0, 0, some msg⟩)]

variable [IntrusiveNode L] {host : Endian} {packet : IOPacket SerializeMessage}

theorem send_speaks (h : σ.io.Wired tidy) (hsend : σ.send packet = .ok τ) :
    ∃ io, τ = { σ with io } ∧ io.connections = σ.io.connections ∧
      (Speaks tidy σ [] [] τ ∧ σ.io.isAvailable packet.uid = false ∨
        Speaks tidy σ [(packet.uid, packet)] [] τ) := by
  obtain ⟨io, hio, hτ⟩ := of_bind_ok hsend
  obtain rfl := Except.ok.inj hτ
  have hconn := IOEngine.send_connections hio
  refine ⟨io, rfl, hconn, ?_⟩
  cases IOEngine.send_cases hio with
  | dropped havail => exact .inl ⟨.refl σ, havail⟩
  | event =>
    have hdrains : σ.io.Drains (σ.io.pushEvent (.data packet.uid packet)) := fun _ => .inl
    have hstays := Stays.same h hconn hdrains
    exact .inr (hstays.speaks h (fun _ => h.retains hstays.later (fun _ hq => hq) hdrains)
      (bound_of_handlers rfl) (IOEngine.pushEvent_sends _))
  | request _ hhandler => cases hhandler
  | failed _ _ hhandler => cases hhandler

theorem onConnect_speaks (h : σ.io.Wired tidy) {success : Bool}
    (hconnect : σ.onConnect host uid success = .ok τ) :
    ∃ sent, Speaks tidy σ sent [] τ ∧ Greets host σ τ sent := by
  rcases onConnect_cases hconnect with rfl | ⟨k, msg, hpack, hsend⟩
  · exact ⟨[], .refl τ, .silent⟩
  obtain ⟨io, rfl, -, ⟨hquiet, -⟩ | hping⟩ := send_speaks h hsend
  · exact ⟨[], hquiet, .silent⟩
  · exact ⟨_, hping, .ping hpack ⟨rfl, rfl⟩ ⟨rfl, rfl⟩⟩

/-- What a node says when it is told of a connection. -/
theorem notify_speaks (h : σ.io.Wired tidy) {queue : List (Packet SerializeMessage)}
    (hperm : σ.io.msgqueue.Perm (.notify n :: queue)) (hsub : queue.Sublist σ.io.msgqueue)
    (hexec : { σ with io := { σ.io with msgqueue := queue } }.dispatchIOPacket host (.notify n) =
      .ok τ) :
    ∃ sent, Speaks tidy σ sent [] τ ∧ Greets host σ τ sent ∧
      (n.type ≠ .PacketConnect → sent = []) := by
  obtain ⟨io, hio, hretains, hnotified⟩ := notify_notified h hperm hsub hexec
  obtain ⟨hhandlers, hsends⟩ := IOEngine.dispatchNotify_mute hio
  have hmute : σ.io.Mute io := ⟨hhandlers, hsends⟩
  have silent (hquiet : Speaks tidy σ [] [] τ) : ∃ sent, Speaks tidy σ sent [] τ ∧
      Greets host σ τ sent ∧ (n.type ≠ .PacketConnect → sent = []) :=
    ⟨[], hquiet, .silent, fun _ => rfl⟩
  cases hnotified with
  | stays hstays => exact silent (hstays.mute h (fun _ => hretains) hmute)
  | ended hended hends => exact silent (hended.speaks h hmute hends)
  | accepted hstays hknown htype havail haccept =>
    exact silent ((hstays.mute h (fun _ => hretains) hmute).trans
      (onAccept_speaks hstays.wired hknown htype havail haccept))
  | connected htype hstays hconnect =>
    obtain ⟨sent, hsent, hgreets⟩ := onConnect_speaks hstays.wired hconnect
    refine ⟨sent, (hstays.mute h (fun _ => hretains) hmute).trans hsent, ?_, fun hne => absurd htype hne⟩
    cases hgreets with
    | silent => exact .silent
    | ping hpack hbefore hafter => exact .ping hpack hbefore hafter

/-! ### Packets of data -/

/-- A node that has a ping lets the peer in, and answers with its pong. -/
structure Admits (host : Endian) (σ : NetEngine L) (p : ProtocolId)
    (packet : IOPacket SerializeMessage) (h : Handshake) (pong : SerializeMessage) (τ : NetEngine L) :
    Prop where
  unpacks : ∃ ping, packet.message = some ping ∧ Handshake.unpack host ping = .ok h
  found : σ.io.protocols packet.uid = some p
  session : (σ.io.protocol p).type = .SESSION
  fresh : σ.peersByUid packet.uid = none
  packs : Handshake.pack host ⟨σ.nodeCode, σ.nodeType, σ.nodeInfo, h.fromCode, h.fromType⟩ = .ok pong
  owns : τ.Owns σ.nodeCode σ.nodeType
  known : τ.io.protocols packet.uid = some p
  peer : ∃ n, τ.peersByUid packet.uid = some n ∧ (τ.node n).code = h.fromCode ∧
    (τ.node n).type = h.fromType

/-- A node that has a pong has the peer that its ping was for. -/
structure Meets (host : Endian) (σ : NetEngine L) (p : ProtocolId)
    (packet : IOPacket SerializeMessage) (h : Handshake) (τ : NetEngine L) : Prop where
  unpacks : ∃ pong, packet.message = some pong ∧ Handshake.unpack host pong = .ok h
  found : σ.io.protocols packet.uid = some p
  owned : σ.Owns h.toCode h.toType
  owns : τ.Owns h.toCode h.toType

theorem handlerNodePing_speaks (h : σ.io.Wired tidy) (hattends : σ.Attends)
    (hfound : σ.io.protocols packet.uid = some p) (havail : σ.io.isAvailable packet.uid = true)
    (hping : σ.handlerNodePing host p packet = .ok τ) :
    Speaks tidy σ [] [] τ ∨ ∃ h pong, Admits host σ p packet h pong τ ∧
      Speaks tidy σ [(packet.uid, ⟨packet.uid, Pong, 0, 0, some pong⟩)]
        [(p, .onNodeConnect packet.uid h.fromCode h.fromType)] τ := by
  rcases handlerNodePing_cases hping with
    ⟨hclose, -⟩ | ⟨handshake, pong, io, hgreeted, haccpeted, hpeer, hpack, hsend, rfl⟩
  · exact .inl (close_speaks h hclose)
  obtain ⟨_, hio, hconn, ⟨-, hquiet⟩ | hspeaks⟩ := send_speaks h hsend
  · exact absurd (hquiet.symm.trans havail) Bool.false_ne_true
  obtain rfl : io = _ := congrArg NetEngine.io hio
  obtain ⟨q, hq, hsession, -⟩ := hattends packet.uid haccpeted
  obtain rfl := Option.some.inj (hfound.symm.trans hq)
  refine .inr ⟨handshake, pong, ?_, hspeaks.trans (told_speaks rfl rfl id)⟩
  exact {
    unpacks := hgreeted.1
    found := hfound
    session := hsession
    fresh := hpeer
    packs := hpack
    owns := ⟨rfl, rfl⟩
    known := (congrFun (congrArg Connections.protocols hconn) _ :).trans hfound
    peer := ⟨σ.nodes, by simp [admitted]⟩ }

omit [IntrusiveNode L] in
theorem unaccpeted_speaks (uid : UInt32) : Speaks tidy σ [] [] (σ.unaccpeted uid) := by
  refine own_speaks rfl rfl fun hattends uid' hwaits => hattends uid' ?_
  have hwaits : Function.update σ.accpetedNodes uid false uid' = true := hwaits
  by_cases heq : uid' = uid
  · simp [heq] at hwaits
  · rwa [Function.update_of_ne heq] at hwaits

omit [IntrusiveNode L] in
theorem handlerNodePong_speaks (h : σ.io.Wired tidy) (hfound : σ.io.protocols packet.uid = some p)
    (hpong : σ.handlerNodePong host p packet = .ok τ) :
    Speaks tidy σ [] [] τ ∨ ∃ h, Meets host σ p packet h τ ∧
      Speaks tidy σ [] [(p, .onNodeConnect packet.uid h.fromCode h.fromType)] τ := by
  have hunaccpeted : Speaks tidy σ [] [] (σ.unaccpeted packet.uid) := unaccpeted_speaks packet.uid
  rcases handlerNodePong_cases hpong with
    ⟨hclose | hclose, -⟩ | ⟨handshake, k, ⟨hunpacks, howned⟩, -, hcode, htype, -, rfl⟩
  · exact .inl (close_speaks h hclose)
  · exact .inl (hunaccpeted.trans (close_speaks (σ := σ.unaccpeted packet.uid) h hclose))
  refine .inr ⟨handshake, ?_, hunaccpeted.trans (told_speaks rfl ?_ id)⟩
  · exact {
      unpacks := hunpacks
      found := hfound
      owned := ⟨howned.1.symm, howned.2.symm⟩
      owns := ⟨howned.1.symm, howned.2.symm⟩ }
  · rw [← hcode, ← htype]
    rfl

/-- What a step says.  A ping or a pong is sent only as part of a handshake, and of new peers users are
told only then. -/
inductive Said (host : Endian) (σ τ : NetEngine L) : List (UInt32 × IOPacket SerializeMessage) →
    List (ProtocolId × NodeCall) → Prop
  | plain {sent : List (UInt32 × IOPacket SerializeMessage)}
      (hplain : ∀ send ∈ sent, send.2.cmd ≠ Ping ∧ send.2.cmd ≠ Pong) : Said host σ τ sent []
  | greets {sent : List (UInt32 × IOPacket SerializeMessage)} (hgreets : Greets host σ τ sent) :
      Said host σ τ sent []
  | admits {p : ProtocolId} {packet : IOPacket SerializeMessage} {h : Handshake}
      {pong : SerializeMessage} (hpacket : .msg packet ∈ σ.io.msgqueue) (hcmd : packet.cmd = Ping)
      (hadmits : Admits host σ p packet h pong τ) :
      Said host σ τ [(packet.uid, ⟨packet.uid, Pong, 0, 0, some pong⟩)]
        [(p, .onNodeConnect packet.uid h.fromCode h.fromType)]
  | meets {p : ProtocolId} {packet : IOPacket SerializeMessage} {h : Handshake}
      (hpacket : .msg packet ∈ σ.io.msgqueue) (hcmd : packet.cmd = Pong)
      (hmeets : Meets host σ p packet h τ) :
      Said host σ τ [] [(p, .onNodeConnect packet.uid h.fromCode h.fromType)]

theorem msg_said (h : σ.io.Wired tidy) (hattends : σ.Attends) (hbound : σ.Bound)
    {queue : List (Packet SerializeMessage)} (hqueue : σ.io.msgqueue = .msg packet :: queue)
    (hexec : { σ with io := { σ.io with msgqueue := queue } }.dispatchIOPacket host (.msg packet) =
      .ok τ) : ∃ sent calls, Speaks tidy σ sent calls τ ∧ Said host σ τ sent calls := by
  obtain ⟨io, hio, hstays, hretains, hconn, hτ⟩ := msg_cases h hqueue hexec
  obtain ⟨⟨hhandlers, hsends⟩, -⟩ := IOEngine.onIOPacket_mute hio
  have hhandled : Speaks tidy σ [] [] { σ with io } := hstays.mute h (fun _ => hretains) ⟨hhandlers, hsends⟩
  have plain (hspeaks : Speaks tidy σ [] [] τ) :
      ∃ sent calls, Speaks tidy σ sent calls τ ∧ Said host σ τ sent calls :=
    ⟨[], [], hspeaks, .plain (by simp)⟩
  obtain rfl | ⟨havail, handler, hhandler, hhandle⟩ := hτ
  · exact plain hhandled
  have hprotocols : io.protocols = σ.io.protocols := congrArg Connections.protocols hconn
  have hprotocol : io.protocol = σ.io.protocol := congrArg Connections.protocol hconn
  have hpacket : .msg packet ∈ σ.io.msgqueue := by
    rw [hqueue]
    exact List.mem_cons_self
  obtain ⟨rfl, -⟩ | ⟨p, hfound, ⟨hk, hping⟩ | ⟨hk, hpong⟩⟩ := handle_cases hhandle
  · exact plain hhandled
  · have hcmd : packet.cmd = Ping := (hbound packet.cmd).1 (hk ▸ hhandler)
    have havail : io.isAvailable packet.uid = true := by
      rw [IOEngine.isAvailable, IOEngine.getProtocol, hprotocols, hprotocol]
      exact havail
    obtain hquiet | ⟨handshake, pong, hadmits, hspeaks⟩ :=
      handlerNodePing_speaks hstays.wired (hhandled.attends hattends) hfound havail hping
    · exact plain (hhandled.trans hquiet)
    · refine ⟨_, _, hhandled.trans hspeaks, .admits hpacket hcmd ?_⟩
      exact { hadmits with
        found := hprotocols ▸ hadmits.found
        session := hprotocol ▸ hadmits.session }
  · have hcmd : packet.cmd = Pong := (hbound packet.cmd).2 (hk ▸ hhandler)
    obtain hquiet | ⟨handshake, hmeets, hspeaks⟩ :=
      handlerNodePong_speaks hstays.wired hfound hpong
    · exact plain (hhandled.trans hquiet)
    · exact ⟨_, _, hhandled.trans hspeaks,
        .meets hpacket hcmd { hmeets with found := hprotocols ▸ hmeets.found }⟩

/-! ### Confirmed nodes -/

variable {polled : Option IONotify}

theorem pollOnePacket_speaks (h : σ.io.Wired tidy) (hpoll : σ.pollOnePacket host p polled = .ok τ) :
    ∃ sent, Speaks tidy σ sent [] τ ∧ Greets host σ τ sent ∧
      ((∀ n, polled = some n → n.type ≠ .PacketConnect) → sent = []) := by
  unfold pollOnePacket at hpoll
  split at hpoll
  · obtain rfl := Except.ok.inj hpoll
    exact ⟨[], .refl σ, .silent, fun _ => rfl⟩
  next n =>
  split at hpoll
  · next hcond =>
    obtain ⟨sent, hspeaks, hgreets, hnone⟩ :=
      notify_speaks h (List.perm_cons_erase hcond.2) List.erase_sublist hpoll
    exact ⟨sent, hspeaks, hgreets, fun hother => hnone (hother n rfl)⟩
  · obtain rfl := Except.ok.inj hpoll
    exact ⟨[], .refl σ, .silent, fun _ => rfl⟩

omit [IntrusiveNode L] in
/-- What is taken out of the table because it was not confirmed goes without a word. -/
theorem unconfirmed_speaks (h : σ.io.Wired tidy)
    (htable : σ.io.protocols uid = some p ∨ σ.io.protocols uid = none)
    (havail : (σ.io.protocol p).available = false) :
    Speaks tidy σ [] [] { σ with io := (σ.io.removeProtocol uid).pushEvent (.close uid) } := by
  have hmute : σ.io.Mute ((σ.io.removeProtocol uid).pushEvent (.close uid)) :=
    .trans (τ := σ.io.removeProtocol uid) ⟨rfl, rfl⟩ (.push rfl)
  rcases unconfirmed_cases h htable havail rfl with hstays | ⟨-, hended⟩
  · exact hstays.mute h (fun _ => h.retains hstays.later (fun _ hq => hq) fun _ => .inl) hmute
  · exact hended.speaks h hmute (.quiet havail)

theorem confirm_speaks (h : σ.io.Wired tidy) {confirmed : Bool}
    (hconfirm : σ.confirm host uid polled = .ok (confirmed, τ)) :
    ∃ sent, Speaks tidy σ sent [] τ ∧ Greets host σ τ sent ∧
      ((∀ n, polled = some n → n.type ≠ .PacketConnect) → sent = []) := by
  obtain rfl | ⟨p, σ', hfound, hquiet, hpoll, hτ⟩ := confirm_cases hconfirm
  · exact ⟨[], .refl _, .silent, fun _ => rfl⟩
  obtain ⟨sent, hspeaks, hgreets, hnone⟩ := pollOnePacket_speaks h hpoll
  obtain rfl | ⟨havail, rfl⟩ := hτ
  · exact ⟨sent, hspeaks, hgreets, hnone⟩
  obtain ⟨hmoves, htable, -⟩ := (pollOnePacket_cases h hfound hquiet hpoll : Moves False tidy _ _ ∧ _)
  have hspeaks := hspeaks.trans (unconfirmed_speaks hmoves.wired htable havail)
  rw [List.append_nil] at hspeaks
  refine ⟨sent, hspeaks, ?_, hnone⟩
  cases hgreets with
  | silent => exact .silent
  | ping hpack hbefore hafter => exact .ping hpack hbefore hafter

/-! ### New connections -/

section

omit [IntrusiveNode L]

variable {key : UInt32}

/-- `listen` and `connect` say nothing. -/
theorem open_speaks (h : σ.io.Wired tidy) (hmade : p < σ.io.created) (hfresh : σ.io.Fresh tidy key)
    {type : EIOOBJECT_TYPE} (htype : type = .LISTENER ∨ type = .CONNECTOR)
    (event : Event SerializeMessage) (hdata : event.data? = none)
    (hio : io = if (σ.io.protocol p).key ≠ 0 then σ.io else if key = 0 then σ.io
      else σ.io.takeKey p type key event) : Speaks tidy σ [] [] { σ with io } := by
  have hmute : σ.io.Mute io := by
    rw [hio]
    exact IOEngine.open_mute hdata
  rcases IOEngine.open_cases h hmade hfresh htype event hio with ⟨-, rfl⟩ | hopened
  · exact .refl σ
  · exact Stays.mute ⟨hopened.wired, hopened.later, hopened.calm⟩ h hopened.retains hmute

theorem create_speaks (h : σ.io.Wired tidy) : Speaks tidy σ [] [] { σ with io := σ.io.create } :=
  (create_stays h).mute h
    (fun _ => h.retains (create_stays h).later (fun _ hq => hq) fun _ => .inl) ⟨rfl, rfl⟩

/-- The network posts a notification. -/
theorem post_speaks (h : σ.io.Wired tidy) (hstays : Stays tidy σ.io (σ.io.postPacket (.notify n))) :
    Speaks tidy σ [] [] { σ with io := σ.io.postPacket (.notify n) } := by
  refine hstays.mute h (fun _ => h.retains hstays.later (fun _ hq => hq) fun packet hpacket => ?_) ⟨rfl, rfl⟩
  rcases List.mem_append.mp hpacket with hpacket | hpacket
  · exact .inl hpacket
  · cases List.mem_singleton.mp hpacket

theorem bindPacketHandler_speaks (h : σ.io.Wired tidy) {cmd : UInt32} {handler : Nat}
    (hping : handler = pingHandler → cmd = Ping) (hpong : handler = pongHandler → cmd = Pong) :
    Speaks tidy σ [] [] { σ with io := σ.io.bindPacketHandler cmd handler } := by
  unfold IOEngine.bindPacketHandler
  split
  · exact .refl σ
  next hnone =>
  have hstays : Stays tidy σ.io (σ.io.bindPacketHandler cmd handler) := bindPacketHandler_stays h
  rw [IOEngine.bindPacketHandler, hnone] at hstays
  refine hstays.speaks h (fun _ => h.retains hstays.later (fun _ hq => hq) fun _ => .inl) ?_
    (List.append_nil _).symm
  intro hbound cmd'
  by_cases heq : cmd' = cmd
  · subst heq
    simpa using ⟨hping, hpong⟩
  · simpa [heq] using hbound cmd'

theorem connectNode_speaks (h : σ.io.Wired tidy) {code type : UInt32} {address : CAddress}
    (hmade : p < σ.io.created) (hfresh : σ.io.Fresh tidy key) :
    Speaks tidy σ [] [] (σ.connectNode code type address p key).2 := by
  have hopened : Speaks tidy σ [] [] { σ with io := σ.io.connect address p key } :=
    open_speaks h hmade hfresh (.inr rfl) (.connect address p) rfl rfl
  unfold connectNode
  split
  · exact .refl σ
  dsimp only
  split
  · exact hopened.trans (own_speaks rfl rfl id)
  · exact hopened.trans (own_speaks rfl rfl id)

theorem reconnect_speaks (h : σ.io.Wired tidy) {k : NodeId} (hfresh : σ.io.Fresh tidy key) :
    Speaks tidy σ [] [] (σ.reconnect k key) := by
  have hcreated : Speaks tidy σ [] [] { σ with io := σ.io.create } := create_speaks h
  have hopened := hcreated.trans (open_speaks (create_stays h).wired (Nat.lt_succ_self _)
    (fresh_create hfresh h) (.inr rfl) (.connect (σ.node k).address σ.io.created) rfl rfl)
  unfold reconnect
  split
  · exact .refl σ
  dsimp only
  split
  · exact hopened.trans (own_speaks rfl rfl id)
  · exact hopened.trans (own_speaks rfl rfl id)

theorem reconnectNode_speaks (h : σ.io.Wired tidy) {code : UInt32} (hfresh : σ.io.Fresh tidy key) :
    Speaks tidy σ [] [] (σ.reconnectNode code key) := by
  unfold reconnectNode
  split
  · exact .refl σ
  · exact reconnect_speaks h hfresh

end

/-! ### Steps -/

theorem setupNode_speaks {code type uid key : UInt32} {port : UInt16} {info : List UInt8}
    {answer : Option IONotify} (h : σ.io.Wired tidy) (hmade : p < σ.io.created)
    (hfresh : σ.io.Fresh tidy key)
    (hanswer : ∀ n, answer = some n → n.protocol = p ∧ n.uid = key ∧ n.type.about = some .LISTENER)
    (hsetup : σ.setupNode host code type port p info key answer = .ok (uid, τ)) :
    Speaks tidy σ [] [] τ := by
  rcases setupNode_cases h hmade hfresh hanswer hsetup with
    rfl | rfl | ⟨confirmed, σ', hopened, hstays, hconfirm, rfl⟩
  · exact .refl τ
  · exact own_speaks rfl rfl id
  let named : NetEngine L :=
    { σ with nodeUid := key, nodeCode := code, nodeType := type, nodeInfo := info }
  have hnamed : Speaks tidy σ [] [] named := own_speaks rfl rfl id
  have hlistening : Speaks tidy named [] [] (σ.listening code type port p info key) :=
    open_speaks h hmade hfresh (.inl rfl) (.listen port p) rfl rfl
  have hanswered : Speaks tidy (σ.listening code type port p info key) [] []
      ((σ.listening code type port p info key).answered answer) := by
    cases answer with
    | none => exact .refl _
    | some n => exact post_speaks hopened.wired hstays
  obtain ⟨sent, hconfirmed, -, hnone⟩ := confirm_speaks hstays.wired hconfirm
  have hsilent : sent = [] := by
    refine hnone fun n hn hconnect => ?_
    obtain ⟨-, -, habout⟩ := hanswer n hn
    simp [hconnect, EPacketType.about] at habout
  subst hsilent
  have hspeaks := ((hnamed.trans hlistening).trans hanswered).trans hconfirmed
  split
  · exact hspeaks
  · exact hspeaks.trans (own_speaks rfl rfl id)

/-- What a user sends is neither a ping nor a pong. -/
theorem userSend_speaks (h : σ.io.Wired tidy) {request : Request SerializeMessage}
    (honest : request.packet.cmd ≠ Ping ∧ request.packet.cmd ≠ Pong)
    (hsend : σ.io.exec (.send request) = .ok io) :
    ∃ sent, Speaks tidy σ sent [] { σ with io } ∧
      ∀ send ∈ sent, send.2.cmd ≠ Ping ∧ send.2.cmd ≠ Pong := by
  have hconn := IOEngine.send_connections hsend
  have hdrains := send_drains hsend
  have hstays := Stays.same h hconn hdrains
  have hheld : io.outstanding = σ.io.outstanding := congrArg Connections.outstanding hconn
  have hretains := h.retains hstays.later (fun _ hq => hheld ▸ hq) hdrains
  cases IOEngine.send_cases hsend with
  | dropped => exact ⟨[], .refl σ, by simp⟩
  | event =>
    have hspeaks := hstays.speaks h (fun _ => hretains) (bound_of_handlers rfl) (IOEngine.pushEvent_sends _)
    exact ⟨_, hspeaks, by simpa [Event.data?] using honest⟩
  | request _ _ hbind =>
    obtain ⟨-, rfl⟩ := IOEngine.bindRequest_spec hbind
    have hspeaks := hstays.speaks h (fun _ => hretains) (bound_of_handlers rfl) (IOEngine.pushEvent_sends _)
    exact ⟨_, hspeaks, by simpa [Event.data?] using honest⟩
  | failed _ _ _ hbind =>
    obtain ⟨-, rfl⟩ := IOEngine.bindRequest_spec hbind
    exact ⟨[], hstays.mute h (fun _ => hretains) ⟨rfl, rfl⟩, by simp⟩

/-- A step of the engine that calls nobody. -/
theorem io_speaks {a : Action SerializeMessage} (h : σ.io.Wired tidy)
    (honest : NetAction.Honest (.io a)) (hexec : σ.io.exec a = .ok io)
    (hcontract : σ.Contract (.io a)) (htidy : tidy → σ.Tidy (.io a)) (hclose : ∀ uid, a ≠ .close uid)
    (hdispatch : ∀ packet, a ≠ .dispatch packet) :
    ∃ sent, Speaks tidy σ sent [] { σ with io } ∧
      ∀ send ∈ sent, send.2.cmd ≠ Ping ∧ send.2.cmd ≠ Pong := by
  have hstays := io_stays h hexec hcontract htidy hclose hdispatch
  have silent (hspeaks : Speaks tidy σ [] [] { σ with io }) :
      ∃ sent, Speaks tidy σ sent [] { σ with io } ∧
        ∀ send ∈ sent, send.2.cmd ≠ Ping ∧ send.2.cmd ≠ Pong := ⟨[], hspeaks, by simp⟩
  obtain ⟨hcontract, hown⟩ := hcontract
  cases a with
  | create =>
    obtain rfl := Except.ok.inj hexec
    exact silent (create_speaks h)
  | listen port p key =>
    obtain rfl := Except.ok.inj hexec
    exact silent (open_speaks h hcontract.1 ⟨hcontract.2, htidy⟩ (.inl rfl) (.listen port p) rfl rfl)
  | connect address p key =>
    obtain rfl := Except.ok.inj hexec
    exact silent (open_speaks h hcontract.1 ⟨hcontract.2, htidy⟩ (.inr rfl) (.connect address p) rfl rfl)
  | close uid => exact absurd rfl (hclose uid)
  | bindPacketHandler cmd handler =>
    obtain rfl := Except.ok.inj hexec
    exact silent (bindPacketHandler_speaks h (absurd · hown.1) (absurd · hown.2))
  | send request => exact userSend_speaks h honest hexec
  | accept key fromProtocol =>
    obtain rfl := Except.ok.inj hexec
    exact silent (hstays.mute h (fun ht => accept_retains hcontract.1 (htidy ht)) ⟨rfl, rfl⟩)
  | post packet =>
    obtain rfl := Except.ok.inj hexec
    cases packet with
    | msg packet => exact honest.elim
    | notify n => exact silent (post_speaks h hstays)
  | dispatch packet => exact absurd rfl (hdispatch packet)
  | timeout now =>
    obtain rfl := Except.ok.inj hexec
    refine silent ?_
    cases htimeout : σ.io.timeoutFront now with
    | none => exact .refl σ
    | some τ =>
      rw [htimeout] at hstays
      obtain ⟨k, -, -, rfl⟩ := IOEngine.timeoutFront_cases htimeout
      exact hstays.mute h (fun _ => h.retains hstays.later (fun _ hq => hq) fun _ => .inl) ⟨rfl, rfl⟩
  | recycle p =>
    obtain rfl := Except.ok.inj hexec
    refine silent (hstays.mute h (fun _ => ?_) ⟨rfl, rfl⟩)
    exact h.retains hstays.later (fun _ hq => List.mem_of_mem_erase hq) fun _ => .inl

/-- What a step of an honest node says. -/
theorem step_said {a : NetAction} (h : σ.io.Wired tidy) (hattends : σ.Attends) (hbound : σ.Bound)
    (honest : a.Honest) (hstep : σ.Permitted host a τ) (htidy : tidy → σ.Tidy a) :
    ∃ sent calls, Speaks tidy σ sent calls τ ∧ Said host σ τ sent calls := by
  obtain ⟨hhead, hexec, hcontract⟩ := hstep
  have silent (hspeaks : Speaks tidy σ [] [] τ) :
      ∃ sent calls, Speaks tidy σ sent calls τ ∧ Said host σ τ sent calls :=
    ⟨[], [], hspeaks, .plain (by simp)⟩
  cases a with
  | io a =>
    cases io_step ⟨hhead, hexec, hcontract⟩ with
    | close hclose => exact silent (close_speaks h hclose)
    | notify hqueue hexec' =>
      obtain ⟨sent, hspeaks, hgreets, -⟩ :=
        notify_speaks h (hqueue ▸ .refl _) (hqueue ▸ List.sublist_cons_self ..) hexec'
      exact ⟨sent, [], hspeaks, .greets hgreets⟩
    | msg hqueue hexec' => exact msg_said h hattends hbound hqueue hexec'
    | quiet hclose hdispatch hio hτ =>
      subst hτ
      obtain ⟨sent, hspeaks, hplain⟩ := io_speaks h honest hio hcontract htidy hclose hdispatch
      exact ⟨sent, [], hspeaks, .plain hplain⟩
  | onInit =>
    obtain rfl := Except.ok.inj hexec
    have hping : Speaks tidy σ [] [] { σ with io := σ.io.bindPacketHandler Ping pingHandler } :=
      bindPacketHandler_speaks h (fun _ => rfl) (by decide)
    exact silent (hping.trans (bindPacketHandler_speaks (bindPacketHandler_stays h).wired
      (by decide) fun _ => rfl))
  | setupNode code type port p info key answer =>
    obtain ⟨⟨uid, σ'⟩, hsetup, hτ⟩ := of_bind_ok hexec
    obtain rfl := Except.ok.inj hτ
    obtain ⟨hmade, hfresh, hanswer⟩ := hcontract
    exact silent (setupNode_speaks h hmade ⟨hfresh, htidy⟩ hanswer hsetup)
  | connectNode code type address p key =>
    obtain rfl := Except.ok.inj hexec
    exact silent (connectNode_speaks h hcontract.1 ⟨hcontract.2, htidy⟩)
  | confirm uid polled =>
    obtain ⟨⟨confirmed, σ'⟩, hconfirm, hτ⟩ := of_bind_ok hexec
    obtain rfl := Except.ok.inj hτ
    obtain ⟨sent, hspeaks, hgreets, -⟩ := confirm_speaks h hconfirm
    exact ⟨sent, [], hspeaks, .greets hgreets⟩
  | reconnect code key =>
    obtain rfl := Except.ok.inj hexec
    exact silent (reconnectNode_speaks h ⟨hcontract, htidy⟩)

end NetEngine

end ZlNet.Engine
