import ZlNet.Engine.Proof.NodeLoop

/-! The identity of a node.  It is the uid of the listener that the node was set up with, for as long
as that is in the table.  When the network shuts a listener, though, the engine tells its users with
`onListen`, and the node keeps the uid of a listener that has gone. -/

namespace ZlNet.Engine

open Network Lib Lib.Bytes

namespace IOEngine

variable {L μ : Type} {tidy : Prop} {σ io : IOEngine L μ} {p : ProtocolId} {uid : UInt32}

/-- A listener is known by `uid`, and is available. -/
def Listens (σ : IOEngine L μ) (uid : UInt32) : Prop :=
  ∃ q, σ.protocols uid = some q ∧ (σ.protocol q).available = true ∧ (σ.protocol q).type = .LISTENER

/-- A listener goes on while it stays in the table. -/
theorem Wired.listens (h : σ.Wired tidy) (hlater : σ.connections.Later io.connections)
    (hkeeps : ∀ q, σ.protocols uid = some q → (σ.protocol q).available = true →
      (σ.protocol q).type = .LISTENER → io.connections.Known q ∧ (io.protocol q).available = true)
    (hlistens : σ.Listens uid) : io.Listens uid := by
  obtain ⟨q, hfound, havail, htype⟩ := hlistens
  obtain ⟨hheld, huid⟩ : q ∈ σ.outstanding ∧ (σ.protocol q).key = uid := h.sound.entry uid q hfound
  obtain ⟨hkey, hsame⟩ : (io.protocol q).key = (σ.protocol q).key ∧
    (io.protocol q).type = (σ.protocol q).type := hlater.keys q (h.sound.owned q hheld)
  obtain ⟨hknown, havail'⟩ := hkeeps q hfound havail htype
  have hknown : io.protocols (io.protocol q).key = some q := hknown
  rw [hkey, huid] at hknown
  exact ⟨q, hknown, havail', hsame.trans htype⟩

theorem Listens.calm (hlistens : σ.Listens uid) (h : σ.Wired tidy)
    (hlater : σ.connections.Later io.connections) (hcalm : σ.connections.Calm io.connections) :
    io.Listens uid := by
  refine h.listens hlater (fun q hfound havail _ => ?_) hlistens
  obtain ⟨hknown, havail'⟩ := hcalm q (h.sound.known_of_found hfound)
  exact ⟨hknown, havail' havail⟩

/-- What leaves the table is not the listener. -/
theorem Listens.drops (hlistens : σ.Listens uid) (h : σ.Wired tidy)
    (hlater : σ.connections.Later io.connections) (hdrops : σ.connections.Drops p io.connections)
    (hother : (σ.protocol p).key = uid → (σ.protocol p).available = true →
      (σ.protocol p).type ≠ .LISTENER) : io.Listens uid := by
  refine h.listens hlater (fun q hfound havail htype => ?_) hlistens
  have hne : q ≠ p := by
    rintro rfl
    exact hother (h.sound.entry uid q hfound).2 havail htype
  obtain ⟨hknown, havail'⟩ := hdrops.2 q hne (h.sound.known_of_found hfound)
  exact ⟨hknown, havail' havail⟩

theorem Listens.same (hlistens : σ.Listens uid) (hconn : io.connections = σ.connections) :
    io.Listens uid := by
  have hprotocols : io.protocols = σ.protocols := congrArg Connections.protocols hconn
  have hprotocol : io.protocol = σ.protocol := congrArg Connections.protocol hconn
  rw [Listens, hprotocols, hprotocol]
  exact hlistens

end IOEngine

namespace NetEngine

variable {L : Type} {tidy : Prop} {σ τ : NetEngine L} {io : IOEngine L SerializeMessage} {p : ProtocolId}
  {uid : UInt32} {n : IONotify}

/-- If the node has a uid, a listener is known by it. -/
def Identified (σ : NetEngine L) : Prop := σ.nodeUid ≠ 0 → σ.io.Listens σ.nodeUid

theorem Identified.zero (hzero : σ.nodeUid = 0) : σ.Identified := fun hne => absurd hzero hne

theorem Identified.next (hid : σ.Identified) (hsame : τ.nodeUid = σ.nodeUid)
    (hlistens : σ.io.Listens σ.nodeUid → τ.io.Listens σ.nodeUid) : τ.Identified := by
  intro hne
  rw [hsame] at hne ⊢
  exact hlistens (hid hne)

/-! ### Connections that go -/

theorem removePeer_nodeUid : (σ.removePeer p uid).nodeUid = σ.nodeUid := by
  unfold removePeer
  split
  · rfl
  · rfl

theorem onClose_nodeUid : (σ.onClose p uid).nodeUid = σ.nodeUid := removePeer_nodeUid

theorem onDisconnect_nodeUid : (σ.onDisconnect p uid).nodeUid = σ.nodeUid := by
  unfold onDisconnect
  split
  · exact removePeer_nodeUid
  · exact removePeer_nodeUid

/-- A listener that is closed takes the identity with it. -/
theorem onUnlisten_identified (hother : uid ≠ σ.nodeUid → σ.Identified) :
    (σ.onUnlisten uid).Identified := by
  unfold onUnlisten
  split
  · exact .zero rfl
  · next hne => exact hother hne

/-- A connection that ends takes the identity with it only if its listener is available and its users
are told that it was shut. -/
theorem Ended.identified {calls : List Upcall} (h : σ.io.Wired tidy) (hid : σ.Identified)
    (hended : Ended tidy σ.io p io) (hends : Ends (σ.io.protocol p) calls)
    (htold : (σ.io.protocol p).key = σ.nodeUid → (σ.io.protocol p).available = true →
      (σ.io.protocol p).type = .LISTENER → calls = [.onUnlisten σ.nodeUid]) :
    ((calls.map (p, ·)).foldl gone { σ with io }).Identified := by
  have hlistens (hother : (σ.io.protocol p).key = σ.nodeUid → (σ.io.protocol p).available = true →
      (σ.io.protocol p).type ≠ .LISTENER) : σ.io.Listens σ.nodeUid → io.Listens σ.nodeUid :=
    fun hlistens => hlistens.drops h hended.later hended.drops hother
  cases hends with
  | quiet havail =>
    exact hid.next rfl (hlistens fun _ havail' => absurd (havail.symm.trans havail') Bool.false_ne_true)
  | @unlisten _ uid =>
    refine onUnlisten_identified fun hne => hid.next rfl (hlistens fun hkey havail htype => hne ?_)
    simpa using htold hkey havail htype
  | listen =>
    refine hid.next rfl (hlistens fun hkey havail htype => ?_)
    simpa using htold hkey havail htype
  | session _ htype =>
    refine hid.next onClose_nodeUid ?_
    simp only [List.map_cons, List.map_nil, List.foldl_cons, List.foldl_nil, gone_io]
    exact hlistens fun _ _ => by simp [htype]
  | connector _ htype =>
    refine hid.next onDisconnect_nodeUid ?_
    simp only [List.map_cons, List.map_nil, List.foldl_cons, List.foldl_nil, gone_io]
    exact hlistens fun _ _ => by simp [htype]

theorem close_identified (h : σ.io.Wired tidy) (hid : σ.Identified) (hclose : σ.close uid = .ok τ) :
    τ.Identified := by
  rcases close_ended h hclose with rfl | ⟨io, p, calls, -, -, huid, hcalls, hended, rfl⟩
  · exact hid
  refine hended.identified h hid hcalls.ends fun hkey havail htype => ?_
  cases hcalls with
  | quiet hquiet => exact absurd (hquiet.symm.trans havail) Bool.false_ne_true
  | listener => rw [hkey]
  | session _ hsession => simp [hsession] at htype
  | connector _ hconnector => simp [hconnector] at htype

/-! ### Notifications -/

section

variable [IntrusiveNode L] {host : Endian}

theorem send_identified (hid : σ.Identified) {packet : IOPacket SerializeMessage}
    (hsend : σ.send packet = .ok τ) : τ.Identified := by
  obtain ⟨io, hio, hτ⟩ := of_bind_ok hsend
  obtain rfl := Except.ok.inj hτ
  exact hid.next rfl fun hlistens => hlistens.same (IOEngine.send_connections hio)

omit [IntrusiveNode L] in
theorem onAccept_identified (h : σ.io.Wired tidy) (hid : σ.Identified) {fromUid : UInt32}
    (haccept : σ.onAccept uid fromUid = .ok τ) : τ.Identified := by
  rcases onAccept_cases haccept with ⟨rfl, -⟩ | ⟨-, ⟨-, hclose⟩ | rfl⟩
  · exact hid
  · exact close_identified h hid hclose
  · exact hid

theorem onConnect_identified (hid : σ.Identified) {success : Bool}
    (hconnect : σ.onConnect host uid success = .ok τ) : τ.Identified := by
  rcases onConnect_cases hconnect with rfl | ⟨k, msg, -, hsend⟩
  · exact hid
  · exact send_identified hid hsend

/-- A notification, from any place in the queue, keeps the identity, unless it tells that a listener
was shut that is available. -/
theorem notify_identified (h : σ.io.Wired tidy) (hid : σ.Identified)
    {queue : List (Packet SerializeMessage)} (hperm : σ.io.msgqueue.Perm (.notify n :: queue))
    (hsub : queue.Sublist σ.io.msgqueue)
    (hspared : n.type = .PacketUnlisten → σ.io.isAvailable n.uid = false)
    (hexec : { σ with io := { σ.io with msgqueue := queue } }.dispatchIOPacket host (.notify n) =
      .ok τ) : τ.Identified := by
  have hstill {io : IOEngine L SerializeMessage} (hstays : Stays tidy σ.io io) : { σ with io }.Identified :=
    hid.next rfl fun hlistens => hlistens.calm h hstays.later hstays.calm
  obtain ⟨io, -, -, hnotified⟩ := notify_notified h hperm hsub hexec
  cases hnotified with
  | stays hstays => exact hstill hstays
  | ended hended hends _ hlistener =>
    refine hended.identified h hid hends fun _ havail htype => ?_
    obtain ⟨hunlisten, hfound⟩ := hlistener htype
    have hquiet := hspared hunlisten
    rw [IOEngine.isAvailable, IOEngine.getProtocol, hfound] at hquiet
    exact absurd (havail.symm.trans hquiet) Bool.false_ne_true.symm
  | accepted hstays _ _ _ haccept => exact onAccept_identified hstays.wired (hstill hstays) haccept
  | connected _ hstays hconnect => exact onConnect_identified (hstill hstays) hconnect

/-! ### Packets of data -/

theorem handlerNodePing_identified (h : σ.io.Wired tidy) (hid : σ.Identified)
    {packet : IOPacket SerializeMessage} (hping : σ.handlerNodePing host p packet = .ok τ) :
    τ.Identified := by
  rcases handlerNodePing_cases hping with ⟨hclose, -⟩ | ⟨_, _, io, -, -, -, -, hsend, rfl⟩
  · exact close_identified h hid hclose
  · exact (send_identified hid hsend).next rfl id

omit [IntrusiveNode L] in
theorem handlerNodePong_identified (h : σ.io.Wired tidy) (hid : σ.Identified)
    {packet : IOPacket SerializeMessage} (hpong : σ.handlerNodePong host p packet = .ok τ) :
    τ.Identified := by
  rcases handlerNodePong_cases hpong with ⟨hclose | hclose, -⟩ | ⟨_, k, -, -, -, -, -, rfl⟩
  · exact close_identified h hid hclose
  · exact close_identified (σ := σ.unaccpeted packet.uid) h hid hclose
  · exact hid

theorem handle_identified (h : σ.io.Wired tidy) (hid : σ.Identified)
    {call : Nat × IOPacket SerializeMessage} (hhandle : σ.handle host call = .ok τ) :
    τ.Identified := by
  obtain ⟨rfl, -⟩ | ⟨p, -, ⟨-, hping⟩ | ⟨-, hpong⟩⟩ := handle_cases hhandle
  · exact hid
  · exact handlerNodePing_identified h hid hping
  · exact handlerNodePong_identified h hid hpong

/-- A packet of data. -/
theorem msg_identified (h : σ.io.Wired tidy) (hid : σ.Identified)
    {queue : List (Packet SerializeMessage)} {packet : IOPacket SerializeMessage}
    (hqueue : σ.io.msgqueue = .msg packet :: queue)
    (hexec : { σ with io := { σ.io with msgqueue := queue } }.dispatchIOPacket host (.msg packet) =
      .ok τ) : τ.Identified := by
  obtain ⟨io, -, hstays, -, hconn, hτ⟩ := msg_cases h hqueue hexec
  have hid' : { σ with io }.Identified := hid.next rfl fun hlistens => hlistens.same hconn
  rcases hτ with rfl | ⟨-, handler, -, hhandle⟩
  · exact hid'
  · exact handle_identified hstays.wired hid' hhandle

/-! ### Confirmed nodes -/

omit [IntrusiveNode L] in
/-- What is taken out of the table because it was not confirmed is no listener that is available. -/
theorem unconfirmed_identified (hid : σ.Identified)
    (hquiet : ∀ q, σ.io.protocols uid = some q → (σ.io.protocol q).available = false) :
    { σ with io := (σ.io.removeProtocol uid).pushEvent (.close uid) }.Identified := by
  refine hid.next rfl ?_
  rintro ⟨q, hfound, havail, htype⟩
  have hne : σ.nodeUid ≠ uid := by
    rintro rfl
    exact absurd (havail.symm.trans (hquiet q hfound)) Bool.false_ne_true.symm
  exact ⟨q, (Function.update_of_ne hne ..).trans hfound, havail, htype⟩

theorem pollOnePacket_identified (h : σ.io.Wired tidy) (hid : σ.Identified) {polled : Option IONotify}
    (hfound : σ.io.protocols uid = some p) (hquiet : (σ.io.protocol p).available = false)
    (hpoll : σ.pollOnePacket host p polled = .ok τ) : τ.Identified := by
  unfold pollOnePacket at hpoll
  split at hpoll
  · obtain rfl := Except.ok.inj hpoll
    exact hid
  next n =>
  split at hpoll
  case isFalse =>
    obtain rfl := Except.ok.inj hpoll
    exact hid
  next hcond =>
  obtain ⟨rfl, hmem⟩ := hcond
  refine notify_identified h hid (List.perm_cons_erase hmem) List.erase_sublist (fun _ => ?_) hpoll
  have huid : n.uid = (σ.io.protocol n.protocol).key :=
    (h.sound.notice n (List.mem_filterMap.mpr ⟨_, hmem, rfl⟩)).2.1
  have hkey : (σ.io.protocol n.protocol).key = uid := (h.sound.entry uid _ hfound).2
  rw [IOEngine.isAvailable, IOEngine.getProtocol, huid, hkey, hfound]
  exact hquiet

theorem confirm_identified (h : σ.io.Wired tidy) (hid : σ.Identified) {polled : Option IONotify}
    {confirmed : Bool} (hconfirm : σ.confirm host uid polled = .ok (confirmed, τ)) :
    τ.Identified := by
  obtain rfl | ⟨p, σ', hfound, hquiet, hpoll, hτ⟩ := confirm_cases hconfirm
  · exact hid
  obtain ⟨-, htable, -⟩ := (pollOnePacket_cases h hfound hquiet hpoll : Moves False tidy _ _ ∧ _)
  have hid' := pollOnePacket_identified h hid hfound hquiet hpoll
  obtain rfl | ⟨havail, rfl⟩ := hτ
  · exact hid'
  refine unconfirmed_identified hid' fun q hq => ?_
  rcases htable with hknown | hnone
  · obtain rfl := Option.some.inj (hknown.symm.trans hq)
    exact havail
  · simp [hnone] at hq

/-- A listener that is available once a notification was polled is known. -/
theorem pollOnePacket_listens (h : σ.io.Wired tidy) {polled : Option IONotify}
    (hfound : σ.io.protocols uid = some p) (hquiet : (σ.io.protocol p).available = false)
    (hlistener : (σ.io.protocol p).type = .LISTENER)
    (hpoll : σ.pollOnePacket host p polled = .ok τ)
    (havail : (τ.io.protocol p).available = true) :
    τ.io.Listens uid ∧ τ.nodeUid = σ.nodeUid := by
  unfold pollOnePacket at hpoll
  split at hpoll
  · obtain rfl := Except.ok.inj hpoll
    exact absurd (havail.symm.trans hquiet) Bool.false_ne_true.symm
  next n =>
  split at hpoll
  case isFalse =>
    obtain rfl := Except.ok.inj hpoll
    exact absurd (havail.symm.trans hquiet) Bool.false_ne_true.symm
  next hcond =>
  obtain ⟨rfl, hmem⟩ := hcond
  obtain ⟨io, -, hpopped, hhandled, -, -, hcalled⟩ :=
    notify_cases h (List.perm_cons_erase hmem) List.erase_sublist hpoll
  have hkey : (σ.io.protocol n.protocol).key = uid := (h.sound.entry uid _ hfound).2
  generalize hconn : io.connections = c' at hhandled
  cases hhandled with
  | ignored =>
    have hupcalls : io.upcalls = σ.io.upcalls := (congrArg Connections.upcalls hconn :)
    rw [called_none hupcalls] at hcalled
    obtain rfl := Except.ok.inj hcalled
    have hprotocol : io.protocol = σ.io.protocol := (congrArg Connections.protocol hconn :)
    have havail : (io.protocol n.protocol).available = true := havail
    rw [hprotocol] at havail
    exact absurd (havail.symm.trans hquiet) Bool.false_ne_true.symm
  | listened =>
    rw [called_eq (congrArg Connections.upcalls hconn :)] at hcalled
    obtain rfl := Except.ok.inj hcalled
    refine ⟨⟨n.protocol, ?_, havail, ?_⟩, rfl⟩
    · rw [← hkey]
      refine (congrFun (congrArg Connections.protocols hconn) _ :).trans ?_
      exact Function.update_self ..
    · refine (congrArg Protocol.type (congrFun (congrArg Connections.protocol hconn) _) :).trans ?_
      exact Connections.touch_type.trans hlistener
  | unlistened =>
    rw [called_eq (congrArg Connections.upcalls hconn :)] at hcalled
    obtain rfl := Except.ok.inj hcalled
    have hgone : (io.protocol n.protocol).available = false :=
      (congrArg Protocol.available (congrFun (congrArg Connections.protocol hconn) _) :).trans
        Connections.touch_available
    exact absurd (havail.symm.trans hgone) Bool.false_ne_true.symm
  | accepted htype =>
    have hsession : (σ.io.protocol n.protocol).type = .SESSION := hpopped.session htype
    simp [hlistener] at hsession
  | closed htype =>
    have hsession : (σ.io.protocol n.protocol).type = .SESSION := hpopped.type (by rw [htype]; rfl)
    simp [hlistener] at hsession
  | connected htype | disconnected htype =>
    have hconnector : (σ.io.protocol n.protocol).type = .CONNECTOR :=
      hpopped.type (by rw [htype]; rfl)
    simp [hlistener] at hconnector

/-- A listener that was just opened and is confirmed. -/
theorem confirm_listens (h : σ.io.Wired tidy) {polled : Option IONotify}
    (hfound : σ.io.protocols uid = some p) (hquiet : (σ.io.protocol p).available = false)
    (hlistener : (σ.io.protocol p).type = .LISTENER)
    (hconfirm : σ.confirm host uid polled = .ok (true, τ)) :
    τ.io.Listens uid ∧ τ.nodeUid = σ.nodeUid := by
  simp only [confirm, IOEngine.getProtocol, hfound, hquiet, Bool.false_eq_true, if_false] at hconfirm
  obtain ⟨σ', hpoll, hconfirm⟩ := of_bind_ok hconfirm
  split at hconfirm
  · next havail =>
    cases hconfirm
    exact pollOnePacket_listens h hfound hquiet hlistener hpoll havail
  · cases hconfirm

theorem setupNode_identified {code type key uid : UInt32} {port : UInt16} {info : List UInt8}
    {answer : Option IONotify} (h : σ.io.Wired tidy) (hid : σ.Identified) (hmade : p < σ.io.created)
    (hfresh : σ.io.Fresh tidy key)
    (hanswer : ∀ n, answer = some n →
      n.protocol = p ∧ n.uid = key ∧ n.type.about = some .LISTENER)
    (hsetup : σ.setupNode host code type port p info key answer = .ok (uid, τ)) :
    τ.Identified := by
  rcases setupNode_cases h hmade hfresh hanswer hsetup with
    rfl | rfl | ⟨confirmed, σ', hopened, hstays, hconfirm, rfl⟩
  · exact hid
  · exact .zero rfl
  cases confirmed with
  | false => exact .zero rfl
  | true =>
    have hlistens : σ'.io.Listens key ∧
        σ'.nodeUid = ((σ.listening code type port p info key).answered answer).nodeUid := by
      refine confirm_listens (p := p) hstays.wired ?_ ?_ ?_ hconfirm
      · rw [answered_protocols]
        exact hopened.known
      · rw [answered_protocol]
        exact hopened.quiet
      · rw [answered_protocol]
        exact hopened.typed
    have huid : σ'.nodeUid = key := by
      rw [hlistens.2]
      cases answer with
      | none => rfl
      | some n => rfl
    rw [if_pos rfl, Identified, huid]
    exact fun _ => hlistens.1

/-! ### Steps -/

omit [IntrusiveNode L] in
theorem Identified.stays (hid : σ.Identified) (h : σ.io.Wired tidy) (hstays : Stays tidy σ.io τ.io)
    (hsame : τ.nodeUid = σ.nodeUid) : τ.Identified :=
  hid.next hsame fun hlistens => hlistens.calm h hstays.later hstays.calm

omit [IntrusiveNode L] in
theorem connect_stays (h : σ.io.Wired tidy) {address : CAddress} {key : UInt32}
    (hmade : p < σ.io.created) (hfresh : σ.io.Fresh tidy key) :
    Stays tidy σ.io (σ.io.connect address p key) := by
  rcases IOEngine.open_cases h hmade hfresh (.inr rfl) (.connect address p) rfl with
    ⟨-, hsame⟩ | hopened
  · rw [show σ.io.connect address p key = σ.io from hsame]
    exact .same h rfl fun _ hpacket => .inl hpacket
  · exact ⟨hopened.wired, hopened.later, hopened.calm⟩

omit [IntrusiveNode L] in
theorem connectNode_identified (h : σ.io.Wired tidy) (hid : σ.Identified) {code type key : UInt32}
    {address : CAddress} (hmade : p < σ.io.created) (hfresh : σ.io.Fresh tidy key) :
    (σ.connectNode code type address p key).2.Identified := by
  unfold connectNode
  split
  · exact hid
  have hstays : Stays tidy σ.io (σ.io.connect address p key) := connect_stays h hmade hfresh
  dsimp only
  split
  · exact hid.stays h hstays rfl
  · exact hid.stays h hstays rfl

omit [IntrusiveNode L] in
theorem reconnectNode_identified (h : σ.io.Wired tidy) (hid : σ.Identified) {code key : UInt32}
    (hfresh : σ.io.Fresh tidy key) : (σ.reconnectNode code key).Identified := by
  unfold reconnectNode
  split
  · exact hid
  next k _ =>
  unfold reconnect
  split
  · exact hid
  let created : NetEngine L := { σ with io := σ.io.create }
  have hstays : Stays tidy σ.io created.io := create_stays h
  have hcreated : created.Identified := hid.stays h hstays rfl
  have hconnect : Stays tidy created.io (created.io.connect (σ.node k).address σ.io.created key) :=
    connect_stays hstays.wired (Nat.lt_succ_self _) (fresh_create hfresh h)
  dsimp only
  split
  · exact hcreated.stays hstays.wired hconnect rfl
  · exact hcreated.stays hstays.wired hconnect rfl

/-- The step does not handle that a listener was shut which is available. -/
def Spared (σ : NetEngine L) (a : NetAction) : Prop :=
  ∀ n, a = .io (.dispatch (.notify n)) → n.type = .PacketUnlisten → σ.io.isAvailable n.uid = false

theorem step_identified {a : NetAction} (h : σ.io.Wired False) (hid : σ.Identified)
    (hstep : σ.Permitted host a τ) (hspared : σ.Spared a) : τ.Identified := by
  obtain ⟨hhead, hexec, hcontract⟩ := hstep
  cases a with
  | io a =>
    cases io_step ⟨hhead, hexec, hcontract⟩ with
    | close hclose => exact close_identified h hid hclose
    | @notify n _ hqueue hexec' =>
      exact notify_identified h hid (hqueue ▸ .refl _) (hqueue ▸ List.sublist_cons_self ..)
        (hspared n rfl) hexec'
    | msg hqueue hexec' => exact msg_identified h hid hqueue hexec'
    | quiet hclose hdispatch hio hτ =>
      subst hτ
      exact hid.stays h (io_stays h hio hcontract False.elim hclose hdispatch) rfl
  | onInit =>
    obtain rfl := Except.ok.inj hexec
    exact hid.stays h (onInit_stays h) rfl
  | setupNode code type port p info key answer =>
    obtain ⟨⟨uid, σ'⟩, hsetup, hτ⟩ := of_bind_ok hexec
    obtain rfl := Except.ok.inj hτ
    obtain ⟨hmade, hfresh, hanswer⟩ := hcontract
    exact setupNode_identified h hid hmade ⟨hfresh, False.elim⟩ hanswer hsetup
  | connectNode code type address p key =>
    obtain rfl := Except.ok.inj hexec
    exact connectNode_identified h hid hcontract.1 ⟨hcontract.2, False.elim⟩
  | confirm uid polled =>
    obtain ⟨⟨confirmed, σ'⟩, hconfirm, hτ⟩ := of_bind_ok hexec
    obtain rfl := Except.ok.inj hτ
    exact confirm_identified h hid hconfirm
  | reconnect code key =>
    obtain rfl := Except.ok.inj hexec
    exact reconnectNode_identified h hid ⟨hcontract, False.elim⟩

/-- If the step handles that a listener was shut which is available, its users are told once that
they do not listen any more, and not that they do. -/
def Unlistened (σ : NetEngine L) (a : NetAction) (τ : NetEngine L) : Prop :=
  ∀ n p, a = .io (.dispatch (.notify n)) → n.type = .PacketUnlisten →
    σ.io.protocols n.uid = some p → (σ.io.protocol p).available = true →
    ∃ calls, τ.io.upcalls = σ.io.upcalls ++ calls ∧ calls.count (p, .onUnlisten n.uid) = 1 ∧
      ∀ success, (p, .onListen n.uid success) ∉ calls

/-- The uid of the node is the key of a protocol in the table. -/
def Keyed (σ : NetEngine L) : Prop :=
  σ.nodeUid ≠ 0 → ∃ p, σ.io.protocols σ.nodeUid = some p ∧ (σ.io.protocol p).key = σ.nodeUid

omit [IntrusiveNode L] in
theorem Identified.keyed (hid : σ.Identified) (h : σ.io.Wired tidy) : σ.Keyed := by
  intro hne
  obtain ⟨p, hfound, -⟩ := hid hne
  exact ⟨p, hfound, (h.sound.entry _ p hfound).2⟩

/-- What users are told when a listener was shut. -/
theorem unlisten_upcalls (h : σ.io.Wired tidy) {queue : List (Packet SerializeMessage)}
    (hqueue : σ.io.msgqueue = .notify n :: queue) (htype : n.type = .PacketUnlisten)
    (hfound : σ.io.protocols n.uid = some p) (havail : (σ.io.protocol p).available = true)
    (hexec : { σ with io := { σ.io with msgqueue := queue } }.dispatchIOPacket host (.notify n) =
      .ok τ) : τ.io.upcalls = σ.io.upcalls ++ [(p, .onListen n.uid n.success)] := by
  obtain ⟨io, hio, -, -, -, -, hcalled⟩ :=
    notify_cases h (hqueue ▸ .refl _) (hqueue ▸ List.sublist_cons_self ..) hexec
  simp only [IOEngine.dispatchIOPacket, htype, IOEngine.onIOUnListen, IOEngine.getProtocol, hfound,
    havail, Bool.not_true, Bool.false_eq_true, if_false] at hio
  have hio := Except.ok.inj hio
  have hupcalls : io.upcalls =
      σ.io.upcalls ++ [Upcall.onListen n.uid n.success].map (p, ·) := by
    rw [← hio]
    rfl
  rw [called_eq hupcalls] at hcalled
  obtain rfl := Except.ok.inj hcalled
  exact hupcalls

theorem unlistened_iff {a : NetAction} (h : σ.io.Wired tidy) (hstep : σ.Permitted host a τ) :
    σ.Unlistened a τ ↔ σ.Spared a := by
  obtain ⟨hhead, hexec, -⟩ := hstep
  constructor
  · rintro htold n rfl htype
    by_contra havail
    have havail : σ.io.isAvailable n.uid = true := by simpa using havail
    obtain ⟨p, hfound, havail⟩ : ∃ p, σ.io.protocols n.uid = some p ∧
        (σ.io.protocol p).available = true := by
      rw [IOEngine.isAvailable, IOEngine.getProtocol] at havail
      cases hfound : σ.io.protocols n.uid with
      | none => simp [hfound] at havail
      | some p => exact ⟨p, rfl, by simpa [hfound] using havail⟩
    obtain ⟨calls, hcalls, hone, -⟩ := htold n p rfl htype hfound havail
    obtain ⟨queue, hqueue⟩ := List.head?_eq_some_iff.mp (hhead (.notify n) rfl)
    simp only [exec, hqueue, List.tail_cons] at hexec
    rw [unlisten_upcalls h hqueue htype hfound havail hexec, List.append_cancel_left_eq] at hcalls
    rw [← hcalls] at hone
    simp at hone
  · rintro hspared n p rfl htype hfound havail
    have hquiet := hspared n rfl htype
    rw [IOEngine.isAvailable, IOEngine.getProtocol, hfound] at hquiet
    exact absurd (havail.symm.trans hquiet) Bool.false_ne_true.symm

/-- In exactly those runs that handle the end of no available listener, users are told of the end of
each, and the uid of the node is always the key of a protocol in the table. -/
theorem unlistened_run_iff {as : List NetAction} :
    Run (fun σ a τ => Permitted host σ a τ ∧ σ.Unlistened a τ ∧ τ.Keyed) (init : NetEngine L) as σ ↔
      Run (fun σ a τ => Permitted host σ a τ ∧ σ.Spared a) init as σ := by
  have wired {σ τ : NetEngine L} {a : NetAction} (h : σ.io.Wired False)
      (hstep : σ.Permitted host a τ) : τ.io.Wired False :=
    (step_moves h hstep False.elim False.elim : Moves False False _ _).wired
  refine Run.iff_of_inv (fun σ => σ.io.Wired False ∧ σ.Identified) ?_ ?_ ⟨wired_init, .zero rfl⟩
  · rintro σ a τ ⟨h, hid⟩
    refine and_congr_right fun hstep => ⟨fun htold => (unlistened_iff h hstep).mp htold.1, ?_⟩
    intro hspared
    have hid' := step_identified h hid hstep hspared
    exact ⟨(unlistened_iff h hstep).mpr hspared, hid'.keyed (wired h hstep)⟩
  · rintro σ a τ ⟨h, hid⟩ ⟨hstep, htold, -⟩
    exact ⟨wired h hstep, step_identified h hid hstep ((unlistened_iff h hstep).mp htold)⟩

theorem keyed_run {as : List NetAction}
    (run : Run (fun σ a τ => Permitted host σ a τ ∧ σ.Unlistened a τ ∧ τ.Keyed)
      (init : NetEngine L) as σ) : σ.Keyed := by
  cases run with
  | nil => exact fun hne => absurd rfl hne
  | snoc _ hlast => exact hlast.2.2

/-- A node is set up, and the network shuts its listener. -/
def shutActions : List NetAction :=
  [.io .create, .setupNode 1 1 80 0 [] 1 (some ⟨.PacketListen, 1, 0, none, true⟩),
    .io (.post (.notify ⟨.PacketUnlisten, 1, 0, none, false⟩)),
    .io (.dispatch (.notify ⟨.PacketUnlisten, 1, 0, none, false⟩))]

def shut : NetEngine (List HandlerId) :=
  let _ := IntrusiveNode.list
  shutActions.foldl (next .little) init

/-- The node still has the uid of the listener that has gone, and users were told twice that they
listen. -/
theorem unlistened_as_listened :
    @Run _ _ (@Permitted _ .list .little) (@init _ .list) shutActions shut ∧
      shut.nodeUid = 1 ∧ shut.io.protocols 1 = none ∧
      shut.io.upcalls = [(0, .onListen 1 true), (0, .onListen 1 false)] ∧
      ¬@Run _ _ (fun σ a τ => @Permitted _ .list .little σ a τ ∧ σ.Unlistened a τ ∧ τ.Keyed)
        (@init _ .list) shutActions shut := by
  let _ := IntrusiveNode.list
  have hallowed : Allowed .little (fun _ _ => True) (init : NetEngine (List HandlerId))
      shutActions := by
    refine ⟨nofun, by decide +kernel, ⟨trivial, trivial⟩, trivial,
      nofun, by decide +kernel,
        ⟨by decide +kernel, .inr (by decide +kernel), by rintro n ⟨⟩; decide⟩, trivial,
      nofun, by decide +kernel,
        ⟨⟨by decide +kernel, by decide +kernel, by decide +kernel⟩, trivial⟩, trivial,
      by rintro _ ⟨⟩; decide +kernel, by decide +kernel, ⟨trivial, trivial⟩, trivial, trivial⟩
  refine ⟨permitted_of_allowed hallowed, by decide +kernel, by decide +kernel, by decide +kernel,
    fun run => ?_⟩
  obtain ⟨p, hfound, -⟩ := keyed_run run (by decide +kernel)
  have hnone : shut.io.protocols shut.nodeUid = none := by decide +kernel
  simp [hnone] at hfound

end

end NetEngine

end ZlNet.Engine
