import ZlNet.Engine.Proof.Moves

/-! The steps of a node are moves, in whatever order users, the network and the timer make them. -/

namespace ZlNet.Engine

open Network Lib Lib.Bytes

namespace IOEngine

variable {L μ : Type} {tidy : Prop} {σ io : IOEngine L μ} {p : ProtocolId} {key : UInt32}
  {type : EIOOBJECT_TYPE}

/-- A key that can be given, in a `tidy` run only when no packet waits for it. -/
structure Fresh (tidy : Prop) (σ : IOEngine L μ) (key : UInt32) : Prop where
  free : σ.Free key
  spent : tidy → σ.Spent key

/-- `listen` or `connect` has opened `p` with `key`. -/
structure Opened (tidy : Prop) (σ : IOEngine L μ) (p : ProtocolId) (type : EIOOBJECT_TYPE)
    (key : UInt32) (io : IOEngine L μ) : Prop where
  returned : σ.opens p key = key
  nonzero : key ≠ 0
  free : σ.protocols key = none
  wired : io.Wired tidy
  later : σ.connections.Later io.connections
  calm : σ.connections.Calm io.connections
  retains : tidy → σ.Retains io
  known : io.protocols key = some p
  typed : (io.protocol p).type = type
  quiet : (io.protocol p).available = false

theorem open_cases (h : σ.Wired tidy) (hmade : p < σ.created)
    (hfresh : σ.Fresh tidy key) (htype : type = .LISTENER ∨ type = .CONNECTOR) (event : Event μ)
    (hio : io = if (σ.protocol p).key ≠ 0 then σ else if key = 0 then σ
      else σ.takeKey p type key event) :
    σ.opens p key = 0 ∧ io = σ ∨ σ.Opened tidy p type key io := by
  unfold opens
  split at hio
  · next hblank => exact .inl ⟨if_pos hblank, hio⟩
  next hblank =>
  have hblank : (σ.protocol p).key = 0 := not_not.mp hblank
  split at hio
  · next hzero =>
    subst hzero
    exact .inl ⟨by split <;> [rfl; split <;> rfl], hio⟩
  next hkey =>
  have hfree := hfresh.free.resolve_left hkey
  have hnone : σ.protocols key = none := h.sound.free hfree
  have hsession : type ≠ .SESSION := by
    rcases htype with rfl | rfl
    · exact nofun
    · exact nofun
  have hconn : io.connections = (σ.connections.own p type key).touch p false (some p) [] := by
    rw [hio]
    exact takeKey_connections h.sound hblank hfree type event
  obtain ⟨hsound, hlater, hcalm, hknown, hkey', htype'⟩ :=
    h.sound.opened hblank hmade hkey hfree hsession hconn
  have hqueue : io.msgqueue = σ.msgqueue := by
    rw [hio]
    exact (takeKey_keeps p type key event).of_ok rfl |>.2
  have hretains : tidy → σ.Retains io := by
    intro htidy packet hpacket q hq huid
    rw [hqueue] at hpacket
    have hprotocol (hne : q ≠ p) : io.protocol q = σ.protocol q := by
      refine (congrFun (congrArg Connections.protocol hconn) q :).trans ?_
      rw [Connections.touch_protocol_ne hne]
      exact Connections.own_ne hne
    have hheld : io.outstanding = p :: σ.outstanding := (congrArg Connections.outstanding hconn :)
    rw [hheld] at hq
    by_cases hne : q = p
    · subst hne
      have hunused := (hfresh.spent htidy).resolve_left hkey
      exact absurd (huid.symm.trans hkey') (hunused packet hpacket)
    · rw [hprotocol hne] at huid
      exact ⟨hpacket, (List.mem_cons.mp hq).resolve_left hne, huid⟩
  refine .inr ⟨?_, hkey, hnone, h.of_retains hsound hlater hretains, hlater, hcalm, hretains, hknown,
    htype', ?_⟩
  · simp [opens, hblank, hnone]
  · refine (congrArg Protocol.available (congrFun (congrArg Connections.protocol hconn) p) :).trans ?_
    exact Connections.touch_available

end IOEngine

namespace NetEngine

variable {L : Type} {careful tidy : Prop} {σ τ : NetEngine L} {p : ProtocolId} {uid key : UInt32}
  {n : IONotify} {polled : Option IONotify}

theorem Move.later (hmove : Move careful tidy σ τ) : σ.io.connections.Later τ.io.connections := by
  cases hmove with
  | calm _ hlater => exact hlater
  | ended _ hlater =>
    rw [foldl_gone_io]
    exact hlater
  | opened _ hlater => exact hlater
  | listed => exact .refl _
  | registered _ _ _ _ hio => exact hio ▸ .refl _
  | own hio => exact hio ▸ .refl _

theorem Moves.later (h : Moves careful tidy σ τ) : σ.io.connections.Later τ.io.connections := by
  obtain ⟨-, hsteps⟩ := h
  induction hsteps with
  | refl => exact .refl _
  | tail _ hmove ih => exact ih.trans hmove.later

/-! ### New connections -/

/-- A connection with the node `k` is opened. -/
theorem opened_moves {io : IOEngine L SerializeMessage} {k m : NodeId} (h : σ.io.Wired tidy)
    (hopened : σ.io.Opened tidy p .CONNECTOR key io) (hm : m = k ∨ σ.connectingNodes key = some m) :
    Moves careful tidy σ { σ.setNode k { σ.node k with uid := key } with
      io
      connectingNodes := Function.update σ.connectingNodes key (some m) } :=
  .single h (.opened hopened.wired hopened.later hopened.calm hopened.free hopened.known hopened.typed
    hm)

theorem connectNode_moves (h : σ.io.Wired tidy) {code type : UInt32} {address : CAddress}
    (hmade : p < σ.io.created) (hfresh : σ.io.Fresh tidy key) :
    Moves careful tidy σ (σ.connectNode code type address p key).2 := by
  unfold connectNode
  split
  · exact .refl h
  let listed : NetEngine L := { σ.setNode σ.nodes { code, type, address } with
    nodes := σ.nodes + 1
    connetNodes := Function.update σ.connetNodes code (some σ.nodes) }
  have hlisted : Moves careful tidy σ listed := .single h (.listed rfl)
  rcases IOEngine.open_cases h hmade hfresh (.inr rfl) (.connect address p) rfl with
    ⟨hzero, hsame⟩ | hopened
  · have hsame : σ.io.connect address p key = σ.io := hsame
    simp only [hzero, ne_eq, not_true_eq_false, false_and, if_false, hsame]
    exact hlisted
  · have hopened : σ.io.Opened tidy p .CONNECTOR key (σ.io.connect address p key) := hopened
    have hnode : listed.setNode σ.nodes { listed.node σ.nodes with uid := key } =
        { listed with
          node := Function.update σ.node σ.nodes { uid := key, code, type, address } } := by
      simp [listed, setNode]
    have hmoves {m : NodeId} (hm : m = σ.nodes ∨ σ.connectingNodes key = some m) :
        Moves careful tidy σ { listed with
          io := σ.io.connect address p key
          node := Function.update σ.node σ.nodes { uid := key, code, type, address }
          connectingNodes := Function.update σ.connectingNodes key (some m) } := by
      have hopened := hlisted.trans (opened_moves hlisted.wired hopened hm)
      rwa [hnode] at hopened
    simp only [hopened.returned]
    split
    · exact hmoves (.inl rfl)
    next hfound =>
    obtain ⟨m, hm⟩ := Option.ne_none_iff_exists'.mp fun hnone => hfound ⟨hopened.nonzero, hnone⟩
    have hsame : Function.update σ.connectingNodes key (some m) = σ.connectingNodes := by
      rw [← hm]
      exact Function.update_eq_self ..
    have hmoves := hmoves (.inr hm)
    rwa [hsame] at hmoves

theorem create_stays (h : σ.io.Wired tidy) : Stays tidy σ.io σ.io.create := by
  have hconn := IOEngine.create_connections h.sound
  have hprotocols : σ.io.create.protocols = σ.io.protocols := rfl
  have hprotocol : σ.io.create.protocol = σ.io.protocol := (congrArg Connections.protocol hconn :)
  have hlater : σ.io.connections.Later σ.io.create.connections :=
    Connections.same_later hprotocols hprotocol fun _ hn _ => hn
  refine ⟨h.next ?_ hlater (fun _ hp => hp) fun _ hpacket => .inl hpacket, hlater,
    Connections.same_calm hprotocols hprotocol⟩
  rw [hconn]
  exact h.sound.create

/-- A protocol that is made has no key. -/
theorem fresh_create (hfresh : σ.io.Fresh tidy key) (h : σ.io.Wired tidy) :
    σ.io.create.Fresh tidy key := by
  have hprotocol : σ.io.create.protocol = σ.io.protocol :=
    (congrArg Connections.protocol (IOEngine.create_connections h.sound) :)
  refine ⟨?_, hfresh.spent⟩
  rw [IOEngine.Free, hprotocol]
  exact hfresh.free

theorem create_moves (h : σ.io.Wired tidy) : Moves careful tidy σ { σ with io := σ.io.create } :=
  (create_stays h).moves h

theorem reconnect_moves (h : σ.io.Wired tidy) {k : NodeId} (hfresh : σ.io.Fresh tidy key) :
    Moves careful tidy σ (σ.reconnect k key) := by
  unfold reconnect
  split
  · exact .refl h
  next huid =>
  have hcreated : Moves careful tidy σ { σ with io := σ.io.create } := create_moves h
  have hmade : σ.io.created < σ.io.create.created := Nat.lt_succ_self _
  rcases IOEngine.open_cases hcreated.wired hmade (fresh_create hfresh h) (.inr rfl)
    (.connect (σ.node k).address σ.io.created) rfl with ⟨hzero, hsame⟩ | hopened
  · have hsame : σ.io.create.connect (σ.node k).address σ.io.created key = σ.io.create := hsame
    have hnode : Function.update σ.node k { σ.node k with uid := 0 } = σ.node := by
      rw [show { σ.node k with uid := 0 } = σ.node k by rw [← not_not.mp huid]]
      exact Function.update_eq_self ..
    simp only [hzero, ne_eq, not_true_eq_false, if_false, hsame, setNode, hnode]
    exact hcreated
  · have hmoves := hcreated.trans (opened_moves (k := k) hcreated.wired hopened (.inl rfl))
    simp only [hopened.returned, ne_eq, hopened.nonzero, not_false_eq_true, if_true]
    exact hmoves

theorem reconnectNode_moves (h : σ.io.Wired tidy) {code : UInt32} (hfresh : σ.io.Fresh tidy key) :
    Moves careful tidy σ (σ.reconnectNode code key) := by
  unfold reconnectNode
  split
  · exact .refl h
  · exact reconnect_moves h hfresh

/-- The network posts a notification about a protocol that has a key. -/
theorem post_stays (h : σ.io.Wired tidy) (hheld : n.protocol ∈ σ.io.outstanding)
    (huid : n.uid = (σ.io.protocol n.protocol).key)
    (habout : n.type.about = some (σ.io.protocol n.protocol).type) :
    Stays tidy σ.io (σ.io.postPacket (.notify n)) := by
  have hconn := IOEngine.postPacket_connections (σ := σ.io) n
  have haccept : n.type ≠ .PacketAccept := by
    intro haccept
    simp [haccept, EPacketType.about] at habout
  have hlater : σ.io.connections.Later (σ.io.postPacket (.notify n)).connections := by
    refine Connections.same_later rfl rfl fun n' hn' haccept' => ?_
    rw [hconn] at hn'
    rcases List.mem_append.mp hn' with hn' | hn'
    · exact hn'
    · obtain rfl := List.mem_singleton.mp hn'
      exact absurd haccept' haccept
  refine ⟨h.next ?_ hlater (fun _ hp => hp) ?_, hlater, Connections.same_calm rfl rfl⟩
  · rw [hconn]
    exact h.sound.post hheld huid (.inl habout) fun hn => absurd hn haccept
  · intro packet hpacket
    rcases List.mem_append.mp hpacket with hpacket | hpacket
    · exact .inl hpacket
    · cases List.mem_singleton.mp hpacket

/-- The network posts a packet of data that has come from a connection. -/
theorem postMsg_stays {packet : IOPacket SerializeMessage} (h : σ.io.Wired tidy)
    (hsource : ∃ p ∈ σ.io.outstanding,
      (σ.io.protocol p).key = packet.uid ∧ (σ.io.protocol p).type ≠ .LISTENER) :
    Stays tidy σ.io (σ.io.postPacket (.msg packet)) := by
  have hconn := IOEngine.postMsg_connections (σ := σ.io) packet
  refine ⟨⟨hconn ▸ h.sound, fun htidy packet' hpacket q hq huid => ?_⟩, ?_, ?_⟩
  · rcases List.mem_append.mp hpacket with hpacket | hpacket
    · exact h.addressed htidy packet' hpacket q hq huid
    · obtain rfl := Packet.msg.inj (List.mem_singleton.mp hpacket)
      obtain ⟨p, hp, hkey, htype⟩ := hsource
      obtain rfl := h.sound.unique q hq p hp (huid.trans hkey.symm)
      exact htype
  · rw [hconn]
    exact .refl _
  · rw [hconn]
    exact .refl _

/-- The protocol of a connection that the network accepts is new. -/
theorem accept_retains {fromProtocol : ProtocolId} (hkey : key ≠ 0) (hspent : σ.io.Spent key) :
    σ.io.Retains (σ.io.accept key fromProtocol) := by
  have hunused := hspent.resolve_left hkey
  intro packet hpacket q hq huid
  have hself : (σ.io.accept key fromProtocol).protocol σ.io.created = { type := .SESSION, key } :=
    Function.update_self ..
  have hprotocol (hne : q ≠ σ.io.created) :
      (σ.io.accept key fromProtocol).protocol q = σ.io.protocol q := Function.update_of_ne hne ..
  rcases List.mem_append.mp hpacket with hpacket | hpacket
  · by_cases hne : q = σ.io.created
    · rw [hne, hself] at huid
      exact absurd huid.symm (hunused packet hpacket)
    · rw [hprotocol hne] at huid
      exact ⟨hpacket, (List.mem_cons.mp hq).resolve_left hne, huid⟩
  · cases List.mem_singleton.mp hpacket

/-- The network accepts a connection. -/
theorem accept_stays {fromProtocol : ProtocolId} (h : σ.io.Wired tidy) (hkey : key ≠ 0)
    (hfresh : σ.io.Fresh tidy key) : Stays tidy σ.io (σ.io.accept key fromProtocol) := by
  have hfree := hfresh.free.resolve_left hkey
  have hconn := IOEngine.accept_connections (σ := σ.io) key fromProtocol
  obtain ⟨hlater, hcalm⟩ := h.sound.made_later hconn
  refine ⟨h.of_retains ?_ hlater fun htidy => accept_retains hkey (hfresh.spent htidy), hlater, hcalm⟩
  rw [hconn]
  exact (Connections.Change.made hkey hfree).sound h.sound

/-! ### Confirmed nodes -/

section

variable [IntrusiveNode L] {host : Endian}

theorem onConnect_same {success : Bool} (hconnect : σ.onConnect host uid success = .ok τ) :
    τ.io.connections = σ.io.connections ∧ τ.connectingNodes = σ.connectingNodes := by
  rcases onConnect_cases hconnect with rfl | ⟨k, msg, -, hsend⟩
  · exact ⟨rfl, rfl⟩
  · obtain ⟨io, hio, hτ⟩ := of_bind_ok hsend
    obtain rfl := Except.ok.inj hτ
    exact ⟨IOEngine.send_connections hio, rfl⟩

/-- What `pollOnePacket` does for a protocol that is not available. -/
theorem pollOnePacket_cases (h : σ.io.Wired tidy) (hfound : σ.io.protocols uid = some p)
    (hquiet : (σ.io.protocol p).available = false)
    (hpoll : σ.pollOnePacket host p polled = .ok τ) :
    Moves careful tidy σ τ ∧ (τ.io.protocols uid = some p ∨ τ.io.protocols uid = none) ∧
      τ.connectingNodes = σ.connectingNodes := by
  unfold pollOnePacket at hpoll
  split at hpoll
  · obtain rfl := Except.ok.inj hpoll
    exact ⟨.refl h, .inl hfound, rfl⟩
  next n =>
  split at hpoll
  case isFalse =>
    obtain rfl := Except.ok.inj hpoll
    exact ⟨.refl h, .inl hfound, rfl⟩
  next hcond =>
  obtain ⟨rfl, hmem⟩ := hcond
  have hperm := List.perm_cons_erase hmem
  have hsub : (σ.io.msgqueue.erase (.notify n)).Sublist σ.io.msgqueue := List.erase_sublist
  refine ⟨notify_moves h hperm hsub hpoll, ?_⟩
  obtain ⟨io, -, hpopped, hhandled, -, -, hcalled⟩ := notify_cases h hperm hsub hpoll
  have hkey : (σ.io.protocol n.protocol).key = uid := (h.sound.entry uid _ hfound).2
  have hcalls {c : Connections} {available : Bool} {entry : Option ProtocolId}
      {calls : List Upcall} (hconn : io.connections = c.touch n.protocol available entry calls)
      (hc : c.upcalls = σ.io.upcalls) : σ.called io = calls.map (n.protocol, ·) := by
    refine called_eq ?_
    rw [← hc]
    exact (congrArg Connections.upcalls hconn :)
  generalize hconn : io.connections = c' at hhandled
  subst hkey
  cases hhandled with
  | ignored =>
    have hupcalls : io.upcalls = σ.io.upcalls := (congrArg Connections.upcalls hconn :)
    rw [called_none hupcalls] at hcalled
    obtain rfl := Except.ok.inj hcalled
    refine ⟨.inl ?_, rfl⟩
    rw [← hfound]
    exact (congrFun (congrArg Connections.protocols hconn) _ :)
  | listened =>
    rw [hcalls hconn rfl] at hcalled
    obtain rfl := Except.ok.inj hcalled
    refine ⟨.inl ((congrFun (congrArg Connections.protocols hconn) _ :).trans ?_), rfl⟩
    exact Function.update_self ..
  | unlistened =>
    rw [hcalls hconn rfl] at hcalled
    obtain rfl := Except.ok.inj hcalled
    refine ⟨.inr ((congrFun (congrArg Connections.protocols hconn) _ :).trans ?_), rfl⟩
    exact Function.update_self ..
  | accepted _ hgone => exact absurd hfound hgone
  | closed _ havail => exact absurd (hquiet.symm.trans havail) Bool.false_ne_true
  | connected =>
    rw [hcalls hconn rfl] at hcalled
    obtain ⟨hsame, hconnecting⟩ := onConnect_same (upcall_of_foldlM hcalled)
    refine ⟨.inl ?_, hconnecting⟩
    rw [show τ.io.protocols = io.protocols from congrArg Connections.protocols hsame]
    refine (congrFun (congrArg Connections.protocols hconn) _ :).trans ?_
    exact Function.update_self ..
  | disconnected _ _ havail => exact absurd (hquiet.symm.trans havail) Bool.false_ne_true

/-- The notification that `pollOnePacket` handles tells that the connector `p` is connected. -/
def Connects (σ : NetEngine L) (p : ProtocolId) (polled : Option IONotify) : Prop :=
  ∃ n, polled = some n ∧ n.protocol = p ∧ .notify n ∈ σ.io.msgqueue ∧ n.type = .PacketConnect ∧
    n.success = true

theorem pollOnePacket_available (h : σ.io.Wired tidy) (hfound : σ.io.protocols uid = some p)
    (hconnects : σ.Connects p polled) (hpoll : σ.pollOnePacket host p polled = .ok τ) :
    (τ.io.protocol p).available = true := by
  obtain ⟨n, rfl, rfl, hmem, htype, hsuccess⟩ := hconnects
  simp only [pollOnePacket, hmem, and_self, ite_true] at hpoll
  obtain ⟨io, hio, -, -, -, -, hcalled⟩ :=
    notify_cases h (List.perm_cons_erase hmem) List.erase_sublist hpoll
  have hkey : (σ.io.protocol n.protocol).key = uid := (h.sound.entry uid _ hfound).2
  simp only [IOEngine.dispatchIOPacket, htype, IOEngine.onIOConnect, hkey, hfound, reduceCtorEq,
    if_false, hsuccess, if_true] at hio
  have hio := Except.ok.inj hio
  have hupcalls : io.upcalls = σ.io.upcalls ++ [Upcall.onConnect uid true].map (n.protocol, ·) := by
    rw [← hio]
    rfl
  rw [called_eq hupcalls] at hcalled
  obtain ⟨hsame, -⟩ := onConnect_same (upcall_of_foldlM hcalled)
  have hprotocol : τ.io.protocol n.protocol = { σ.io.protocol n.protocol with available := true } :=
    (congrFun (congrArg Connections.protocol hsame) n.protocol :).trans (by
      rw [← hio]
      exact Function.update_self ..)
  rw [hprotocol]

/-- Either nothing is to be done, or something is polled for a protocol that is not available.  If it
still is not after that, it is taken out of the table. -/
theorem confirm_cases {confirmed : Bool}
    (hconfirm : σ.confirm host uid polled = .ok (confirmed, τ)) :
    τ = σ ∨ ∃ p σ', σ.io.protocols uid = some p ∧ (σ.io.protocol p).available = false ∧
      σ.pollOnePacket host p polled = .ok σ' ∧
      (τ = σ' ∨ (σ'.io.protocol p).available = false ∧
        τ = { σ' with io := (σ'.io.removeProtocol uid).pushEvent (.close uid) }) := by
  unfold confirm at hconfirm
  split at hconfirm
  · cases hconfirm
    exact .inl rfl
  next p hfound =>
  split at hconfirm
  · cases hconfirm
    exact .inl rfl
  next hquiet =>
  obtain ⟨σ', hpoll, hconfirm⟩ := of_bind_ok hconfirm
  refine .inr ⟨p, σ', hfound, by simpa using hquiet, hpoll, ?_⟩
  split at hconfirm
  · cases hconfirm
    exact .inl rfl
  next havail =>
  cases hconfirm
  exact .inr ⟨by simpa using havail, rfl⟩

omit [IntrusiveNode L] in
/-- What is taken out of the table because it was not confirmed. -/
theorem unconfirmed_cases {io : IOEngine L SerializeMessage} (h : σ.io.Wired tidy)
    (htable : σ.io.protocols uid = some p ∨ σ.io.protocols uid = none)
    (havail : (σ.io.protocol p).available = false)
    (hio : io = (σ.io.removeProtocol uid).pushEvent (.close uid)) :
    Stays tidy σ.io io ∨ (σ.io.protocol p).key = uid ∧ Ended tidy σ.io p io := by
  subst hio
  rcases htable with hknown | hnone
  · obtain ⟨hheld, hkey⟩ : p ∈ σ.io.outstanding ∧ (σ.io.protocol p).key = uid :=
      h.sound.entry uid p hknown
    have hconn : ((σ.io.removeProtocol uid).pushEvent (.close uid)).connections =
        σ.io.connections.touch p false none [] := by
      refine Connections.ext ?_ ?_ rfl rfl rfl (List.append_nil _).symm
      · rw [Connections.touch, show (σ.io.connections.protocol p).key = uid from hkey]
        rfl
      · rw [← havail]
        exact (Function.update_eq_self ..).symm
    have hlater : σ.io.connections.Later
        ((σ.io.removeProtocol uid).pushEvent (.close uid)).connections := by
      rw [hconn]
      exact h.sound.touch_later hheld (.inl rfl)
    have hretains := h.retains hlater (fun _ hq => hq) fun _ hpacket => .inl hpacket
    refine .inr ⟨hkey, hheld, h.of_retains ?_ hlater fun _ => hretains, hretains, hlater, ?_⟩
    · rw [hconn]
      exact h.sound.touch_none hheld
    · rw [hconn]
      exact h.sound.touch_drops hheld
  · refine .inl (.same h ?_ fun _ hpacket => .inl hpacket)
    refine Connections.ext ?_ rfl rfl rfl rfl rfl
    change Function.update σ.io.protocols uid none = σ.io.protocols
    rw [← hnone]
    exact Function.update_eq_self ..

/-- Where no connection is lost by it, a confirmation is careful. -/
theorem confirm_moves {confirmed : Bool} (h : σ.io.Wired tidy)
    (hconfirm : σ.confirm host uid polled = .ok (confirmed, τ))
    (hcareful : careful → ∀ p, σ.io.protocols uid = some p → (σ.io.protocol p).available = false →
      (σ.io.protocol p).type = .CONNECTOR → σ.connectingNodes uid = none ∨ σ.Connects p polled) :
    Moves careful tidy σ τ := by
  obtain rfl | ⟨p, σ', hfound, hquiet, hpoll, hτ⟩ := confirm_cases hconfirm
  · exact .refl h
  have hpolled : Moves careful tidy σ σ' ∧ _ := pollOnePacket_cases h hfound hquiet hpoll
  obtain ⟨hmoves, htable, hconnecting⟩ := hpolled
  obtain rfl | ⟨havail, rfl⟩ := hτ
  · exact hmoves
  refine hmoves.trans ?_
  rcases unconfirmed_cases hmoves.wired htable havail rfl with hstays | ⟨hkey, hended⟩
  · exact hstays.moves hmoves.wired
  refine hended.moves hmoves.wired (.quiet havail) fun hc _ hconnector => ?_
  have htype : (σ'.io.protocol p).type = (σ.io.protocol p).type :=
    (hmoves.later.keys p (h.sound.owned p (h.sound.entry uid p hfound).1)).2
  rw [hkey, hconnecting]
  rcases hcareful hc p hfound hquiet (htype ▸ hconnector) with hnone | hconnects
  · exact hnone
  · have hdone := pollOnePacket_available h hfound hconnects hpoll
    exact absurd (havail.symm.trans hdone) Bool.false_ne_true

/-! ### Steps -/

omit [IntrusiveNode L] in
@[simp] theorem answered_protocols {answer : Option IONotify} :
    (σ.answered answer).io.protocols = σ.io.protocols := by
  cases answer with
  | none => rfl
  | some n => rfl

omit [IntrusiveNode L] in
@[simp] theorem answered_protocol {answer : Option IONotify} :
    (σ.answered answer).io.protocol = σ.io.protocol := by
  cases answer with
  | none => rfl
  | some n => rfl

/-- The node that waits for its listener, of which it has the uid. -/
def listening (σ : NetEngine L) (code type : UInt32) (port : UInt16) (p : ProtocolId)
    (info : List UInt8) (key : UInt32) : NetEngine L :=
  { σ with
    io := σ.io.listen port p key
    nodeUid := key
    nodeCode := code
    nodeType := type
    nodeInfo := info }

section

variable {code type : UInt32} {port : UInt16} {info : List UInt8} {answer : Option IONotify}

/-- Either no listener is opened, or one is, and then confirmed or not. -/
theorem setupNode_cases (h : σ.io.Wired tidy) (hmade : p < σ.io.created) (hfresh : σ.io.Fresh tidy key)
    (hanswer : ∀ n, answer = some n →
      n.protocol = p ∧ n.uid = key ∧ n.type.about = some .LISTENER)
    (hsetup : σ.setupNode host code type port p info key answer = .ok (uid, τ)) :
    τ = σ ∨ τ = { σ with nodeUid := 0, nodeCode := code, nodeType := type, nodeInfo := info } ∨
    ∃ confirmed σ', σ.io.Opened tidy p .LISTENER key (σ.io.listen port p key) ∧
      Stays tidy (σ.io.listen port p key) ((σ.listening code type port p info key).answered answer).io ∧
      ((σ.listening code type port p info key).answered answer).confirm host key answer =
        .ok (confirmed, σ') ∧
      τ = if confirmed then σ' else { σ' with nodeUid := 0 } := by
  unfold setupNode at hsetup
  split at hsetup
  · cases hsetup
    exact .inl rfl
  dsimp only at hsetup
  rcases IOEngine.open_cases h hmade hfresh (.inl rfl) (.listen port p) rfl with
    ⟨hzero, hsame⟩ | hopened
  · have hsame : σ.io.listen port p key = σ.io := hsame
    rw [if_pos hzero, hzero, hsame] at hsetup
    cases hsetup
    exact .inr (.inl rfl)
  have hopened : σ.io.Opened tidy p .LISTENER key (σ.io.listen port p key) := hopened
  rw [hopened.returned, if_neg hopened.nonzero] at hsetup
  obtain ⟨⟨confirmed, σ'⟩, hconfirm, hsetup⟩ := of_bind_ok hsetup
  refine .inr (.inr ⟨confirmed, σ', hopened, ?_, hconfirm, ?_⟩)
  · cases answer with
    | none => exact .same (σ := σ.listening code type port p info key) hopened.wired rfl fun _ => .inl
    | some n =>
      obtain ⟨rfl, rfl, habout⟩ := hanswer n rfl
      obtain ⟨hheld, hkey⟩ := hopened.wired.sound.entry n.uid n.protocol hopened.known
      refine post_stays (σ := σ.listening code type port n.protocol info n.uid) hopened.wired hheld
        hkey.symm ?_
      rw [habout]
      exact congrArg some hopened.typed.symm
  · dsimp only at hsetup
    split at hsetup
    · next hdone =>
      cases hsetup
      rw [if_pos hdone]
    · next hfailed =>
      cases hsetup
      rw [if_neg hfailed]

theorem setupNode_moves (h : σ.io.Wired tidy) (hmade : p < σ.io.created) (hfresh : σ.io.Fresh tidy key)
    (hanswer : ∀ n, answer = some n →
      n.protocol = p ∧ n.uid = key ∧ n.type.about = some .LISTENER)
    (hsetup : σ.setupNode host code type port p info key answer = .ok (uid, τ)) :
    Moves careful tidy σ τ := by
  rcases setupNode_cases h hmade hfresh hanswer hsetup with
    rfl | rfl | ⟨confirmed, σ', hopened, hstays, hconfirm, rfl⟩
  · exact .refl h
  · exact .single h (.own rfl rfl rfl rfl rfl rfl rfl)
  let named : NetEngine L :=
    { σ with nodeUid := key, nodeCode := code, nodeType := type, nodeInfo := info }
  have hnamed : Moves careful tidy σ named := .single h (.own rfl rfl rfl rfl rfl rfl rfl)
  have hlistening : Moves careful tidy named (σ.listening code type port p info key) :=
    .calm hnamed.wired hopened.wired hopened.later hopened.calm
  have hanswered : Moves careful tidy (σ.listening code type port p info key)
      ((σ.listening code type port p info key).answered answer) := by
    cases answer with
    | none => exact .refl hlistening.wired
    | some n => exact hstays.moves hlistening.wired
  have hconfirmed : Moves careful tidy ((σ.listening code type port p info key).answered answer) σ' := by
    refine confirm_moves hanswered.wired hconfirm fun _ q hq _ hconnector => ?_
    rw [answered_protocols] at hq
    obtain rfl := Option.some.inj (hopened.known.symm.trans hq)
    rw [answered_protocol] at hconnector
    exact absurd (hopened.typed.symm.trans hconnector) nofun
  have hmoves := ((hnamed.trans hlistening).trans hanswered).trans hconfirmed
  split
  · exact hmoves
  · exact hmoves.trans (.single hmoves.wired (.own rfl rfl rfl rfl rfl rfl rfl))

end

omit [IntrusiveNode L] in
theorem bindPacketHandler_stays (h : σ.io.Wired tidy) {cmd : UInt32} {handler : Nat} :
    Stays tidy σ.io (σ.io.bindPacketHandler cmd handler) := by
  unfold IOEngine.bindPacketHandler
  split
  · exact .same h rfl fun _ hpacket => .inl hpacket
  · exact .same h rfl fun _ hpacket => .inl hpacket

/-- What a send puts in the queue is for nobody. -/
theorem send_drains {request : Request SerializeMessage}
    {io : IOEngine L SerializeMessage} (hsend : σ.io.exec (.send request) = .ok io) :
    σ.io.Drains io := by
  intro packet hpacket
  cases IOEngine.exec_queue hsend with
  | same _ hqueue => exact .inl (hqueue ▸ hpacket)
  | taken ha => cases ha
  | posted _ hposted hqueue =>
    rw [hqueue] at hpacket
    rcases List.mem_append.mp hpacket with hpacket | hpacket
    · exact .inl hpacket
    obtain rfl := List.mem_singleton.mp hpacket
    rcases hposted with hpost | ⟨n, hn⟩ | ⟨packet', hsame, hzero⟩
    · cases hpost
    · cases hn
    · cases hsame
      exact .inr hzero

/-- A step of the engine that calls nobody. -/
theorem io_stays {a : Action SerializeMessage} {io : IOEngine L SerializeMessage} (h : σ.io.Wired tidy)
    (hexec : σ.io.exec a = .ok io) (hcontract : σ.Contract (.io a))
    (htidy : tidy → σ.Tidy (.io a)) (hclose : ∀ uid, a ≠ .close uid)
    (hdispatch : ∀ packet, a ≠ .dispatch packet) : Stays tidy σ.io io := by
  have hrefl : Stays tidy σ.io σ.io := .same h rfl fun _ hpacket => .inl hpacket
  obtain ⟨hcontract, hown⟩ := hcontract
  cases a with
  | create =>
    obtain rfl := Except.ok.inj hexec
    exact create_stays h
  | listen port p key =>
    obtain rfl := Except.ok.inj hexec
    rcases IOEngine.open_cases h hcontract.1 ⟨hcontract.2, htidy⟩ (.inl rfl) (.listen port p) rfl with
      ⟨-, hsame⟩ | hopened
    · rwa [show σ.io.listen port p key = σ.io from hsame]
    · exact ⟨hopened.wired, hopened.later, hopened.calm⟩
  | connect address p key =>
    obtain rfl := Except.ok.inj hexec
    rcases IOEngine.open_cases h hcontract.1 ⟨hcontract.2, htidy⟩ (.inr rfl) (.connect address p)
      rfl with
      ⟨-, hsame⟩ | hopened
    · rwa [show σ.io.connect address p key = σ.io from hsame]
    · exact ⟨hopened.wired, hopened.later, hopened.calm⟩
  | close uid => exact absurd rfl (hclose uid)
  | bindPacketHandler cmd handler =>
    obtain rfl := Except.ok.inj hexec
    exact bindPacketHandler_stays h
  | send request => exact .same h (IOEngine.send_connections hexec) (send_drains hexec)
  | accept key fromProtocol =>
    obtain rfl := Except.ok.inj hexec
    exact accept_stays h hcontract.1 ⟨hcontract.2, htidy⟩
  | post packet =>
    obtain rfl := Except.ok.inj hexec
    cases packet with
    | notify n => exact post_stays h hcontract.1 hcontract.2.1 hcontract.2.2
    | msg packet => exact postMsg_stays h hown
  | dispatch packet => exact absurd rfl (hdispatch packet)
  | timeout now =>
    obtain rfl := Except.ok.inj hexec
    cases htimeout : σ.io.timeoutFront now with
    | none => exact hrefl
    | some τ =>
      obtain ⟨k, -, -, rfl⟩ := IOEngine.timeoutFront_cases htimeout
      exact .same h rfl fun _ hpacket => .inl hpacket
  | recycle p =>
    obtain rfl := Except.ok.inj hexec
    have hlater : σ.io.connections.Later (σ.io.recycle p).connections :=
      Connections.same_later rfl rfl fun _ hn _ => hn
    refine ⟨h.next ?_ hlater ?_ fun _ hpacket => .inl hpacket, hlater,
      Connections.same_calm rfl rfl⟩
    · exact h.sound.recycle hcontract.1 fun n hn => (hcontract.2 n hn).1
    · exact fun q hq => List.mem_of_mem_erase hq

omit [IntrusiveNode L] in
/-- What `onInit` binds changes no connection. -/
theorem onInit_stays (h : σ.io.Wired tidy) : Stays tidy σ.io σ.onInit.io :=
  have hping : Stays tidy σ.io (σ.io.bindPacketHandler Ping pingHandler) := bindPacketHandler_stays h
  hping.trans (bindPacketHandler_stays (σ := { σ with
    io := σ.io.bindPacketHandler Ping pingHandler }) hping.wired)

/-- A step after which no node waits for a connection that has gone.  If `close`, `confirmListen` or
`confirmConnect` takes a protocol out of the table that is not available, no node is connecting with
its uid. -/
def Careful (σ : NetEngine L) : NetAction → Prop
  | .io (.close uid) => ∀ p, σ.io.protocols uid = some p → (σ.io.protocol p).available = false →
      σ.connectingNodes uid = none
  | .confirm uid polled => ∀ p, σ.io.protocols uid = some p →
      (σ.io.protocol p).available = false → σ.connectingNodes uid = none ∨ σ.Connects p polled
  | .io _ | .onInit | .setupNode _ _ _ _ _ _ _ | .connectNode _ _ _ _ _ | .reconnect _ _ => True

/-- A step of the engine, for its node.  It closes a connection, handles what is first in the queue, or
calls nobody. -/
inductive IOStep (host : Endian) (σ : NetEngine L) (τ : NetEngine L) : Action SerializeMessage → Prop
  | close {uid : UInt32} (hclose : σ.close uid = .ok τ) : IOStep host σ τ (.close uid)
  | notify {n : IONotify} {queue : List (Packet SerializeMessage)}
      (hqueue : σ.io.msgqueue = .notify n :: queue)
      (hexec : { σ with io := { σ.io with msgqueue := queue } }.dispatchIOPacket host (.notify n) =
        .ok τ) : IOStep host σ τ (.dispatch (.notify n))
  | msg {packet : IOPacket SerializeMessage} {queue : List (Packet SerializeMessage)}
      (hqueue : σ.io.msgqueue = .msg packet :: queue)
      (hexec : { σ with io := { σ.io with msgqueue := queue } }.dispatchIOPacket host (.msg packet) =
        .ok τ) : IOStep host σ τ (.dispatch (.msg packet))
  | quiet {a : Action SerializeMessage} {io : IOEngine L SerializeMessage}
      (hclose : ∀ uid, a ≠ .close uid) (hdispatch : ∀ packet, a ≠ .dispatch packet)
      (hio : σ.io.exec a = .ok io) (hτ : τ = { σ with io }) : IOStep host σ τ a

theorem io_step {a : Action SerializeMessage} (hstep : σ.Permitted host (.io a) τ) :
    IOStep host σ τ a := by
  obtain ⟨hhead, hexec, -⟩ := hstep
  have quiet (hclose : ∀ uid, a ≠ .close uid) (hdispatch : ∀ packet, a ≠ .dispatch packet)
      (hexec : (do let io ← σ.io.exec a; return { σ with io }) = Except.ok τ) :
      IOStep host σ τ a := by
    obtain ⟨io, hio, hτ⟩ := of_bind_ok hexec
    exact .quiet hclose hdispatch hio (Except.ok.inj hτ).symm
  cases a with
  | close uid => exact .close hexec
  | dispatch packet =>
    obtain ⟨queue, hqueue⟩ := List.head?_eq_some_iff.mp (hhead packet rfl)
    simp only [exec, hqueue, List.tail_cons] at hexec
    cases packet with
    | notify n => exact .notify hqueue hexec
    | msg packet => exact .msg hqueue hexec
  | create => exact quiet nofun nofun hexec
  | listen port p key => exact quiet nofun nofun hexec
  | connect address p key => exact quiet nofun nofun hexec
  | bindPacketHandler cmd handler => exact quiet nofun nofun hexec
  | send request => exact quiet nofun nofun hexec
  | accept key fromProtocol => exact quiet nofun nofun hexec
  | post packet => exact quiet nofun nofun hexec
  | timeout now => exact quiet nofun nofun hexec
  | recycle p => exact quiet nofun nofun hexec

/-- What a step of a node does. -/
theorem step_moves {a : NetAction} (h : σ.io.Wired tidy) (hstep : σ.Permitted host a τ)
    (hcareful : careful → σ.Careful a) (htidy : tidy → σ.Tidy a) : Moves careful tidy σ τ := by
  obtain ⟨hhead, hexec, hcontract⟩ := hstep
  cases a with
  | io a =>
    cases io_step ⟨hhead, hexec, hcontract⟩ with
    | close hclose => exact close_moves h hclose fun hc p hp havail _ => hcareful hc p hp havail
    | notify hqueue hexec' =>
      exact notify_moves h (hqueue ▸ .refl _) (hqueue ▸ List.sublist_cons_self ..) hexec'
    | msg hqueue hexec' => exact msg_moves h hqueue hexec'
    | quiet hclose hdispatch hio hτ =>
      subst hτ
      exact (io_stays h hio hcontract htidy hclose hdispatch).moves h
  | onInit =>
    obtain rfl := Except.ok.inj hexec
    exact (onInit_stays h).moves h
  | setupNode code type port p info key answer =>
    obtain ⟨⟨uid, σ'⟩, hsetup, hτ⟩ := of_bind_ok hexec
    obtain rfl := Except.ok.inj hτ
    obtain ⟨hmade, hfresh, hanswer⟩ := hcontract
    exact setupNode_moves h hmade ⟨hfresh, htidy⟩ hanswer hsetup
  | connectNode code type address p key =>
    obtain rfl := Except.ok.inj hexec
    exact connectNode_moves h hcontract.1 ⟨hcontract.2, htidy⟩
  | confirm uid polled =>
    obtain ⟨⟨confirmed, σ'⟩, hconfirm, hτ⟩ := of_bind_ok hexec
    obtain rfl := Except.ok.inj hτ
    exact confirm_moves h hconfirm fun hc p hp havail _ => hcareful hc p hp havail
  | reconnect code key =>
    obtain rfl := Except.ok.inj hexec
    exact reconnectNode_moves h ⟨hcontract, htidy⟩

/-- Actions that do not fail, one after another, in a run that is evaluated. -/
def Allowed (host : Endian) (also : NetEngine L → NetAction → Prop) :
    NetEngine L → List NetAction → Prop
  | _, [] => True
  | σ, a :: as => (∀ packet, a = .io (.dispatch packet) → σ.io.msgqueue.head? = some packet) ∧
      (σ.exec host a).isOk = true ∧ σ.Contract a ∧ also σ a ∧ Allowed host also (σ.next host a) as

theorem exec_next {a : NetAction} (hok : (σ.exec host a).isOk = true) :
    σ.exec host a = .ok (σ.next host a) := by
  unfold next
  split
  · assumption
  · next hfails => simp [hfails, Except.isOk, Except.toBool] at hok

theorem run_of_allowed {also : NetEngine L → NetAction → Prop} {as : List NetAction}
    (h : Allowed host also σ as) :
    Run (fun σ a τ => Permitted host σ a τ ∧ also σ a) σ as (as.foldl (next host) σ) := by
  induction as generalizing σ with
  | nil => exact .nil
  | cons a as ih =>
    obtain ⟨hhead, hok, hcontract, halso, hrest⟩ := h
    exact .cons ⟨⟨hhead, exec_next hok, hcontract⟩, halso⟩ (ih hrest)

theorem permitted_of_allowed {also : NetEngine L → NetAction → Prop} {as : List NetAction}
    (h : Allowed host also σ as) : Run (Permitted host) σ as (as.foldl (next host) σ) :=
  (run_of_allowed h).mono fun _ _ _ hstep => hstep.1

theorem wired_init : (init : NetEngine L).io.Wired tidy :=
  ⟨IOEngine.sound_init, fun _ _ hpacket => by cases hpacket⟩

theorem wired_run {as : List NetAction} (run : Run (Permitted host) init as σ) :
    σ.io.Wired False :=
  run.invariant (fun σ => σ.io.Wired False)
    (fun _ _ _ h hstep => (step_moves h hstep False.elim False.elim : Moves False False _ _).wired)
    wired_init

/-- A protocol that is not found under its key is not found. -/
theorem not_found {as : List NetAction} {p : ProtocolId} {key : UInt32}
    (run : Run (Permitted host) init as σ) (hkey : (σ.io.protocol p).key = key)
    (hgone : σ.io.protocols key ≠ some p) (uid : UInt32) : σ.io.protocols uid ≠ some p := by
  intro hfound
  obtain ⟨-, huid⟩ := (wired_run run).sound.entry uid p hfound
  obtain rfl : key = uid := hkey.symm.trans huid
  exact hgone hfound

end

end NetEngine

end ZlNet.Engine
