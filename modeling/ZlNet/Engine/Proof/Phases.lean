import ZlNet.Engine.Proof.Deeds

/-! The phases of a handshake.  A connection is connecting, or waits for a ping, or its handshake is
done, and a node has a table for each.  The handlers of pings and pongs put a connection into the last
of them and do not take it out of the one that it was in. -/

namespace ZlNet.Engine

open Network Lib Lib.Bytes

namespace IOEngine

variable {L μ : Type} {σ τ : IOEngine L μ} {packet : IOPacket μ} {k : Nat}

/-- The handler `k` is called for a packet of data. -/
structure Hears (σ : IOEngine L μ) (packet : IOPacket μ) (k : Nat) : Prop where
  available : σ.isAvailable packet.uid = true
  cmd : packet.cmd ≠ 0
  bound : σ.packetHandlers packet.cmd = some k

theorem Hears.found (h : σ.Hears packet k) : ∃ p, σ.getProtocol packet.uid = some p := by
  have havail := h.available
  rw [isAvailable, Option.any_eq_true] at havail
  obtain ⟨p, hfound, -⟩ := havail
  exact ⟨p, hfound⟩

theorem Hears.only (h : σ.Hears packet k) {m : Nat} (h' : σ.Hears packet m) : k = m :=
  Option.some.inj (h.bound.symm.trans h'.bound)

/-- Of the calls that a packet of data leads to, only that of its packet handler concerns the node. -/
theorem onIOPacket_hears [IntrusiveNode L] (hpacket : σ.onIOPacket packet = .ok τ) :
    τ.upcalls = σ.upcalls ∧
    (τ.dispatched = σ.dispatched ∧ (∀ k, ¬σ.Hears packet k) ∨
      ∃ k, σ.Hears packet k ∧ τ = { σ with dispatched := σ.dispatched ++ [(k, packet)] }) := by
  unfold onIOPacket at hpacket
  split at hpacket
  case isFalse hquiet =>
    obtain rfl := Except.ok.inj hpacket
    exact ⟨rfl, .inl ⟨rfl, fun k h => hquiet h.available⟩⟩
  next havail =>
  split at hpacket
  · next hcmd =>
    obtain rfl := Except.ok.inj hpacket
    unfold dispatchPacket
    split
    · next hnone => exact ⟨rfl, .inl ⟨rfl, fun k h => by simp [h.bound] at hnone⟩⟩
    · next k hbound => exact ⟨rfl, .inr ⟨k, ⟨havail, hcmd, hbound⟩, rfl⟩⟩
  next hcmd =>
  have hnone : ∀ k, ¬σ.Hears packet k := fun k h => hcmd h.cmd
  split at hpacket
  · simp only [dispactchCallback] at hpacket
    split at hpacket
    · obtain rfl := Except.ok.inj hpacket
      exact ⟨rfl, .inl ⟨rfl, hnone⟩⟩
    · obtain ⟨_, -, hpacket⟩ := of_bind_ok hpacket
      obtain rfl := Except.ok.inj hpacket
      exact ⟨rfl, .inl ⟨rfl, hnone⟩⟩
  · obtain rfl := Except.ok.inj hpacket
    exact ⟨rfl, .inl ⟨rfl, hnone⟩⟩

end IOEngine

namespace NetEngine

variable {L : Type} {tidy : Prop} {σ τ υ : NetEngine L} {io : IOEngine L SerializeMessage}
  {p : ProtocolId} {uid : UInt32} {n : IONotify}

/-- A connection whose handshake is done neither is connecting nor waits for a ping, and none does
both. -/
structure Exclusive (σ : NetEngine L) : Prop where
  peer : ∀ uid, σ.peersByUid uid ≠ none →
    σ.accpetedNodes uid = false ∧ σ.connectingNodes uid = none
  waits : ∀ uid, σ.accpetedNodes uid = true → σ.connectingNodes uid = none

/-- No handshake is done on the way from `σ` to `τ`, no connection comes to wait for a ping, and what
begins to connect is in no other phase. -/
structure Eases (σ τ : NetEngine L) : Prop where
  peers : ∀ uid, τ.peersByUid uid ≠ none → σ.peersByUid uid ≠ none
  accpeted : ∀ uid, τ.accpetedNodes uid = true → σ.accpetedNodes uid = true
  connecting : ∀ uid, τ.connectingNodes uid ≠ none → σ.connectingNodes uid ≠ none ∨
    τ.accpetedNodes uid = false ∧ τ.peersByUid uid = none

theorem Eases.refl (σ : NetEngine L) : Eases σ σ := ⟨fun _ => id, fun _ => id, fun _ => .inl⟩

theorem Eases.still_accpeted (h : Eases σ τ) (hnone : σ.accpetedNodes uid = false) :
    τ.accpetedNodes uid = false :=
  Bool.eq_false_iff.mpr fun hwaits => Bool.eq_false_iff.mp hnone (h.accpeted uid hwaits)

theorem Eases.still_peers (h : Eases σ τ) (hnone : σ.peersByUid uid = none) :
    τ.peersByUid uid = none :=
  by_contra fun hpeer => h.peers uid hpeer hnone

theorem Eases.trans (h : Eases σ τ) (h' : Eases τ υ) : Eases σ υ where
  peers uid hpeer := h.peers uid (h'.peers uid hpeer)
  accpeted uid hwaits := h.accpeted uid (h'.accpeted uid hwaits)
  connecting uid hconnecting := by
    rcases h'.connecting uid hconnecting with hconnecting | hnew
    · refine (h.connecting uid hconnecting).imp_right fun ⟨haccpeted, hpeer⟩ => ?_
      exact ⟨h'.still_accpeted haccpeted, h'.still_peers hpeer⟩
    · exact .inr hnew

theorem Eases.same (hpeers : τ.peersByUid = σ.peersByUid)
    (haccpeted : τ.accpetedNodes = σ.accpetedNodes)
    (hconnecting : τ.connectingNodes = σ.connectingNodes) : Eases σ τ where
  peers _ hpeer := hpeers ▸ hpeer
  accpeted _ hwaits := haccpeted ▸ hwaits
  connecting _ h := .inl (hconnecting ▸ h)

theorem Exclusive.eases (h : σ.Exclusive) (heases : Eases σ τ) : τ.Exclusive := by
  constructor
  · intro uid hpeer
    obtain ⟨haccpeted, hnone⟩ := h.peer uid (heases.peers uid hpeer)
    refine ⟨heases.still_accpeted haccpeted, by_contra fun hconnecting => ?_⟩
    rcases heases.connecting uid hconnecting with hsome | ⟨-, hnone'⟩
    · exact hsome hnone
    · exact hpeer hnone'
  · intro uid hwaits
    refine by_contra fun hconnecting => ?_
    rcases heases.connecting uid hconnecting with hsome | ⟨haccpeted, -⟩
    · exact hsome (h.waits uid (heases.accpeted uid hwaits))
    · exact Bool.false_ne_true (haccpeted.symm.trans hwaits)

/-- Each connection stays in one phase at most unless the step `overlaps`, and then no handshake is
done. -/
structure Sorts (σ : NetEngine L) (overlaps : Prop) (τ : NetEngine L) : Prop where
  exclusive : τ.Exclusive ↔ ¬overlaps
  peers : ¬overlaps → ∀ uid, τ.peersByUid uid ≠ none → σ.peersByUid uid ≠ none

theorem Eases.sorts {overlaps : Prop} (heases : Eases σ τ) (h : σ.Exclusive) (hother : ¬overlaps) :
    Sorts σ overlaps τ :=
  ⟨⟨fun _ => hother, fun _ => h.eases heases⟩, fun _ => heases.peers⟩

theorem Sorts.overlapped {overlaps : Prop} (h : overlaps) (hnot : ¬τ.Exclusive) :
    Sorts σ overlaps τ :=
  ⟨⟨fun hex => absurd hex hnot, absurd h⟩, absurd h⟩

theorem Sorts.congr {overlaps overlaps' : Prop} (h : Sorts σ overlaps τ)
    (hiff : overlaps ↔ overlaps') : Sorts σ overlaps' τ :=
  ⟨h.exclusive.trans (not_congr hiff), h.peers ∘ mt hiff.mp⟩

/-! ### Connections that go -/

theorem some_of_update {f : UInt32 → Option NodeId} {uid' : UInt32}
    (h : Function.update f uid none uid' ≠ none) : f uid' ≠ none := by
  by_cases huid : uid' = uid
  · simp [huid] at h
  · rwa [Function.update_of_ne huid] at h

theorem unaccpeted_eases : Eases σ (σ.unaccpeted uid) where
  peers _ := id
  accpeted uid' hwaits := by
    have hwaits : Function.update σ.accpetedNodes uid false uid' = true := hwaits
    by_cases huid : uid' = uid
    · simp [huid] at hwaits
    · rwa [Function.update_of_ne huid] at hwaits
  connecting _ := .inl

theorem removePeer_eases : Eases σ (σ.removePeer p uid) := by
  unfold removePeer
  split
  · exact .refl σ
  · exact ⟨fun _ => some_of_update, fun _ => id, fun _ => .inl⟩

theorem onUnlisten_eases : Eases σ (σ.onUnlisten uid) := by
  unfold onUnlisten
  split
  · exact .same rfl rfl rfl
  · exact .refl σ

theorem onClose_eases : Eases σ (σ.onClose p uid) := unaccpeted_eases.trans removePeer_eases

theorem onDisconnect_eases : Eases σ (σ.onDisconnect p uid) := by
  unfold onDisconnect
  split
  · exact removePeer_eases
  · next k _ =>
    let left : NetEngine L :=
      { σ with connectingNodes := Function.update σ.connectingNodes uid none }
    have hleft : Eases σ (left.setNode k { left.node k with uid := 0 }) :=
      ⟨fun _ => id, fun _ => id, fun _ h => .inl (some_of_update h)⟩
    exact hleft.trans removePeer_eases

theorem gone_eases {call : ProtocolId × Upcall} : Eases σ (σ.gone call) := by
  unfold gone
  split
  · exact onUnlisten_eases
  · exact onClose_eases
  · exact onDisconnect_eases
  all_goals exact .refl σ

theorem foldl_gone_eases (calls : List (ProtocolId × Upcall)) : Eases σ (calls.foldl gone σ) := by
  induction calls generalizing σ with
  | nil => exact .refl σ
  | cons call calls ih =>
    rw [List.foldl_cons]
    exact gone_eases.trans ih

theorem close_eases (hclose : σ.close uid = .ok τ) : Eases σ τ := by
  obtain ⟨io, -, hτ⟩ := of_bind_ok hclose
  obtain rfl := Except.ok.inj hτ
  have hio : Eases σ { σ with io } := .same rfl rfl rfl
  exact hio.trans (foldl_gone_eases _)

/-! ### Notifications -/

/-- No handshake has been done. -/
def Peerless (σ : NetEngine L) : Prop := ∀ uid, σ.peersByUid uid = none

/-- What the table knows nothing of does not wait for a ping. -/
theorem Attends.unfound (hattends : σ.Attends) (hnone : σ.io.protocols uid = none) :
    σ.accpetedNodes uid = false := by
  refine Bool.eq_false_iff.mpr fun hwaits => ?_
  obtain ⟨p, hfound, -⟩ := hattends uid hwaits
  simp [hnone] at hfound

/-- The notification tells of a connection that was accepted for the node, so that it waits for a
ping. -/
def Takes (σ : NetEngine L) (n : IONotify) : Prop :=
  n.type = .PacketAccept ∧ ∃ q, n.fromProtocol = some q ∧ (σ.io.protocol q).key = σ.nodeUid ∧
    σ.io.getProtocol (σ.io.protocol q).key = some q ∧ (σ.io.protocol q).available = true

/-- The connection of `n` comes to wait for a ping. -/
structure Taken (σ : NetEngine L) (n : IONotify) (τ : NetEngine L) : Prop where
  new : σ.io.protocols (σ.io.protocol n.protocol).key = none
  accpeted : τ.accpetedNodes =
    Function.update σ.accpetedNodes (σ.io.protocol n.protocol).key true
  connecting : τ.connectingNodes = σ.connectingNodes
  peers : τ.peersByUid = σ.peersByUid

section

variable [IntrusiveNode L] {host : Endian} {packet : IOPacket SerializeMessage}
  {queue : List (Packet SerializeMessage)} {polled : Option IONotify}

theorem send_eases (hsend : σ.send packet = .ok τ) : Eases σ τ := by
  obtain ⟨io, -, hτ⟩ := of_bind_ok hsend
  obtain rfl := Except.ok.inj hτ
  exact .same rfl rfl rfl

theorem onConnect_eases {success : Bool} (hconnect : σ.onConnect host uid success = .ok τ) :
    Eases σ τ := by
  rcases onConnect_cases hconnect with rfl | ⟨k, msg, -, hsend⟩
  · exact .refl τ
  · exact send_eases hsend

theorem upcall_eases {call : ProtocolId × Upcall}
    (hother : ∀ uid fromUid, call.2 ≠ .onAccept uid fromUid)
    (hcall : σ.upcall host call = .ok τ) : Eases σ τ := by
  unfold upcall at hcall
  split at hcall
  · next uid fromUid haccept => exact absurd haccept (hother uid fromUid)
  · exact onConnect_eases hcall
  all_goals
    obtain rfl := Except.ok.inj hcall
    exact gone_eases

theorem notify_eases (h : σ.io.Wired tidy) (hperm : σ.io.msgqueue.Perm (.notify n :: queue))
    (hsub : queue.Sublist σ.io.msgqueue) (hother : n.type ≠ .PacketAccept)
    (hexec : { σ with io := { σ.io with msgqueue := queue } }.dispatchIOPacket host (.notify n) =
      .ok τ) : Eases σ τ := by
  obtain ⟨io, -, -, hhandled, -, -, hcalled⟩ := notify_cases h hperm hsub hexec
  have hio : Eases σ { σ with io } := .same rfl rfl rfl
  have heases {c : Connections} {available : Bool} {entry : Option ProtocolId} {call : Upcall}
      (hconn : io.connections = c.touch n.protocol available entry [call])
      (hc : c.upcalls = σ.io.upcalls) (hcall : ∀ uid fromUid, call ≠ .onAccept uid fromUid) :
      Eases σ τ := by
    have hupcalls : io.upcalls = σ.io.upcalls ++ [call].map (n.protocol, ·) := by
      rw [← hc]
      exact (congrArg Connections.upcalls hconn :)
    rw [called_eq hupcalls] at hcalled
    exact hio.trans (upcall_eases hcall (upcall_of_foldlM hcalled))
  generalize hconn : io.connections = c' at hhandled
  cases hhandled with
  | ignored =>
    have hupcalls : io.upcalls = σ.io.upcalls := (congrArg Connections.upcalls hconn :)
    rw [called_none hupcalls] at hcalled
    obtain rfl := Except.ok.inj hcalled
    exact hio
  | accepted htype => exact absurd htype hother
  | listened => exact heases hconn rfl (by simp)
  | unlistened => exact heases hconn rfl (by simp)
  | closed => exact heases hconn rfl (by simp)
  | connected => exact heases hconn rfl (by simp)
  | disconnected => exact heases hconn rfl (by simp)

/-- A connection that was accepted is new, and waits for a ping if it was accepted for the node. -/
theorem accept_taken (h : σ.io.Wired tidy) (hattends : σ.Attends)
    (hperm : σ.io.msgqueue.Perm (.notify n :: queue)) (hsub : queue.Sublist σ.io.msgqueue)
    (htype : n.type = .PacketAccept)
    (hexec : { σ with io := { σ.io with msgqueue := queue } }.dispatchIOPacket host (.notify n) =
      .ok τ) : Eases σ τ ∧ ¬σ.Takes n ∨ σ.Takes n ∧ σ.Taken n τ := by
  obtain ⟨io, hio, hpopped, -, -, -, hcalled⟩ := notify_cases h hperm hsub hexec
  have hnone : σ.io.protocols (σ.io.protocol n.protocol).key = none := by
    by_contra hfound
    exact hpopped.waiting htype (hpopped.known hfound)
  have dropped (hio : { σ.io with msgqueue := queue } = io) (hother : ¬σ.Takes n) :
      Eases σ τ ∧ ¬σ.Takes n ∨ σ.Takes n ∧ σ.Taken n τ := by
    have hupcalls : io.upcalls = σ.io.upcalls := by rw [← hio]
    rw [called_none hupcalls] at hcalled
    obtain rfl := Except.ok.inj hcalled
    exact .inl ⟨.same rfl rfl rfl, hother⟩
  simp only [IOEngine.dispatchIOPacket, htype, IOEngine.onIOAccept] at hio
  split at hio
  · cases hio
  next q hfrom =>
  have only {q' : ProtocolId} (hq : n.fromProtocol = some q') : q' = q :=
    Option.some.inj (hq.symm.trans hfrom)
  split at hio
  · next hfound =>
    refine dropped (Except.ok.inj hio) ?_
    rintro ⟨-, q', hq, -, hknown, -⟩
    obtain rfl := only hq
    exact hfound hknown
  next hfound =>
  split at hio
  · next hquiet =>
    refine dropped (Except.ok.inj hio) ?_
    rintro ⟨-, q', hq, -, -, havail⟩
    obtain rfl := only hq
    simp [havail] at hquiet
  next havail =>
  split at hio
  case isFalse hsome => exact absurd hnone hsome
  have hio := Except.ok.inj hio
  have hupcalls : io.upcalls = σ.io.upcalls ++
      [Upcall.onAccept (σ.io.protocol n.protocol).key (σ.io.protocol q).key].map (n.protocol, ·) := by
    rw [← hio]
    rfl
  rw [called_eq hupcalls] at hcalled
  have haccept : { σ with io }.onAccept (σ.io.protocol n.protocol).key (σ.io.protocol q).key = .ok τ :=
    upcall_of_foldlM hcalled
  rcases onAccept_cases haccept with ⟨rfl, hother⟩ | ⟨huid, ⟨hwaits, -⟩ | rfl⟩
  · refine .inl ⟨.same rfl rfl rfl, ?_⟩
    rintro ⟨-, q', hq, huid, -⟩
    obtain rfl := only hq
    exact hother huid.symm
  · obtain ⟨p, hfound, -⟩ := hattends _ hwaits
    simp [hnone] at hfound
  · exact .inr ⟨⟨htype, q, hfrom, huid.symm, not_not.mp hfound, by simpa using havail⟩,
      hnone, rfl, rfl, rfl⟩

/-- Only a connection that begins to wait for a ping while it is connecting, under a uid that was used
before, gets into two phases. -/
theorem notify_sorts (h : σ.io.Wired tidy) (hattends : σ.Attends) (hpeerless : σ.Peerless)
    (hex : σ.Exclusive) (hperm : σ.io.msgqueue.Perm (.notify n :: queue))
    (hsub : queue.Sublist σ.io.msgqueue)
    (hexec : { σ with io := { σ.io with msgqueue := queue } }.dispatchIOPacket host (.notify n) =
      .ok τ) :
    Sorts σ (σ.Takes n ∧ σ.connectingNodes (σ.io.protocol n.protocol).key ≠ none) τ := by
  by_cases htype : n.type = .PacketAccept
  case neg =>
    exact (notify_eases h hperm hsub htype hexec).sorts hex fun htakes => htype htakes.1.1
  rcases accept_taken h hattends hperm hsub htype hexec with ⟨heases, hother⟩ | ⟨htakes, htaken⟩
  · exact heases.sorts hex fun htakes => hother htakes.1
  have hpeers : τ.Peerless := fun uid => htaken.peers ▸ hpeerless uid
  refine ⟨⟨?_, fun hspared => ?_⟩, fun _ uid hpeer => absurd (hpeers uid) hpeer⟩
  · rintro hex' ⟨-, hconnecting⟩
    rw [← htaken.connecting] at hconnecting
    refine hconnecting (hex'.waits _ ?_)
    rw [htaken.accpeted, Function.update_self]
  have hconnecting : σ.connectingNodes (σ.io.protocol n.protocol).key = none :=
    by_contra fun hsome => hspared ⟨htakes, hsome⟩
  refine ⟨fun uid hpeer => absurd (hpeers uid) hpeer, fun uid hwaits => ?_⟩
  rw [htaken.connecting]
  by_cases huid : uid = (σ.io.protocol n.protocol).key
  · rw [huid]
    exact hconnecting
  · rw [htaken.accpeted, Function.update_of_ne huid] at hwaits
    exact hex.waits uid hwaits

/-! ### Packets of data -/

/-- The handshake of a connection is done with the packet. -/
def Completes (host : Endian) (σ : NetEngine L) (packet : IOPacket SerializeMessage) : Prop :=
  σ.io.Hears packet pingHandler ∧ σ.Pinged host packet ∨
    σ.io.Hears packet pongHandler ∧ σ.Ponged host packet

/-- A ping that is waited for leaves its connection waiting. -/
theorem handlerNodePing_sorts (hex : σ.Exclusive)
    (hping : σ.handlerNodePing host p packet = .ok τ) : Sorts σ (σ.Pinged host packet) τ := by
  rcases handlerNodePing_cases hping with
    ⟨hclose, hother⟩ | ⟨h, _, io, hgreeted, hwaits, hpeer, -, -, rfl⟩
  · exact (close_eases hclose).sorts hex hother
  refine .overlapped ⟨h, hgreeted, hwaits, hpeer⟩ fun hex' => ?_
  have hdone : (σ.admitted p packet.uid h io).peersByUid packet.uid ≠ none := by simp [admitted]
  exact absurd ((hex'.peer packet.uid hdone).1.symm.trans hwaits) Bool.false_ne_true

omit [IntrusiveNode L] in
/-- A pong of the node that is connecting leaves it connecting. -/
theorem handlerNodePong_sorts (hex : σ.Exclusive)
    (hpong : σ.handlerNodePong host p packet = .ok τ) : Sorts σ (σ.Ponged host packet) τ := by
  rcases handlerNodePong_cases hpong with
    ⟨hclose, hother⟩ | ⟨h, k, hgreeted, hconnecting, hcode, htype, hpeer, rfl⟩
  · rcases hclose with hclose | hclose
    · exact (close_eases hclose).sorts hex hother
    · exact (unaccpeted_eases.trans (close_eases hclose)).sorts hex hother
  refine .overlapped ⟨h, k, hgreeted, hconnecting, hcode, htype, hpeer⟩ fun hex' => ?_
  have hdone : (σ.met p packet.uid k h).peersByUid packet.uid ≠ none := by simp [met]
  have hnone : σ.connectingNodes packet.uid = none := (hex'.peer packet.uid hdone).2
  simp [hconnecting] at hnone

/-- Exactly the packets with which a handshake is done put a connection into two phases. -/
theorem msg_sorts (hex : σ.Exclusive)
    (hexec : { σ with io := { σ.io with msgqueue := queue } }.dispatchIOPacket host (.msg packet) =
      .ok τ) : Sorts σ (σ.Completes host packet) τ := by
  obtain ⟨io, hio, hexec⟩ := of_bind_ok hexec
  obtain ⟨σ', hcalled, hexec⟩ := of_bind_ok hexec
  have hio : { σ.io with msgqueue := queue }.onIOPacket packet = .ok io := hio
  obtain ⟨hupcalls, hheard⟩ := IOEngine.onIOPacket_hears hio
  rw [called, hupcalls, List.drop_length] at hcalled
  obtain rfl := Except.ok.inj hcalled
  have hio : Eases σ { σ with io } := .same rfl rfl rfl
  rcases hheard with ⟨hdispatched, hnone⟩ | ⟨k, hheard, rfl⟩
  · rw [hdispatched, List.drop_length] at hexec
    obtain rfl := Except.ok.inj hexec
    refine hio.sorts hex ?_
    rintro (⟨hheard, -⟩ | ⟨hheard, -⟩)
    · exact hnone _ ⟨hheard.available, hheard.cmd, hheard.bound⟩
    · exact hnone _ ⟨hheard.available, hheard.cmd, hheard.bound⟩
  have hheard : σ.io.Hears packet k := ⟨hheard.available, hheard.cmd, hheard.bound⟩
  rw [List.drop_left] at hexec
  have hhandle := show handle host _ (k, packet) = Except.ok τ by
    simpa only [List.foldlM_cons, List.foldlM_nil, bind_pure] using hexec
  obtain ⟨rfl, hother⟩ | ⟨p, -, ⟨rfl, hhandle⟩ | ⟨rfl, hhandle⟩⟩ := handle_cases hhandle
  · obtain ⟨p, hfound⟩ := hheard.found
    obtain ⟨hping, hpong⟩ := hother p hfound
    refine hio.sorts hex ?_
    rintro (⟨hheard', -⟩ | ⟨hheard', -⟩)
    · exact hping (hheard.only hheard')
    · exact hpong (hheard.only hheard')
  · obtain ⟨hiff, hpeers⟩ := handlerNodePing_sorts (hex.eases hio) hhandle
    refine Sorts.congr ⟨hiff, hpeers⟩ ⟨fun hping => .inl ⟨hheard, hping⟩, ?_⟩
    rintro (⟨-, hping⟩ | ⟨hheard', -⟩)
    · exact hping
    · exact absurd (hheard.only hheard') (by decide)
  · obtain ⟨hiff, hpeers⟩ := handlerNodePong_sorts (hex.eases hio) hhandle
    refine Sorts.congr ⟨hiff, hpeers⟩ ⟨fun hpong => .inr ⟨hheard, hpong⟩, ?_⟩
    rintro (⟨hheard', -⟩ | ⟨-, hpong⟩)
    · exact absurd (hheard.only hheard') (by decide)
    · exact hpong

/-! ### Confirmed nodes -/

theorem pollOnePacket_eases (h : σ.io.Wired tidy) (hfound : σ.io.protocols uid = some p)
    (hpoll : σ.pollOnePacket host p polled = .ok τ) : Eases σ τ := by
  unfold pollOnePacket at hpoll
  split at hpoll
  · obtain rfl := Except.ok.inj hpoll
    exact .refl σ
  next n =>
  split at hpoll
  case isFalse =>
    obtain rfl := Except.ok.inj hpoll
    exact .refl σ
  next hcond =>
  obtain ⟨rfl, hmem⟩ := hcond
  refine notify_eases h (List.perm_cons_erase hmem) List.erase_sublist (fun htype => ?_) hpoll
  -- what is polled for is in the table, and what was accepted is not yet
  exact h.sound.waiting n (List.mem_filterMap.mpr ⟨_, hmem, rfl⟩) htype
    (h.sound.known_of_found hfound)

theorem confirm_eases (h : σ.io.Wired tidy) {confirmed : Bool}
    (hconfirm : σ.confirm host uid polled = .ok (confirmed, τ)) : Eases σ τ := by
  obtain rfl | ⟨p, σ', hfound, -, hpoll, hτ⟩ := confirm_cases hconfirm
  · exact .refl τ
  have heases := pollOnePacket_eases h hfound hpoll
  obtain rfl | ⟨-, rfl⟩ := hτ
  · exact heases
  · exact heases.trans (.same rfl rfl rfl)

theorem setupNode_eases {code type uid key : UInt32} {port : UInt16} {info : List UInt8}
    {answer : Option IONotify} (h : σ.io.Wired tidy) (hmade : p < σ.io.created)
    (hfresh : σ.io.Fresh tidy key)
    (hanswer : ∀ n, answer = some n → n.protocol = p ∧ n.uid = key ∧ n.type.about = some .LISTENER)
    (hsetup : σ.setupNode host code type port p info key answer = .ok (uid, τ)) : Eases σ τ := by
  rcases setupNode_cases h hmade hfresh hanswer hsetup with
    rfl | rfl | ⟨confirmed, σ', -, hstays, hconfirm, rfl⟩
  · exact .refl τ
  · exact .same rfl rfl rfl
  have hanswered : Eases σ ((σ.listening code type port p info key).answered answer) := by
    cases answer with
    | none => exact .same rfl rfl rfl
    | some n => exact .same rfl rfl rfl
  have heases := hanswered.trans (confirm_eases hstays.wired hconfirm)
  split
  · exact heases
  · exact heases.trans (.same rfl rfl rfl)

/-! ### New connections -/

section

omit [IntrusiveNode L]

variable {key : UInt32}

/-- A connection that is opened has a new uid. -/
theorem opened_eases {k : NodeId} (hattends : σ.Attends) (hpeerless : σ.Peerless)
    (hfree : σ.io.protocols key = none) (hpeers : τ.peersByUid = σ.peersByUid)
    (haccpeted : τ.accpetedNodes = σ.accpetedNodes)
    (hconnecting : τ.connectingNodes = Function.update σ.connectingNodes key (some k)) :
    Eases σ τ where
  peers _ hpeer := hpeers ▸ hpeer
  accpeted _ hwaits := haccpeted ▸ hwaits
  connecting uid hsome := by
    by_cases huid : uid = key
    · rw [haccpeted, hpeers, huid]
      exact .inr ⟨hattends.unfound hfree, hpeerless key⟩
    · rw [hconnecting, Function.update_of_ne huid] at hsome
      exact .inl hsome

theorem connectNode_eases (h : σ.io.Wired tidy) (hattends : σ.Attends) (hpeerless : σ.Peerless)
    {code type : UInt32} {address : CAddress} (hmade : p < σ.io.created)
    (hfresh : σ.io.Fresh tidy key) : Eases σ (σ.connectNode code type address p key).2 := by
  unfold connectNode
  split
  · exact .refl σ
  dsimp only
  split
  case isFalse => exact .same rfl rfl rfl
  next hnew =>
  rcases IOEngine.open_cases h hmade hfresh (.inr rfl) (.connect address p) rfl with
    ⟨hzero, -⟩ | hopened
  · exact absurd hzero hnew.1
  rw [hopened.returned]
  exact opened_eases hattends hpeerless hopened.free rfl rfl rfl

theorem reconnectNode_eases (h : σ.io.Wired tidy) (hattends : σ.Attends) (hpeerless : σ.Peerless)
    {code : UInt32} (hfresh : σ.io.Fresh tidy key) : Eases σ (σ.reconnectNode code key) := by
  unfold reconnectNode
  split
  · exact .refl σ
  next k _ =>
  unfold reconnect
  split
  · exact .refl σ
  dsimp only
  split
  case isFalse => exact .same rfl rfl rfl
  next hopens =>
  rcases IOEngine.open_cases (create_stays h).wired (Nat.lt_succ_self _) (fresh_create hfresh h)
    (.inr rfl) (.connect (σ.node k).address σ.io.created) rfl with ⟨hzero, -⟩ | hopened
  · exact absurd hzero hopens
  rw [hopened.returned]
  exact opened_eases hattends hpeerless hopened.free rfl rfl rfl

end

end

end NetEngine

end ZlNet.Engine
