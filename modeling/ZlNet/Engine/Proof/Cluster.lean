import ZlNet.Engine.Proof.Deeds
import ZlNet.Engine.Proof.Handshake

/-! The agreement of two nodes on a handshake, in whatever order the nodes of a cluster take their
steps. -/

namespace ZlNet.Engine

open Network Lib Lib.Bytes

namespace Cluster

section

variable {N L : Type} {c c' : Cluster N L} {e e' : End N} {i j : N}
  {p q : ProtocolId} {h : Handshake} {code type code' type' : UInt32} {k k' : Nat}

/-- The protocol at an end of a connection. -/
def protocol (c : Cluster N L) (e : End N) : Protocol := (c.engine e.1).io.protocol e.2

/-- The node of `e` has sent a ping that says that it comes from the node that `h` names. -/
def Pinged (c : Cluster N L) (e : End N) (h : Handshake) : Prop :=
  ∃ (k : Nat) (d : Deed N L), c.journal[k]? = some d ∧ d.node = e.1 ∧ d.Pings e.2 h.fromCode h.fromType

/-- The node of `e` has accepted the ping that the pong `h` answers. -/
def Ponged (c : Cluster N L) (e : End N) (h : Handshake) : Prop :=
  ∃ e', c.peer e = some e' ∧
    c.Accepted e' e h.toCode h.toType h.fromCode h.fromType c.journal.length

/-- A packet that the node of `e` has sent. -/
inductive Told (host : N → Endian) (c : Cluster N L) (e : End N) : IOPacket SerializeMessage → Prop
  | other {packet : IOPacket SerializeMessage} (hcmd : packet.cmd ≠ Ping ∧ packet.cmd ≠ Pong) :
      Told host c e packet
  | ping {uid : UInt32} {h : Handshake} {msg : SerializeMessage}
      (hpack : h.pack (host e.1) = .ok msg) (hpinged : c.Pinged e h) :
      Told host c e ⟨uid, Ping, 0, 0, some msg⟩
  | pong {uid : UInt32} {h : Handshake} {msg : SerializeMessage}
      (hpack : h.pack (host e.1) = .ok msg) (hponged : c.Ponged e h) :
      Told host c e ⟨uid, Pong, 0, 0, some msg⟩

/-- What arrived at `(i, p)` came from the other end of the connection. -/
structure Arrived (host : N → Endian) (c : Cluster N L) (i : N) (p : ProtocolId)
    (packet : IOPacket SerializeMessage) : Prop where
  told : ∃ e, c.peer (i, p) = some e ∧ c.Told host e packet
  short : ∀ msg, packet.message = some msg → msg.buffer.length < 2 ^ 31

/-- A connector and a session are the ends of a connection. -/
def Linked (c : Cluster N L) (e e' : End N) : Prop :=
  (c.protocol e).type = .CONNECTOR ∧ (c.protocol e').type = .SESSION ∨
    (c.protocol e).type = .SESSION ∧ (c.protocol e').type = .CONNECTOR

/-- When a step told that `p` has a peer, the node at the other end had accepted it. -/
def Agreed (c : Cluster N L) (k : Nat) (d : Deed N L) (p : ProtocolId) (code type : UInt32) : Prop :=
  ∃ e code' type', c.peer (d.node, p) = some e ∧ d.Own code' type' ∧
    c.Accepted (d.node, p) e code' type' code type k

structure Sound (host : N → Endian) (c : Cluster N L) : Prop where
  wired : ∀ i, (c.engine i).io.Wired True
  attends : ∀ i, (c.engine i).Attends
  bound : ∀ i, (c.engine i).Bound
  owned : ∀ e e', c.peer e = some e' → (c.protocol e).key ≠ 0
  linked : ∀ e e', c.peer e = some e' → c.peer e' = some e ∧ c.Linked e e'
  wires : ∀ e, ∀ packet ∈ c.wire e, c.Told host e packet
  queues : ∀ i packet, .msg packet ∈ (c.engine i).io.msgqueue → packet.cmd = Ping ∨ packet.cmd = Pong →
    ∀ p ∈ (c.engine i).io.outstanding, ((c.engine i).io.protocol p).key = packet.uid →
      c.Arrived host i p packet
  agreed : ∀ (k : Nat) (d : Deed N L), c.journal[k]? = some d → ∀ p uid code type,
    (p, .onNodeConnect uid code type) ∈ d.calls → (d.after.io.protocol p).type = .CONNECTOR →
      c.Agreed k d p code type

/-! ### What stays -/

/-- Steps are added to the journal, and connections stay as they are. -/
structure Grows (c c' : Cluster N L) : Prop where
  journal : c.journal <+: c'.journal
  peer : ∀ e e', c.peer e = some e' → c'.peer e = some e'

theorem Grows.entry (hgrows : c.Grows c') {d : Deed N L} (hk : c.journal[k]? = some d) :
    c'.journal[k]? = some d := by
  obtain ⟨hlt, hd⟩ := List.getElem?_eq_some_iff.mp hk
  obtain ⟨l, hl⟩ := hgrows.journal
  rw [← hl, List.getElem?_append_left hlt]
  exact hk

theorem Accepted.grows (hgrows : c.Grows c') (hle : k ≤ k')
    (h : c.Accepted e e' code type code' type' k) : c'.Accepted e e' code type code' type' k' := by
  obtain ⟨k₁, ping, k₂, accept, h₁₂, h₂, hping, hnode, hpings, haccept, hnode', haccepts, howns⟩ := h
  exact ⟨k₁, ping, k₂, accept, h₁₂, Nat.lt_of_lt_of_le h₂ hle, hgrows.entry hping, hnode, hpings,
    hgrows.entry haccept, hnode', haccepts, howns⟩

theorem Told.grows {host : N → Endian} {packet : IOPacket SerializeMessage} (hgrows : c.Grows c')
    (h : c.Told host e packet) : c'.Told host e packet := by
  cases h with
  | other hcmd => exact .other hcmd
  | ping hpack hpinged =>
    obtain ⟨k, d, hk, hnode, hpings⟩ := hpinged
    exact .ping hpack ⟨k, d, hgrows.entry hk, hnode, hpings⟩
  | pong hpack hponged =>
    obtain ⟨e', hpeer, haccepted⟩ := hponged
    exact .pong hpack ⟨e', hgrows.peer _ _ hpeer, haccepted.grows hgrows hgrows.journal.length_le⟩

theorem Arrived.grows {host : N → Endian} {packet : IOPacket SerializeMessage} (hgrows : c.Grows c')
    (h : c.Arrived host i p packet) : c'.Arrived host i p packet := by
  obtain ⟨⟨e, hpeer, htold⟩, hshort⟩ := h
  exact ⟨⟨e, hgrows.peer _ _ hpeer, htold.grows hgrows⟩, hshort⟩

theorem Agreed.grows {d : Deed N L} (hgrows : c.Grows c') (h : c.Agreed k d p code type) :
    c'.Agreed k d p code type := by
  obtain ⟨e, code', type', hpeer, hown, haccepted⟩ := h
  exact ⟨e, code', type', hgrows.peer _ _ hpeer, hown, haccepted.grows hgrows (Nat.le_refl k)⟩

end

/-! ### Steps of a node -/

section

variable {N L : Type} {σ τ : NetEngine L} {i : N} {p : ProtocolId}
  {sent : List (UInt32 × IOPacket SerializeMessage)} {calls : List (ProtocolId × NodeCall)}

theorem mem_deed_sent (hspeaks : NetEngine.Speaks True σ sent calls τ)
    {packet : IOPacket SerializeMessage} : (p, packet) ∈ (⟨i, σ, τ⟩ : Deed N L).sent ↔
      ∃ uid, (uid, packet) ∈ sent ∧ σ.io.protocols uid = some p := by
  simp only [Deed.sent, hspeaks.sends, List.drop_left, List.mem_filterMap, Option.map_eq_some_iff,
    Prod.mk.injEq]
  constructor
  · rintro ⟨⟨uid, _⟩, hmem, _, hfound, rfl, rfl⟩
    exact ⟨uid, hmem, hfound⟩
  · rintro ⟨uid, hmem, hfound⟩
    exact ⟨_, hmem, p, hfound, rfl, rfl⟩

theorem mem_deed_calls (hspeaks : NetEngine.Speaks True σ sent calls τ) {call : ProtocolId × NodeCall} :
    call ∈ calls ↔ call ∈ (⟨i, σ, τ⟩ : Deed N L).calls ∧ call.2.connects = true := by
  obtain ⟨told, htold, rfl⟩ := hspeaks.calls
  simp only [Deed.calls, htold, List.drop_left, List.mem_filter]

end

section

variable {N L : Type} [DecidableEq N] {host : N → Endian} {c c' : Cluster N L}
  {e e' : End N} {i j : N} {p q : ProtocolId} {h : Handshake} {τ : NetEngine L}
  {sent : List (UInt32 × IOPacket SerializeMessage)} {calls : List (ProtocolId × NodeCall)}
  {packet : IOPacket SerializeMessage}

theorem act_grows : c.Grows (c.act i τ) := ⟨List.prefix_append .., fun _ _ => id⟩

theorem act_deed : (c.act i τ).journal[c.journal.length]? = some ⟨i, c.engine i, τ⟩ := by
  simp [act]

omit [DecidableEq N] in
/-- What waits in the queue for a protocol that is found. -/
theorem Sound.arrived (hsound : c.Sound host) (hpacket : .msg packet ∈ (c.engine i).io.msgqueue)
    (hcmd : packet.cmd = Ping ∨ packet.cmd = Pong)
    (hfound : (c.engine i).io.protocols packet.uid = some p) : c.Arrived host i p packet := by
  obtain ⟨hheld, hkey⟩ := (hsound.wired i).sound.entry packet.uid p hfound
  exact hsound.queues i packet hpacket hcmd p hheld hkey

/-- The handshake that is unpacked of a message is the one that was packed in it, up to the text. -/
theorem unpacked {host host' : Endian} {h h' : Handshake} {msg : SerializeMessage}
    (hpack : h.pack host = .ok msg) (hshort : msg.buffer.length < 2 ^ 31)
    (hunpack : Handshake.unpack host' msg = .ok h') : ∃ info, h' = { h with info } := by
  obtain ⟨info, hinfo⟩ : ∃ info, Handshake.unpack host' msg = .ok { h with info } :=
    unpack_of_pack hpack hshort
  exact ⟨info, Except.ok.inj (hunpack.symm.trans hinfo)⟩

/-- A node that accepts a ping has it from the other end of the connection. -/
theorem admits_accepted (hsound : c.Sound host) {pong : SerializeMessage}
    (hpacket : .msg packet ∈ (c.engine i).io.msgqueue) (hcmd : packet.cmd = Ping)
    (hadmits : NetEngine.Admits (host i) (c.engine i) p packet h pong τ)
    (hspeaks : NetEngine.Speaks True (c.engine i)
      [(packet.uid, ⟨packet.uid, Pong, 0, 0, some pong⟩)]
      [(p, .onNodeConnect packet.uid h.fromCode h.fromType)] τ) :
    ∃ e, c.peer (i, p) = some e ∧ (c.act i τ).Accepted e (i, p) h.fromCode h.fromType
      (c.engine i).nodeCode (c.engine i).nodeType (c.act i τ).journal.length := by
  obtain ⟨⟨e, hpeer, htold⟩, hshort⟩ := hsound.arrived hpacket (.inl hcmd) hadmits.found
  obtain ⟨ping, hmessage, hunpack⟩ := hadmits.unpacks
  cases htold with
  | other hother => exact absurd hcmd hother.1
  | pong => exact absurd hcmd (show Pong ≠ Ping by decide)
  | @ping uid h₀ msg hpack hpinged =>
  obtain rfl := Option.some.inj hmessage
  obtain ⟨info, rfl⟩ := unpacked hpack (hshort msg rfl) hunpack
  obtain ⟨k, d, hk, hnode, hpings⟩ := hpinged
  have hlt : k < c.journal.length := (List.getElem?_eq_some_iff.mp hk).1
  refine ⟨e, hpeer, k, d, c.journal.length, ⟨i, c.engine i, τ⟩, hlt, by simp [act],
    act_grows.entry hk, hnode, hpings, act_deed, rfl, ?_, ⟨rfl, rfl⟩, hadmits.owns⟩
  obtain ⟨n, hn, hcode, htype⟩ := hadmits.peer
  constructor
  · exact ⟨_, n, hadmits.known, hadmits.fresh, hn, hcode, htype,
      ((mem_deed_calls hspeaks).mp List.mem_cons_self).1⟩
  · exact ⟨_, (mem_deed_sent hspeaks).mpr ⟨_, List.mem_cons_self, hadmits.found⟩, rfl⟩

/-- What a step of a node sends. -/
theorem said_told (hsound : c.Sound host) (hspeaks : NetEngine.Speaks True (c.engine i) sent calls τ)
    (hsaid : NetEngine.Said (host i) (c.engine i) τ sent calls)
    (hsent : (p, packet) ∈ (⟨i, c.engine i, τ⟩ : Deed N L).sent) :
    (c.act i τ).Told host (i, p) packet := by
  obtain ⟨uid, hmem, hfound⟩ := (mem_deed_sent hspeaks).mp hsent
  cases hsaid with
  | plain hplain => exact .other (hplain _ hmem)
  | greets hgreets =>
    cases hgreets with
    | silent => cases hmem
    | ping hpack hbefore hafter =>
      obtain ⟨rfl, rfl⟩ := Prod.mk.inj (List.mem_singleton.mp hmem)
      exact .ping hpack ⟨_, _, act_deed, rfl, ⟨hbefore, hafter⟩, _, hsent, rfl⟩
  | admits hpacket hcmd hadmits =>
    obtain ⟨rfl, rfl⟩ := Prod.mk.inj (List.mem_singleton.mp hmem)
    obtain rfl := Option.some.inj (hfound.symm.trans hadmits.found)
    obtain ⟨e, hpeer, haccepted⟩ := admits_accepted hsound hpacket hcmd hadmits hspeaks
    exact .pong hadmits.packs ⟨e, hpeer, haccepted⟩
  | meets => cases hmem

/-- What users of a connector are told of a peer. -/
theorem said_agreed (hsound : c.Sound host)
    (hspeaks : NetEngine.Speaks True (c.engine i) sent calls τ)
    (hsaid : NetEngine.Said (host i) (c.engine i) τ sent calls)
    (hlater : (c.engine i).io.connections.Later τ.io.connections) {uid code type : UInt32}
    (hcall : (p, .onNodeConnect uid code type) ∈ (⟨i, c.engine i, τ⟩ : Deed N L).calls)
    (htype : (τ.io.protocol p).type = .CONNECTOR) :
    (c.act i τ).Agreed c.journal.length ⟨i, c.engine i, τ⟩ p code type := by
  have hmem := (mem_deed_calls hspeaks).mpr ⟨hcall, rfl⟩
  cases hsaid with
  | plain => cases hmem
  | greets => cases hmem
  | admits _ _ hadmits =>
    obtain ⟨rfl, -⟩ := Prod.mk.inj (List.mem_singleton.mp hmem)
    have hheld := ((hsound.wired i).sound.entry _ p hadmits.found).1
    have hsame : (τ.io.protocol p).type = ((c.engine i).io.protocol p).type :=
      (hlater.keys p ((hsound.wired i).sound.owned p hheld)).2
    rw [hsame, hadmits.session] at htype
    cases htype
  | meets hpacket hcmd hmeets =>
    obtain ⟨rfl, hcall⟩ := Prod.mk.inj (List.mem_singleton.mp hmem)
    obtain ⟨-, rfl, rfl⟩ := NodeCall.onNodeConnect.inj hcall
    obtain ⟨⟨e, hpeer, htold⟩, hshort⟩ := hsound.arrived hpacket (.inr hcmd) hmeets.found
    obtain ⟨pong, hmessage, hunpack⟩ := hmeets.unpacks
    cases htold with
    | other hother => exact absurd hcmd hother.2
    | ping => exact absurd hcmd (show Ping ≠ Pong by decide)
    | @pong uid h₀ msg hpack hponged =>
    obtain rfl := Option.some.inj hmessage
    obtain ⟨info, rfl⟩ := unpacked hpack (hshort msg rfl) hunpack
    obtain ⟨e', hpeer', haccepted⟩ := hponged
    obtain rfl := Option.some.inj (hpeer'.symm.trans (hsound.linked _ _ hpeer).1)
    exact ⟨e, _, _, hpeer, ⟨hmeets.owned, hmeets.owns⟩,
      haccepted.grows act_grows (Nat.le_refl _)⟩

/-- The engine of one node changes. -/
theorem Sound.next (hsound : c.Sound host) (hengine : c'.engine = Function.update c.engine i τ)
    (hpeer : c'.peer = c.peer) (hgrows : c.Grows c')
    (hlater : (c.engine i).io.connections.Later τ.io.connections) (hwired : τ.io.Wired True)
    (hattends : τ.Attends) (hbound : τ.Bound)
    (hqueue : ∀ packet, .msg packet ∈ τ.io.msgqueue → packet.cmd = Ping ∨ packet.cmd = Pong →
      ∀ p ∈ τ.io.outstanding, (τ.io.protocol p).key = packet.uid → c'.Arrived host i p packet)
    (hwires : ∀ e, ∀ packet ∈ c'.wire e, c'.Told host e packet)
    (hagreed : ∀ (k : Nat) (d : Deed N L), c'.journal[k]? = some d → c.journal[k]? = some d ∨
      ∀ p uid code type, (p, .onNodeConnect uid code type) ∈ d.calls →
        (d.after.io.protocol p).type = .CONNECTOR → c'.Agreed k d p code type) :
    c'.Sound host := by
  have all (P : N → NetEngine L → Prop) (hself : P i τ) (hother : ∀ j, P j (c.engine j)) (j : N) :
      P j (c'.engine j) := by
    rw [hengine]
    exact (Function.forall_update_iff c.engine P).mpr ⟨hself, fun j _ => hother j⟩ j
  have hprotocol {e : End N} (hkey : (c.protocol e).key ≠ 0) :
      (c'.protocol e).key = (c.protocol e).key ∧ (c'.protocol e).type = (c.protocol e).type := by
    by_cases hnode : e.1 = i
    · obtain ⟨i, p⟩ := e
      subst hnode
      simp only [protocol, hengine, Function.update_self]
      exact hlater.keys p hkey
    · simp only [protocol, hengine, Function.update_of_ne hnode, and_self]
  constructor
  case wired => exact all (fun _ σ => σ.io.Wired True) hwired hsound.wired
  case attends => exact all (fun _ σ => σ.Attends) hattends hsound.attends
  case bound => exact all (fun _ σ => σ.Bound) hbound hsound.bound
  case owned =>
    intro e e' he
    rw [hpeer] at he
    rw [(hprotocol (hsound.owned e e' he)).1]
    exact hsound.owned e e' he
  case linked =>
    intro e e' he
    rw [hpeer] at he ⊢
    obtain ⟨he', hlinked⟩ := hsound.linked e e' he
    refine ⟨he', ?_⟩
    rw [Linked, (hprotocol (hsound.owned e e' he)).2, (hprotocol (hsound.owned e' e he')).2]
    exact hlinked
  case wires => exact hwires
  case queues =>
    refine all (fun j σ => ∀ packet, .msg packet ∈ σ.io.msgqueue →
      packet.cmd = Ping ∨ packet.cmd = Pong → ∀ p ∈ σ.io.outstanding,
        (σ.io.protocol p).key = packet.uid → c'.Arrived host j p packet) hqueue ?_
    intro j packet hpacket hcmd p hp hkey
    exact (hsound.queues j packet hpacket hcmd p hp hkey).grows hgrows
  case agreed =>
    intro k d hk p uid code type hcall htype
    rcases hagreed k d hk with hold | hnew
    · exact (hsound.agreed k d hold p uid code type hcall htype).grows hgrows
    · exact hnew p uid code type hcall htype

omit [DecidableEq N] in
/-- What arrives of a packet that the node of `e` has sent. -/
theorem Told.arrives {host' : Endian} {key : UInt32} {frame rest : List UInt8} {dispatch : Dispatch}
    (htold : c.Told host e packet) (hsend : sendFrame host' packet.outgoing = .ok frame)
    (hshort : (frameOf packet.outgoing packet.body).length < 2 ^ 31)
    (hread : nextFrame key frame = .item dispatch rest) {packet' : IOPacket SerializeMessage}
    (hdispatch : dispatch = .packet packet') (hcmd : packet'.cmd = Ping ∨ packet'.cmd = Pong) :
    c.Told host e packet' ∧ ∀ msg, packet'.message = some msg → msg.buffer.length < 2 ^ 31 := by
  cases htold with
  | other hother =>
    subst hdispatch
    obtain ⟨-, hsame⟩ := arrives_cmd hsend hshort hread
    rw [hsame] at hcmd
    exact absurd hcmd (not_or.mpr hother)
  | ping hpack hpinged =>
    obtain ⟨hsame, hlength⟩ := arrives_handshake (.inl rfl) hpack hsend hshort hread
    obtain rfl := Dispatch.packet.inj (hdispatch.symm.trans hsame)
    refine ⟨.ping hpack hpinged, fun msg hmsg => ?_⟩
    obtain rfl := Option.some.inj hmsg
    exact hlength
  | pong hpack hponged =>
    obtain ⟨hsame, hlength⟩ := arrives_handshake (.inr rfl) hpack hsend hshort hread
    obtain rfl := Dispatch.packet.inj (hdispatch.symm.trans hsame)
    refine ⟨.pong hpack hponged, fun msg hmsg => ?_⟩
    obtain rfl := Option.some.inj hmsg
    exact hlength

/-- What is still on its way when the oldest packet from `e` is not any more. -/
theorem Sound.taken (hsound : c.Sound host) {rest : List (IOPacket SerializeMessage)}
    (hwire : c.wire e = packet :: rest) (hrest : c'.wire = Function.update c.wire e rest)
    (hgrows : c.Grows c') (e' : End N) (packet' : IOPacket SerializeMessage)
    (hmem : packet' ∈ c'.wire e') : c'.Told host e' packet' := by
  refine (hsound.wires e' packet' ?_).grows hgrows
  rw [hrest] at hmem
  by_cases heq : e' = e
  · subst heq
    rw [Function.update_self] at hmem
    exact hwire ▸ List.mem_cons_of_mem _ hmem
  · rwa [Function.update_of_ne heq] at hmem

theorem lose_sound (hsound : c.Sound host) {rest : List (IOPacket SerializeMessage)}
    (hwire : c.wire e = packet :: rest) : (c.lose e rest).Sound host := by
  have hgrows : c.Grows (c.lose e rest) := ⟨List.prefix_rfl, fun _ _ => id⟩
  refine hsound.next (i := e.1) (Function.update_eq_self ..).symm rfl hgrows (.refl _)
    (hsound.wired e.1) (hsound.attends e.1) (hsound.bound e.1) ?_ (hsound.taken hwire rfl hgrows)
    fun _ _ hk => .inl hk
  intro packet' hpacket hcmd p hp hkey
  exact (hsound.queues e.1 packet' hpacket hcmd p hp hkey).grows hgrows

theorem deliver_grows {rest : List (IOPacket SerializeMessage)} {dispatch : Dispatch} :
    c.Grows (c.deliver e j rest dispatch) := ⟨List.prefix_rfl, fun _ _ => id⟩

theorem deliver_sound (hsound : c.Sound host) {rest : List (IOPacket SerializeMessage)}
    {frame : List UInt8} {dispatch : Dispatch} (hwire : c.wire e = packet :: rest)
    (hpeer : c.peer e = some (j, q)) (hq : q ∈ (c.engine j).io.outstanding)
    (hsend : sendFrame (host e.1) packet.outgoing = .ok frame)
    (hshort : (frameOf packet.outgoing packet.body).length < 2 ^ 31)
    (hread : nextFrame ((c.engine j).io.protocol q).key frame = .item dispatch []) :
    (c.deliver e j rest dispatch).Sound host := by
  obtain ⟨hpeer', hlinked⟩ := hsound.linked e (j, q) hpeer
  have htold : c.Told host e packet := hsound.wires e packet (hwire ▸ List.mem_cons_self)
  have hwires : ∀ e', ∀ packet' ∈ (c.deliver e j rest dispatch).wire e',
      (c.deliver e j rest dispatch).Told host e' packet' := hsound.taken hwire rfl deliver_grows
  cases dispatch with
  | heart =>
    refine hsound.next rfl rfl deliver_grows (.refl _) (hsound.wired j) (hsound.attends j)
      (hsound.bound j) ?_ hwires fun _ _ hk => .inl hk
    intro packet' hpacket hcmd p hp hkey
    exact (hsound.queues j packet' hpacket hcmd p hp hkey).grows deliver_grows
  | packet packet' =>
    obtain ⟨huid, -⟩ := arrives_cmd hsend hshort hread
    have hlistener : ((c.engine j).io.protocol q).type ≠ .LISTENER := by
      rcases hlinked with ⟨-, htype⟩ | ⟨-, htype⟩
      · exact fun hlistener => by simp [protocol, hlistener] at htype
      · exact fun hlistener => by simp [protocol, hlistener] at htype
    have hstays : NetEngine.Stays True (c.engine j).io ((c.engine j).io.postPacket (.msg packet')) :=
      NetEngine.postMsg_stays (hsound.wired j) ⟨q, hq, huid.symm, hlistener⟩
    refine hsound.next rfl rfl deliver_grows hstays.later hstays.wired (hsound.attends j)
      (hsound.bound j) ?_ hwires fun _ _ hk => .inl hk
    intro packet'' hpacket hcmd p hp hkey
    rcases List.mem_append.mp hpacket with hold | hnew
    · exact (hsound.queues j packet'' hold hcmd p hp hkey).grows deliver_grows
    obtain rfl := Packet.msg.inj (List.mem_singleton.mp hnew)
    obtain rfl := (hsound.wired j).sound.unique p hp q hq (hkey.trans huid)
    obtain ⟨htold', hlength⟩ := htold.arrives hsend hshort hread rfl hcmd
    exact ⟨⟨e, hpeer', htold'.grows deliver_grows⟩, hlength⟩

theorem join_sound (hsound : c.Sound host) (hp : p ∈ (c.engine i).io.outstanding)
    (hconnector : ((c.engine i).io.protocol p).type = .CONNECTOR) (hfirst : c.peer (i, p) = none)
    (hq : q ∈ (c.engine j).io.outstanding)
    (hsession : ((c.engine j).io.protocol q).type = .SESSION) (hfirst' : c.peer (j, q) = none) :
    (c.join (i, p) (j, q)).Sound host := by
  have hne : (i, p) ≠ (j, q) := by
    intro heq
    obtain ⟨rfl, rfl⟩ := Prod.mk.inj heq
    rw [hconnector] at hsession
    cases hsession
  have hpeer (e : End N) (he : e ≠ (i, p)) (he' : e ≠ (j, q)) :
      (c.join (i, p) (j, q)).peer e = c.peer e := by
    simp only [join, Function.update_of_ne he', Function.update_of_ne he]
  have hpeer₁ : (c.join (i, p) (j, q)).peer (i, p) = some (j, q) := by
    simp only [join, Function.update_of_ne hne, Function.update_self]
  have hpeer₂ : (c.join (i, p) (j, q)).peer (j, q) = some (i, p) := by
    simp only [join, Function.update_self]
  have hgrows : c.Grows (c.join (i, p) (j, q)) := by
    refine ⟨List.prefix_rfl, fun e e' he => ?_⟩
    rw [hpeer e]
    · exact he
    · rintro rfl
      simp [hfirst] at he
    · rintro rfl
      simp [hfirst'] at he
  constructor
  case wired => exact hsound.wired
  case attends => exact hsound.attends
  case bound => exact hsound.bound
  case owned =>
    intro e e' he
    by_cases h₁ : e = (i, p)
    · subst h₁
      exact (hsound.wired i).sound.owned p hp
    by_cases h₂ : e = (j, q)
    · subst h₂
      exact (hsound.wired j).sound.owned q hq
    rw [hpeer e h₁ h₂] at he
    exact hsound.owned e e' he
  case linked =>
    intro e e' he
    by_cases h₁ : e = (i, p)
    · subst h₁
      obtain rfl := Option.some.inj (hpeer₁.symm.trans he)
      exact ⟨hpeer₂, .inl ⟨hconnector, hsession⟩⟩
    by_cases h₂ : e = (j, q)
    · subst h₂
      obtain rfl := Option.some.inj (hpeer₂.symm.trans he)
      exact ⟨hpeer₁, .inr ⟨hsession, hconnector⟩⟩
    rw [hpeer e h₁ h₂] at he
    obtain ⟨he', hlinked⟩ := hsound.linked e e' he
    exact ⟨hgrows.peer _ _ he', hlinked⟩
  case wires => exact fun e packet hpacket => (hsound.wires e packet hpacket).grows hgrows
  case queues =>
    intro k packet hpacket hcmd p' hp' hkey
    exact (hsound.queues k packet hpacket hcmd p' hp' hkey).grows hgrows
  case agreed =>
    intro k d hk p' uid code type hcall htype
    exact (hsound.agreed k d hk p' uid code type hcall htype).grows hgrows

variable [IntrusiveNode L]

theorem act_sound (hsound : c.Sound host) {a : NetAction} (honest : a.Honest)
    (hstep : (c.engine i).Permitted (host i) a τ) (htidy : (c.engine i).Tidy a) :
    (c.act i τ).Sound host := by
  have hmoves : NetEngine.Moves False True (c.engine i) τ :=
    NetEngine.step_moves (hsound.wired i) hstep False.elim fun _ => htidy
  obtain ⟨sent, calls, hspeaks, hsaid⟩ :=
    NetEngine.step_said (hsound.wired i) (hsound.attends i) (hsound.bound i) honest hstep
      fun _ => htidy
  refine hsound.next rfl rfl act_grows hmoves.later hmoves.wired (hspeaks.attends (hsound.attends i))
    (hspeaks.bound (hsound.bound i)) ?_ ?_ ?_
  · intro packet hpacket hcmd p hp hkey
    obtain ⟨hpacket, hp, hkey⟩ := hspeaks.retains trivial packet hpacket p hp hkey
    exact (hsound.queues i packet hpacket hcmd p hp hkey).grows act_grows
  · intro e packet hpacket
    simp only [act] at hpacket
    split at hpacket
    · next hnode =>
      obtain ⟨i, p⟩ := e
      subst hnode
      rcases List.mem_append.mp hpacket with hold | hnew
      · exact (hsound.wires _ packet hold).grows act_grows
      obtain ⟨⟨p', packet'⟩, hmem, rfl⟩ := List.mem_map.mp hnew
      obtain ⟨hmem, hp⟩ := List.mem_filter.mp hmem
      obtain rfl : p' = p := of_decide_eq_true hp
      exact said_told hsound hspeaks hsaid hmem
    · exact (hsound.wires e packet hpacket).grows act_grows
  · intro k d hk
    rcases Nat.lt_or_ge k c.journal.length with hlt | hge
    · exact .inl (by rwa [act, List.getElem?_append_left hlt] at hk)
    · rw [act, List.getElem?_append_right hge, List.getElem?_singleton] at hk
      split at hk
      · next hzero =>
        obtain rfl := Option.some.inj hk
        obtain rfl : k = c.journal.length := by omega
        exact .inr fun p uid code type hcall htype =>
          said_agreed hsound hspeaks hsaid hmoves.later hcall htype
      · cases hk

/-! ### Runs -/

omit [DecidableEq N] in
theorem sound_init : (init : Cluster N L).Sound host where
  wired _ := NetEngine.wired_init
  attends _ _ huid := absurd huid Bool.false_ne_true
  bound _ _ := ⟨nofun, nofun⟩
  owned _ _ he := by cases he
  linked _ _ he := by cases he
  wires _ _ hpacket := by cases hpacket
  queues _ _ hpacket := by cases hpacket
  agreed _ _ hk := by cases hk

theorem step_sound {a : ClusterAction N} (hsound : c.Sound host) (hstep : Step host c a c')
    (htidy : c.Tidy a) : c'.Sound host := by
  cases hstep with
  | act honest hstep => exact act_sound hsound honest hstep (htidy _ _ rfl)
  | join hp hconnector hfirst hq hsession hfirst' =>
    exact join_sound hsound hp hconnector hfirst hq hsession hfirst'
  | deliver hwire hpeer hq hsend hshort hread =>
    exact deliver_sound hsound hwire hpeer hq hsend hshort hread
  | lose hwire => exact lose_sound hsound hwire

theorem sound_run {as : List (ClusterAction N)}
    (run : Run (fun c a c' => Step host c a c' ∧ c.Tidy a) init as c) : c.Sound host :=
  run.invariant (Sound host) (fun _ _ _ hsound hstep => step_sound hsound hstep.1 hstep.2) sound_init

/-- A node takes steps that do not fail, one after another, in a run that is evaluated. -/
def acts (host : N → Endian) (c : Cluster N L) (i : N) (as : List NetAction) : Cluster N L :=
  as.foldl (fun c a => c.act i ((c.engine i).next (host i) a)) c

theorem acts_run {also : NetEngine L → NetAction → Prop} {as : List NetAction}
    (h : NetEngine.Allowed (host i) (fun σ a => a.Honest ∧ also σ a) (c.engine i) as) :
    Run (fun c a c' => Step host c a c' ∧ ∀ j b, a = .act j b → also (c.engine j) b) c
      (as.map (.act i)) (c.acts host i as) := by
  induction as generalizing c with
  | nil => exact .nil
  | cons a as ih =>
    obtain ⟨hhead, hok, hcontract, ⟨honest, halso⟩, hrest⟩ := h
    refine .cons ⟨.act honest ⟨hhead, NetEngine.exec_next hok, hcontract⟩, ?_⟩ (ih ?_)
    · rintro _ _ ⟨⟩
      exact halso
    · rw [show (c.act i _).engine i = _ from Function.update_self ..]
      exact hrest

end

/-- What the node of the code 7 and the type 1 does until it has accepted a connection. -/
def acceptActions : List NetAction :=
  [.onInit, .io .create, .setupNode 7 1 80 0 [] 1 (some ⟨.PacketListen, 1, 0, none, true⟩),
    .io (.accept 2 0), .io (.dispatch (.notify ⟨.PacketAccept, 2, 1, some 0, true⟩))]

/-- What the node of the code 8 and the type 2 does until it has connected with that. -/
def connectActions : List NetAction :=
  [.onInit, .io .create, .setupNode 8 2 81 0 [] 1 (some ⟨.PacketListen, 1, 0, none, true⟩),
    .io .create, .connectNode 7 1 ⟨0, 80⟩ 1 2,
    .io (.post (.notify ⟨.PacketConnect, 2, 1, none, true⟩)),
    .io (.dispatch (.notify ⟨.PacketConnect, 2, 1, none, true⟩))]

def ping8 : IOPacket SerializeMessage :=
  ⟨2, Ping, 0, 0, some ⟨0, [0, 0, 0, 8, 0, 0, 0, 2, 0, 0, 0, 0, 0, 0, 0, 7, 0, 0, 0, 1]⟩⟩

def pong8 : IOPacket SerializeMessage :=
  ⟨2, Pong, 0, 0, some ⟨0, [0, 0, 0, 7, 0, 0, 0, 1, 0, 0, 0, 0, 0, 0, 0, 8, 0, 0, 0, 2]⟩⟩

/-- The two nodes, with the ping on its way. -/
def greeted : Cluster Bool (List HandlerId) :=
  let _ := IntrusiveNode.list
  ((init.acts (fun _ => .little) true acceptActions).acts (fun _ => .little) false
    connectActions).join (false, 1) (true, 1)

/-- The ping has arrived, and the pong is on its way. -/
def welcomed : Cluster Bool (List HandlerId) :=
  let _ := IntrusiveNode.list
  (greeted.deliver (false, 1) true [] (.packet ping8)).acts (fun _ => .little) true
    [.io (.dispatch (.msg ping8))]

/-- The pong has arrived. -/
def agreed : Cluster Bool (List HandlerId) :=
  let _ := IntrusiveNode.list
  (welcomed.deliver (true, 1) false [] (.packet pong8)).acts (fun _ => .little) false
    [.io (.dispatch (.msg pong8))]

theorem greeted_run : ∃ as, Run (fun c a c' => @Step Bool _ _ .list (fun _ => .little) c a c' ∧
    c.Tidy a) (@init _ _ .list) as greeted := by
  let _ := IntrusiveNode.list
  let started : Cluster Bool (List HandlerId) := init
  let listening := started.acts (fun _ => .little) true acceptActions
  have haccept : NetEngine.Allowed .little (fun σ a => a.Honest ∧ σ.Tidy a) (started.engine true)
      acceptActions :=
    ⟨nofun, by decide +kernel, trivial, ⟨trivial, trivial⟩,
      nofun, by decide +kernel, ⟨trivial, trivial⟩, ⟨trivial, trivial⟩,
      nofun, by decide +kernel,
        ⟨by decide +kernel, .inr (by decide +kernel), by rintro n ⟨⟩; decide⟩,
        ⟨trivial, .inr (by rintro _ ⟨⟩)⟩,
      nofun, by decide +kernel,
        ⟨⟨by decide +kernel, .inr (by decide +kernel)⟩, trivial⟩,
        ⟨trivial, .inr (by rintro _ ⟨⟩)⟩,
      by rintro _ ⟨⟩; decide +kernel, by decide +kernel, ⟨trivial, trivial⟩, ⟨trivial, trivial⟩,
      trivial⟩
  have hconnect : NetEngine.Allowed .little (fun σ a => a.Honest ∧ σ.Tidy a)
      (listening.engine false) connectActions :=
    ⟨nofun, by decide +kernel, trivial, ⟨trivial, trivial⟩,
      nofun, by decide +kernel, ⟨trivial, trivial⟩, ⟨trivial, trivial⟩,
      nofun, by decide +kernel,
        ⟨by decide +kernel, .inr (by decide +kernel), by rintro n ⟨⟩; decide⟩,
        ⟨trivial, .inr (by rintro _ ⟨⟩)⟩,
      nofun, by decide +kernel, ⟨trivial, trivial⟩, ⟨trivial, trivial⟩,
      nofun, by decide +kernel,
        ⟨by decide +kernel, .inr (by decide +kernel)⟩, ⟨trivial, .inr (by rintro _ ⟨⟩)⟩,
      nofun, by decide +kernel,
        ⟨⟨by decide +kernel, by decide +kernel, by decide +kernel⟩, trivial⟩, ⟨trivial, trivial⟩,
      by rintro _ ⟨⟩; decide +kernel, by decide +kernel, ⟨trivial, trivial⟩, ⟨trivial, trivial⟩,
      trivial⟩
  have run : Run (fun c a c' => Step (fun _ => .little) c a c' ∧ c.Tidy a) started _ _ :=
    (acts_run haccept).append (acts_run hconnect)
  exact ⟨_, run.snoc ⟨.join (by decide +kernel) (by decide +kernel) (by decide +kernel)
    (by decide +kernel) (by decide +kernel) (by decide +kernel), nofun⟩⟩

theorem welcomed_run : ∃ as, Run (fun c a c' => @Step Bool _ _ .list (fun _ => .little) c a c' ∧
    c.Tidy a) (@init _ _ .list) as welcomed := by
  let _ := IntrusiveNode.list
  obtain ⟨as, run⟩ := greeted_run
  have hping : greeted.wire (false, 1) = [ping8] := by decide +kernel
  have hpeer : greeted.peer (false, 1) = some (true, 1) := by decide +kernel
  have hwelcomed : Run (fun c a c' => Step (fun _ => .little) c a c' ∧ c.Tidy a) greeted _ welcomed :=
    .cons ⟨.deliver hping hpeer (by decide +kernel)
        (sendFrame_outgoing (.inl (by decide)) (by decide)) (by decide) (by rfl), nofun⟩
      (acts_run ⟨by rintro _ ⟨⟩; decide +kernel, by decide +kernel, ⟨trivial, trivial⟩,
        ⟨trivial, trivial⟩, trivial⟩)
  exact ⟨_, run.append hwelcomed⟩

/-- The network of the node 8 shuts the connection before the pong arrives. -/
def shut : Cluster Bool (List HandlerId) :=
  let _ := IntrusiveNode.list
  welcomed.acts (fun _ => .little) false
    [.io (.post (.notify ⟨.PacketDisconnect, 2, 1, none, false⟩))]

end Cluster

end ZlNet.Engine
