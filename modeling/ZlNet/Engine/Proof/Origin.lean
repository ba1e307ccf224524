import ZlNet.Engine.Proof.SendError

/-! Where packets come from.  A packet of data names its connection by a key only, and keys are given
out again.  What is dispatched comes from the connection that is found under its key, since a packet
stays in front of all that is told of a later owner of the key. -/

namespace ZlNet.Engine

open Lib Network

namespace Connections

variable {c c' : Connections} {p q : ProtocolId} {n : IONotify}

/-- Who owns a key after a step that handles no notification owned it before, and is available as it
was, or owns it only now and is not available. -/
theorem Change.owner (h : c.Sound) (hchange : Change c none c') (hq : q ∈ c'.outstanding) :
    q ∈ c.outstanding ∧ (c'.protocol q).key = (c.protocol q).key ∧
        (c'.protocol q).available = (c.protocol q).available ∨
      q ∉ c.outstanding ∧ (c'.protocol q).available = false := by
  cases hchange with
  | same | create | posted => exact .inl ⟨hq, rfl, rfl⟩
  | recycled => exact .inl ⟨List.mem_of_mem_erase hq, rfl, rfl⟩
  | @opened p type key hblank =>
    by_cases heq : q = p
    · subst heq
      exact .inr ⟨fun hmem => h.owned q hmem hblank, touch_available⟩
    · refine .inl ⟨(List.mem_cons.mp hq).resolve_left heq, ?_, ?_⟩
      · rw [touch_key, own_ne heq]
      · rw [touch_protocol_ne heq, own_ne heq]
  | made =>
    by_cases heq : q = c.created
    · subst heq
      refine .inr ⟨fun hmem => ?_, congrArg Protocol.available own_self⟩
      exact absurd (h.made _ (h.owned _ hmem)) (Nat.lt_irrefl _)
    · exact .inl ⟨(List.mem_cons.mp hq).resolve_left heq, congrArg Protocol.key (own_ne heq),
        congrArg Protocol.available (own_ne heq)⟩
  | @closed p =>
    refine .inl ⟨hq, touch_key, ?_⟩
    by_cases heq : q = p
    · rw [heq, touch_available]
    · rw [touch_protocol_ne heq]

/-- A step that handles a notification changes only the protocol that it is about. -/
theorem Change.handled_other (hchange : Change c (some n) c') :
    c'.outstanding = c.outstanding ∧ ∀ q, q ≠ n.protocol → c'.protocol q = c.protocol q := by
  cases hchange with
  | handled _ h =>
    cases h with
    | ignored => exact ⟨rfl, fun _ _ => rfl⟩
    | _ => exact ⟨rfl, fun _ hne => touch_protocol_ne hne⟩

end Connections

/-- A packet of the message queue, with the connection that it comes from if it is data of one. -/
abbrev Traced (μ : Type) := Packet μ × Option ProtocolId

/-- The engine, with its message queue traced. -/
structure Traffic (L μ : Type) where
  engine : IOEngine L μ
  queue : List (Traced μ) := []

namespace Traffic

/-- A step of the engine or of the network thread, or the network thread reads a packet of a
connection. -/
inductive Event (μ : Type)
  | act (action : Action μ)
  | read (protocol : ProtocolId) (packet : IOPacket μ)

variable {L μ : Type} [IntrusiveNode L] {s t : Traffic L μ} {e : Event μ} {a : Action μ}
  {p q : ProtocolId} {packet : IOPacket μ}

def init : Traffic L μ := { engine := .init }

/-- The queue after an action of the engine or the network thread. -/
def trace (s : Traffic L μ) (a : Action μ) (τ : IOEngine L μ) : List (Traced μ) :=
  match a with
  | .dispatch _ => s.queue.tail
  | _ => s.queue ++ (τ.msgqueue.drop s.engine.msgqueue.length).map (·, none)

/-- Data is put in the queue by a connection that owns its key, which is the packet's. -/
def Step (s : Traffic L μ) (e : Event μ) (t : Traffic L μ) : Prop :=
  match e with
  | .act a => (∀ packet, a ≠ .post (.msg packet)) ∧ s.engine.Permitted a t.engine ∧
      t.queue = s.trace a t.engine
  | .read p packet => p ∈ s.engine.outstanding ∧ packet.uid = (s.engine.protocol p).key ∧
      t.engine = s.engine.postPacket (.msg packet) ∧ t.queue = s.queue ++ [(.msg packet, some p)]

/-- The notifications among traced packets. -/
def notices (queue : List (Traced μ)) : List IONotify := (queue.map Prod.fst).filterMap Packet.notice

/-- No protocol that owns the key `uid` now, besides `p`, is available or has been told of in
`front`. -/
def Apart (c : Connections) (p : ProtocolId) (uid : UInt32) (front : List IONotify) : Prop :=
  ∀ q ∈ c.outstanding, q ≠ p → (c.protocol q).key = uid →
    (c.protocol q).available = false ∧ ∀ n ∈ front, n.protocol ≠ q

structure Inv (s : Traffic L μ) : Prop where
  sound : s.engine.connections.Sound
  queue : s.queue.map Prod.fst = s.engine.msgqueue
  unsent : ∀ packet, (.msg packet, none) ∈ s.queue → packet.uid = 0
  apart : ∀ front back packet p, s.queue = front ++ (.msg packet, some p) :: back →
    Apart s.engine.connections p packet.uid (notices front)

omit [IntrusiveNode L] in
theorem Inv.notices_eq (h : s.Inv) : notices s.queue = s.engine.connections.notices :=
  congrArg (List.filterMap Packet.notice) h.queue

/-! ### Steps -/

/-- New owners of a key are not available, and none of the notifications is about them. -/
theorem Apart.change {c c' : Connections} {uid : UInt32} {front : List IONotify}
    (h : Apart c p uid front) (hc : c.Sound) (hchange : Connections.Change c none c')
    (hfront : ∀ n ∈ front, n ∈ c.notices) : Apart c' p uid front := by
  intro q hq hne hkey
  rcases hchange.owner hc hq with ⟨hold, hsame, havail⟩ | ⟨hnew, havail⟩
  · rw [havail]
    exact h q hold hne (hsame.symm.trans hkey)
  · refine ⟨havail, ?_⟩
    rintro n hn rfl
    exact hnew (hc.notice n (hfront n hn)).1

/-- The notification that is handled is about no other owner of the key. -/
theorem Apart.handled {c c' : Connections} {uid : UInt32} {front : List IONotify} {n : IONotify}
    (h : Apart c p uid (n :: front)) (hc : c.Sound)
    (hchange : Connections.Change c (some n) c') : Apart c' p uid front := by
  obtain ⟨hsame, hother⟩ := hchange.handled_other
  intro q hq hne hkey
  rw [hsame] at hq
  have howned := hc.owned q hq
  obtain ⟨hkept, -⟩ := hchange.keys howned (hc.made q howned)
  obtain ⟨havail, hfront⟩ := h q hq hne (hkept.symm.trans hkey)
  rw [hother q (Ne.symm (hfront n List.mem_cons_self))]
  exact ⟨havail, fun n' hn' => hfront n' (List.mem_cons_of_mem n hn')⟩

/-- What a step does to the traced queue: it adds packets that come from no connection, or takes the
packet that it handles. -/
theorem trace_cases (hqueue : s.queue.map Prod.fst = s.engine.msgqueue)
    (hdata : ∀ packet, a ≠ .post (.msg packet)) {τ : IOEngine L μ} (hstep : s.engine.Step a τ) :
    (∃ added : List (Traced μ), s.trace a τ = s.queue ++ added ∧
        (s.trace a τ).map Prod.fst = τ.msgqueue ∧ IOEngine.handles a = none ∧
        ∀ x ∈ added, x.2 = none ∧ ∀ packet, x.1 = .msg packet → packet.uid = 0) ∨
      ∃ x, s.queue = x :: s.trace a τ ∧ (s.trace a τ).map Prod.fst = τ.msgqueue ∧
        IOEngine.handles a = x.1.notice := by
  obtain ⟨hhead, hexec⟩ := hstep
  have hadded (ha : ∀ packet, a ≠ .dispatch packet) (packets : List (Packet μ))
      (hτ : τ.msgqueue = s.engine.msgqueue ++ packets) :
      s.trace a τ = s.queue ++ packets.map (·, none) ∧
        (s.trace a τ).map Prod.fst = τ.msgqueue ∧ IOEngine.handles a = none := by
    have htrace : s.trace a τ = s.queue ++ packets.map (·, none) := by
      rw [trace, hτ, List.drop_left]
      exact ha
    refine ⟨htrace, ?_, ?_⟩
    · rw [htrace, hτ, List.map_append, hqueue, List.map_map]
      congr 1
      exact List.map_id _
    · cases a with
      | dispatch packet => exact absurd rfl (ha packet)
      | _ => rfl
  cases IOEngine.exec_queue hexec with
  | same ha hτ =>
    obtain ⟨htrace, hsame, hhandles⟩ := hadded ha [] (by rw [hτ, List.append_nil])
    exact .inl ⟨[], htrace, hsame, hhandles, by simp⟩
  | @posted packet ha hpacket hτ =>
    obtain ⟨htrace, hsame, hhandles⟩ := hadded ha [packet] hτ
    refine .inl ⟨_, htrace, hsame, hhandles, ?_⟩
    intro x hx
    obtain rfl := List.mem_singleton.mp hx
    refine ⟨rfl, fun data hx => ?_⟩
    obtain rfl : packet = .msg data := hx
    rcases hpacket with hpost | ⟨n, hn⟩ | ⟨data', hmsg, hzero⟩
    · exact absurd hpost (hdata data)
    · cases hn
    · cases hmsg
      exact hzero
  | @taken packet ha hτ =>
    subst ha
    have hsome := hhead packet rfl
    rw [← hqueue, List.head?_map] at hsome
    obtain ⟨x, hx, rfl⟩ := Option.map_eq_some_iff.mp hsome
    obtain ⟨rest, hrest⟩ := List.head?_eq_some_iff.mp hx
    refine .inr ⟨x, ?_, ?_, rfl⟩
    · simp [trace, hrest]
    · simp [trace, hτ, ← hqueue, List.map_tail]

omit [IntrusiveNode L] in
/-- A packet that was not added was in the queue, behind the same packets. -/
theorem traced_old {queue added front back : List (Traced μ)} {x : Traced μ}
    (heq : queue ++ added = front ++ x :: back) (hx : x ∉ added) :
    ∃ back', queue = front ++ x :: back' := by
  rcases List.append_eq_append_iff.mp heq with ⟨between, -, hadded⟩ | ⟨rest, hqueue, hrest⟩
  · exact absurd (by simp [hadded]) hx
  · cases rest with
    | nil => exact absurd (by simp [show added = x :: back from hrest.symm]) hx
    | cons y rest =>
      obtain ⟨rfl, -⟩ := List.cons.inj hrest
      exact ⟨rest, hqueue⟩

theorem Inv.act (h : s.Inv) (hdata : ∀ packet, a ≠ .post (.msg packet)) {τ : IOEngine L μ}
    (hstep : s.engine.Permitted a τ) : (⟨τ, s.trace a τ⟩ : Traffic L μ).Inv := by
  have hchange := IOEngine.step_change h.sound hstep
  rcases trace_cases h.queue hdata hstep.1 with
    ⟨added, htrace, hqueue, hhandles, hadded⟩ | ⟨x, htrace, hqueue, hhandles⟩
  · rw [hhandles] at hchange
    refine ⟨hchange.sound h.sound, hqueue, ?_, ?_⟩
    · intro packet hmem
      rcases List.mem_append.mp (htrace ▸ hmem) with hold | hnew
      · exact h.unsent packet hold
      · exact (hadded _ hnew).2 packet rfl
    · intro front back packet p heq
      obtain ⟨back', hold⟩ := traced_old (htrace.symm.trans heq) fun hmem => by
        cases (hadded _ hmem).1
      apply (h.apart front back' packet p hold).change h.sound hchange
      intro n hn
      rw [← h.notices_eq, hold, notices, List.map_append, List.filterMap_append]
      exact List.mem_append_left _ hn
  · refine ⟨hchange.sound h.sound, hqueue, ?_, ?_⟩
    · intro packet hmem
      exact h.unsent packet (htrace ▸ List.mem_cons_of_mem x hmem)
    · intro front back packet p heq
      have heq : s.queue = (x :: front) ++ (.msg packet, some p) :: back := by
        rw [htrace, show s.trace a τ = _ from heq]
        rfl
      have hapart := h.apart (x :: front) back packet p heq
      cases hx : x.1.notice with
      | none =>
        rw [hhandles, hx] at hchange
        have hsame : notices (x :: front) = notices front := List.filterMap_cons_none hx
        rw [hsame] at hapart
        apply hapart.change h.sound hchange
        intro n hn
        rw [← hsame] at hn
        rw [← h.notices_eq, heq, notices, List.map_append, List.filterMap_append]
        exact List.mem_append_left _ hn
      | some n =>
        rw [hhandles, hx] at hchange
        have hcons : notices (x :: front) = n :: notices front := List.filterMap_cons_some hx
        rw [hcons] at hapart
        exact hapart.handled h.sound hchange

omit [IntrusiveNode L] in
theorem Inv.read (h : s.Inv) (hheld : p ∈ s.engine.outstanding)
    (huid : packet.uid = (s.engine.protocol p).key) :
    (⟨s.engine.postPacket (.msg packet), s.queue ++ [(.msg packet, some p)]⟩ : Traffic L μ).Inv := by
  have hconn : (s.engine.postPacket (.msg packet)).connections = s.engine.connections :=
    IOEngine.postMsg_connections packet
  refine ⟨?_, ?_, ?_, ?_⟩
  · rw [hconn]
    exact h.sound
  · simp [IOEngine.postPacket, h.queue]
  · intro packet' hmem
    apply h.unsent packet'
    simpa using hmem
  · intro front back packet' p' heq
    rw [hconn]
    by_cases hlast : (.msg packet', some p') ∈ [((.msg packet, some p) : Traced μ)]
    · -- the packet that was read is the newest one of its connection
      obtain ⟨hmsg, hp⟩ := Prod.mk.inj (List.mem_singleton.mp hlast)
      obtain rfl := Packet.msg.inj hmsg
      obtain rfl := Option.some.inj hp
      intro q hq hne hkey
      exact absurd (h.sound.unique q hq p' hheld (hkey.trans huid)) hne
    · obtain ⟨back', hold⟩ := traced_old heq hlast
      exact h.apart front back' packet' p' hold

theorem Inv.step (h : s.Inv) (hstep : Step s e t) : t.Inv := by
  obtain ⟨engine, queue⟩ := t
  cases e with
  | act a =>
    obtain ⟨hdata, hpermitted, hqueue⟩ := hstep
    obtain rfl : queue = s.trace a engine := hqueue
    exact h.act hdata hpermitted
  | read p packet =>
    obtain ⟨hheld, huid, rfl, rfl⟩ := hstep
    exact h.read hheld huid

theorem inv_run {es : List (Event μ)} (run : Run Step init es s) : s.Inv :=
  run.invariant Inv (fun _ _ _ h hstep => h.step hstep)
    ⟨IOEngine.sound_init, rfl, nofun, by simp [init]⟩

/-- In every run, a packet of data that the engine dispatches comes from the very connection that is
found under its key. -/
theorem dispatch_origin {es : List (Event μ)} {origin : Option ProtocolId}
    (run : Run Step init es s) (hhead : s.queue.head? = some (.msg packet, origin))
    (havail : s.engine.isAvailable packet.uid = true) :
    origin = s.engine.getProtocol packet.uid := by
  have h := inv_run run
  obtain ⟨rest, hqueue⟩ := List.head?_eq_some_iff.mp hhead
  cases hfound : s.engine.getProtocol packet.uid with
  | none => simp [IOEngine.isAvailable, hfound] at havail
  | some q =>
    have havail : (s.engine.protocol q).available = true := by
      simpa [IOEngine.isAvailable, hfound] using havail
    obtain ⟨hheld, hkey⟩ := h.sound.entry _ q hfound
    cases origin with
    | none =>
      have hzero := h.unsent packet (by simp [hqueue])
      exact absurd (hkey.trans hzero) (h.sound.owned q hheld)
    | some p =>
      by_contra hne
      have hapart := h.apart [] rest packet p hqueue q hheld (fun heq => hne (heq ▸ rfl)) hkey
      exact absurd (hapart.1.symm.trans havail) (by decide)

/-! ### A session of a concrete run -/

/-- A session that was accepted, and has read a packet. -/
def received : Traffic (List HandlerId) Unit where
  engine := IOEngine.accepted.postPacket (.msg ⟨2, 7, 0, 0, none⟩)
  queue := [(.msg ⟨2, 7, 0, 0, none⟩, some 1)]

theorem received_run : ∃ es, @Run _ _ (@Step _ _ .list) (@init _ _ .list) es received := by
  let _ := IntrusiveNode.list
  have h1 := Run.nil.snoc (show Step (init : Traffic (List HandlerId) Unit) (.act .create) ⟨_, _⟩ from
    ⟨nofun, ⟨⟨by rintro _ ⟨⟩, rfl⟩, trivial⟩, rfl⟩)
  have h2 := h1.snoc (show Step _ (.act (.listen 80 0 1)) ⟨_, _⟩ from
    ⟨nofun, ⟨⟨by rintro _ ⟨⟩, rfl⟩, by decide, .inr (by decide)⟩, rfl⟩)
  have h3 := h2.snoc (show Step _ (.act (.post (.notify ⟨.PacketListen, 1, 0, none, true⟩))) ⟨_, _⟩ from
    ⟨nofun, ⟨⟨by rintro _ ⟨⟩, rfl⟩, by decide, by decide, by decide⟩, rfl⟩)
  have h4 := h3.snoc (show Step _ (.act (.dispatch (.notify ⟨.PacketListen, 1, 0, none, true⟩)))
    ⟨_, _⟩ from ⟨nofun, ⟨⟨by rintro _ ⟨⟩; rfl, rfl⟩, trivial⟩, rfl⟩)
  have h5 := h4.snoc (show Step _ (.act (.accept 2 0)) ⟨_, _⟩ from
    ⟨nofun, ⟨⟨by rintro _ ⟨⟩, rfl⟩, by decide, .inr (by decide)⟩, rfl⟩)
  have h6 := h5.snoc (show Step _ (.act (.dispatch (.notify ⟨.PacketAccept, 2, 1, some 0, true⟩)))
    ⟨IOEngine.accepted, []⟩ from ⟨nofun, ⟨⟨by rintro _ ⟨⟩; rfl, rfl⟩, trivial⟩, rfl⟩)
  have h7 := h6.snoc (show Step _ (.read 1 ⟨2, 7, 0, 0, none⟩) received from
    ⟨by decide, rfl, rfl, rfl⟩)
  exact ⟨_, h7⟩

/-- The engine and the queue after an action. -/
def next (s : Traffic L μ) (a : Action μ) : Traffic L μ :=
  ⟨s.engine.next a, s.trace a (s.engine.next a)⟩

theorem step_next (hdata : ∀ packet, a ≠ .post (.msg packet))
    (hpermitted : s.engine.Permitted a (s.engine.next a)) : Step s (.act a) (s.next a) :=
  ⟨hdata, hpermitted, rfl⟩

/-- The connection `p` has read a packet. -/
def read (s : Traffic L μ) (p : ProtocolId) (packet : IOPacket μ) : Traffic L μ :=
  ⟨s.engine.postPacket (.msg packet), s.queue ++ [(.msg packet, some p)]⟩

/-- The peer of the session closes it, and the session reads another packet when the engine has been
told. -/
def closed : Traffic (List HandlerId) Unit :=
  let _ := IntrusiveNode.list
  (((received.next (.post (.notify ⟨.PacketClose, 2, 1, none, false⟩))).next
    (.dispatch (.msg ⟨2, 7, 0, 0, none⟩))).read 1 ⟨2, 8, 0, 0, none⟩).next
    (.dispatch (.notify ⟨.PacketClose, 2, 1, none, false⟩))

/-- The key of the session is given to another one, which reads a packet too. -/
def reused : Traffic (List HandlerId) Unit :=
  let _ := IntrusiveNode.list
  ((((closed.next (.recycle 1)).next (.accept 2 0)).next (.dispatch (.msg ⟨2, 8, 0, 0, none⟩))).next
    (.dispatch (.notify ⟨.PacketAccept, 2, 2, some 0, true⟩))).read 2 ⟨2, 9, 0, 0, none⟩

theorem closed_run : ∃ es, @Run _ _ (@Step _ _ .list) (@init _ _ .list) es closed := by
  let _ := IntrusiveNode.list
  obtain ⟨es, run⟩ := received_run
  have h1 := run.snoc (step_next (a := .post (.notify ⟨.PacketClose, 2, 1, none, false⟩)) nofun
    ⟨⟨by rintro _ ⟨⟩, rfl⟩, by decide, by decide, by decide⟩)
  have h2 := h1.snoc (step_next (a := .dispatch (.msg ⟨2, 7, 0, 0, none⟩)) nofun
    ⟨⟨by rintro _ ⟨⟩; rfl, rfl⟩, trivial⟩)
  have h3 := h2.snoc (show Step _ (.read 1 ⟨2, 8, 0, 0, none⟩) (read _ 1 ⟨2, 8, 0, 0, none⟩) from
    ⟨by decide, rfl, rfl, rfl⟩)
  have h4 := h3.snoc (step_next (a := .dispatch (.notify ⟨.PacketClose, 2, 1, none, false⟩)) nofun
    ⟨⟨by rintro _ ⟨⟩; rfl, rfl⟩, trivial⟩)
  exact ⟨_, h4⟩

theorem reused_run : ∃ es, @Run _ _ (@Step _ _ .list) (@init _ _ .list) es reused := by
  let _ := IntrusiveNode.list
  obtain ⟨es, run⟩ := closed_run
  have hgone (uid : UInt32) : closed.engine.protocols uid ≠ some 1 := by
    intro hfound
    obtain ⟨-, hkey⟩ := (inv_run run).sound.entry uid 1 hfound
    obtain rfl : 2 = uid := hkey
    exact absurd hfound (by decide)
  have h1 := run.snoc (step_next (a := .recycle 1) nofun ⟨⟨by rintro _ ⟨⟩, rfl⟩, hgone, by decide⟩)
  have h2 := h1.snoc (step_next (a := .accept 2 0) nofun
    ⟨⟨by rintro _ ⟨⟩, rfl⟩, by decide, .inr (by decide)⟩)
  have h3 := h2.snoc (step_next (a := .dispatch (.msg ⟨2, 8, 0, 0, none⟩)) nofun
    ⟨⟨by rintro _ ⟨⟩; rfl, rfl⟩, trivial⟩)
  have h4 := h3.snoc (step_next (a := .dispatch (.notify ⟨.PacketAccept, 2, 2, some 0, true⟩)) nofun
    ⟨⟨by rintro _ ⟨⟩; rfl, rfl⟩, trivial⟩)
  have h5 := h4.snoc (show Step _ (.read 2 ⟨2, 9, 0, 0, none⟩) (read _ 2 ⟨2, 9, 0, 0, none⟩) from
    ⟨by decide, rfl, rfl, rfl⟩)
  exact ⟨_, h5⟩

/-- A packet of each of the two sessions is dispatched from that session, although they have the same
key. -/
theorem dispatch_origin_session :
    some 1 = received.engine.getProtocol 2 ∧ some 2 = reused.engine.getProtocol 2 := by
  let _ := IntrusiveNode.list
  obtain ⟨es, run⟩ := received_run
  obtain ⟨es', run'⟩ := reused_run
  exact ⟨dispatch_origin run (show received.queue.head? =
      some (.msg ⟨2, 7, 0, 0, none⟩, some 1) from rfl) rfl,
    dispatch_origin run' (show reused.queue.head? =
      some (.msg ⟨2, 9, 0, 0, none⟩, some 2) from rfl) (by decide)⟩

end Traffic

end ZlNet.Engine
