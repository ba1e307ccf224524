import ZlNet.Engine.Proof.Coupling

/-! Runs of a process, the engine with its network thread.  What couples the two is an invariant of
every run, so each run makes one of the engine and one of the network thread in which all that they
rely on holds. -/

namespace ZlNet.Engine

open Lib Network Network.CNetwork

namespace System

variable {L : Type}

/-- No data is queued for a listener: none that the network has, and none that comes before it. -/
def Addressed (net : CNetwork) : Prop :=
  ∀ front key back, net.eventQueue = front ++ .data key :: back →
    ∀ p : IOProtocol, p.type = .LISTENER → p.key = key →
      (∀ id, ¬net.Holds id p) ∧ ∀ e ∈ front, e.protocol ≠ some p

/-- The protocols that the network knows own their keys in the engine, keys that are owned are taken,
and what each protocol was told is what the engine has handled and what is in its queue. -/
structure Coupled [KeyPool] (σ : System L) : Prop where
  sound : σ.engine.connections.Sound
  nodup : σ.engine.outstanding.Nodup
  inv : σ.net.Inv
  typed : σ.net.Typed
  owners : ∀ p, σ.net.Known p → p.id ∈ σ.engine.outstanding ∧
    (σ.engine.protocol p.id).key = p.key ∧ (σ.engine.protocol p.id).type = p.type
  taken : ∀ p ∈ σ.engine.outstanding, (σ.engine.protocol p).key ∈ σ.net.outstanding
  addressed : Addressed σ.net
  follows : ∀ p ∈ σ.engine.outstanding, ∃ done pending,
    Heeds σ.engine.connections p done pending ∧
      σ.net.Phase (σ.engine.protocol p).key (done ++ pending)

variable [KeyPool] {σ τ : System L} {net : CNetwork} {p q : ProtocolId} {key : UInt32}

/-! ### What follows from it -/

/-- A key that is free in the network is free in the engine. -/
theorem Coupled.free (h : σ.Coupled) (hfree : σ.net.Free key) : σ.engine.Free key := by
  refine hfree.imp_right fun hfree p hp hkey => ?_
  exact hfree key (hkey ▸ h.taken p hp) rfl

/-- The protocol that owns a key is the one that the network knows by it. -/
theorem Coupled.owner (h : σ.Coupled) {protocol : IOProtocol} (hknown : σ.net.Known protocol)
    (hp : p ∈ σ.engine.outstanding) (hkey : (σ.engine.protocol p).key = protocol.key) :
    protocol.id = p := by
  obtain ⟨hheld, hown, -⟩ := h.owners protocol hknown
  exact h.sound.unique _ hheld p hp (hown.trans hkey.symm)

/-- The object that is found under a key is of the type of its protocol. -/
theorem Coupled.type (h : σ.Coupled) {id : ObjectId} {o : IOObject} {protocol : IOProtocol}
    (hin : σ.net.InTable id o) (hp : o.protocol = some protocol) : protocol.type = o.type := by
  have hknown : σ.net.Known protocol := .inl ⟨id, o, hin.heap, hp⟩
  obtain ⟨hheld, hown, -⟩ := h.owners protocol hknown
  obtain ⟨done, pending, -, hphase⟩ := h.follows protocol.id hheld
  have hkey : protocol.key = o.key := by
    obtain ⟨p', hp', hk, -⟩ := h.inv.held_protocol hin.heap
    obtain rfl := Option.some.inj (hp.symm.trans hp')
    exact hk
  rw [hown, hkey] at hphase
  exact hphase.type h.inv hin hp

/-- Data is sent to connections only. -/
theorem Coupled.connection (h : σ.Coupled)
    (hhead : σ.net.eventQueue.head?.bind IOEvent.dataKey = some key) :
    σ.net.Found key fun o => o.isConnection = true := by
  intro o ho
  obtain ⟨event, hevent, hdata⟩ := Option.bind_eq_some_iff.mp hhead
  obtain ⟨back, hqueue⟩ := List.head?_eq_some_iff.mp hevent
  cases event with
  | listen | connect | close | clear => cases hdata
  | data k =>
    obtain rfl : k = key := Option.some.inj hdata
    obtain ⟨id, hget, hheap⟩ := Option.bind_eq_some_iff.mp ho
    obtain ⟨o', hin, hkey⟩ := h.inv.inTable_of_getObject hget
    obtain rfl := Option.some.inj (hin.heap.symm.trans hheap)
    cases h.inv.settled hin with
    | established hest => exact hest.type
    | attempting ha => exact ha.isConnection
    | listening hl =>
      obtain ⟨p, hp, hpkey, -⟩ := h.inv.held_protocol hin.heap
      have htype : p.type = .LISTENER := (h.type hin hp).trans hl.type
      exact absurd ⟨o', hin.heap, hp⟩
        ((h.addressed [] k back hqueue p htype (hpkey.trans hkey)).1 id)

/-! ### The engine's steps -/

omit [KeyPool] in
theorem asks_quiet {engine : IOEngine L SerializeMessage}
    (hevents : engine.events = σ.engine.events) : σ.asks engine = ⟨engine, σ.net⟩ := by
  simp [asks, hevents]

omit [KeyPool] in
theorem asks_event {engine : IOEngine L SerializeMessage} {event : Event SerializeMessage}
    (hevents : engine.events = σ.engine.events ++ [event]) :
    σ.asks engine = ⟨engine, event.pushed engine.protocol σ.net⟩ := by
  simp [asks, hevents]

/-- From `σ` to `τ` nobody is told anything, and keys are only taken. -/
structure Silent (σ τ : CNetwork) : Prop where
  inv : τ.Inv
  typed : τ.Typed
  outstanding : ∀ key ∈ σ.outstanding, key ∈ τ.outstanding
  phase : ∀ key heard, σ.Phase key heard → τ.Phase key heard

theorem silent_self (hinv : net.Inv) (htyped : net.Typed) : Silent net net :=
  ⟨hinv, htyped, fun _ hkey => hkey, fun _ _ hphase => hphase⟩

theorem Coupled.silent_step (h : σ.Coupled) {b : Network.Action} (hstep : σ.net.Step b net)
    (hkept : ∀ key, b ≠ .pushKey key) (hsilent : net.notices = σ.net.notices)
    (hout : ∀ key ∈ σ.net.outstanding, key ∈ net.outstanding) : Silent σ.net net where
  inv := by
    have houtcome := exec_outcome h.inv hstep.1
    rwa [hstep.2] at houtcome
  typed := step_typed h.inv h.typed hstep
  outstanding := hout
  phase key heard hphase := by
    obtain ⟨new, hnew, hphase⟩ := step_hears h.inv h.typed hstep (hkept key) hphase
    obtain rfl : new = [] := List.append_right_eq_self.mp (hnew.symm.trans hsilent)
    simpa using hphase

variable [IntrusiveNode L] {a : Action SerializeMessage} {engine : IOEngine L SerializeMessage}

omit [IntrusiveNode L] in
theorem Contract.owns (hc : σ.Contract (.engine a)) : IOEngine.Owns a := by
  cases a with
  | accept => exact hc.elim
  | post => exact hc.elim
  | recycle => exact hc.elim
  | create | listen | connect | close | bindPacketHandler | send | dispatch | timeout => trivial

/-- What a step of the engine's users relies on. -/
theorem Coupled.permitted (h : σ.Coupled) (hc : σ.Contract (.engine a))
    (hexec : σ.engine.exec a = .ok engine) : σ.engine.Permitted a engine := by
  refine ⟨⟨?_, hexec⟩, ?_⟩
  · rintro packet rfl
    exact hc
  · cases a with
    | listen port p key => exact ⟨hc.1, h.free hc.2⟩
    | connect address p key => exact ⟨hc.1, h.free hc.2⟩
    | accept => exact hc.elim
    | post => exact hc.elim
    | recycle => exact hc.elim
    | create | close | bindPacketHandler | send | dispatch | timeout => trivial

/-- A step that handles no notification leaves those of the queue. -/
theorem notices_kept (hc : σ.Contract (.engine a)) (hnone : IOEngine.handles a = none)
    (hexec : σ.engine.exec a = .ok engine) :
    engine.connections.notices = σ.engine.connections.notices := by
  have hkeeps {x : Except Fault (IOEngine L SerializeMessage)} (h : σ.engine.Keeps x)
      (hx : x = .ok engine) : engine.connections.notices = σ.engine.connections.notices :=
    congrArg (List.filterMap Packet.notice) (h.of_ok hx).2
  cases a with
  | create =>
    obtain rfl := Except.ok.inj hexec
    rfl
  | listen port p key => exact hkeeps (x := .ok _) IOEngine.open_keeps hexec
  | connect address p key => exact hkeeps (x := .ok _) IOEngine.open_keeps hexec
  | close uid => exact hkeeps (IOEngine.close_keeps uid) hexec
  | bindPacketHandler cmd handler =>
    obtain rfl := Except.ok.inj hexec
    unfold IOEngine.bindPacketHandler
    split
    · rfl
    · rfl
  | send r => exact congrArg Connections.notices (IOEngine.send_connections hexec)
  | dispatch packet =>
    cases packet with
    | notify n => cases hnone
    | msg packet =>
      obtain ⟨rest, hqueue⟩ := List.head?_eq_some_iff.mp hc
      have hconn := IOEngine.onIOPacket_connections
        (σ := { σ.engine with msgqueue := σ.engine.msgqueue.tail }) hexec
      rw [hconn]
      change σ.engine.msgqueue.tail.filterMap Packet.notice = σ.engine.msgqueue.filterMap Packet.notice
      rw [hqueue]
      rfl
  | timeout now =>
    obtain rfl := Except.ok.inj hexec
    exact congrArg Connections.notices (IOEngine.timeout_connections now)
  | accept => exact hc.elim
  | post => exact hc.elim
  | recycle => exact hc.elim

/-- A step of the engine at most handles one of the notifications of `p`. -/
theorem Coupled.heeds (h : σ.Coupled) (hc : σ.Contract (.engine a))
    (hexec : σ.engine.exec a = .ok engine) (hp : p ∈ σ.engine.outstanding)
    {done pending : List (IOProtocol × Notice)} (hheeds : Heeds σ.engine.connections p done pending)
    (hphase : σ.net.Phase (σ.engine.protocol p).key (done ++ pending)) :
    ∃ done' pending', done' ++ pending' = done ++ pending ∧
      Heeds engine.connections p done' pending' := by
  have hchange := IOEngine.step_change h.sound (h.permitted hc hexec)
  cases hhandles : IOEngine.handles a with
  | none =>
    rw [hhandles] at hchange
    exact ⟨done, pending, rfl, hheeds.quiet h.sound hp hchange (notices_kept hc hhandles hexec)⟩
  | some n =>
    obtain ⟨rest, rfl, hnotices, hpopped, hexec⟩ :=
      IOEngine.handles_cases h.sound (h.permitted hc hexec) hhandles
    obtain ⟨protocol, ns, hns, hpattern⟩ := hphase.told
    refine Heeds.handle (σ := { σ.engine with msgqueue := rest }) ?_ hpopped hexec ?_
    · have hsame : { ({ σ.engine with msgqueue := rest } : IOEngine L SerializeMessage).connections with
          notices := n :: rest.filterMap Packet.notice } = σ.engine.connections :=
        Connections.ext rfl rfl rfl rfl hnotices.symm rfl
      exact hsame ▸ hheeds
    · intro ms call ns' heq m hm
      obtain ⟨ns₁, ns₂, rfl, rfl, htail⟩ := List.map_eq_append_iff.mp (hns.symm.trans heq)
      obtain ⟨n', ns₃, rfl, rfl, rfl⟩ := List.map_eq_cons_iff.mp htail
      obtain ⟨m', hm', rfl⟩ := List.mem_map.mp hm
      exact hpattern.stop_last m' hm'

/-- A step of the engine in which the protocols `fresh` get their keys, with what it asks the network
for. -/
theorem Coupled.asked (h : σ.Coupled) (hc : σ.Contract (.engine a))
    (hexec : σ.engine.exec a = .ok engine) (hsilent : Silent σ.net net) (fresh : List ProtocolId)
    (hout : engine.outstanding = fresh ++ σ.engine.outstanding)
    (hnodup : (fresh ++ σ.engine.outstanding).Nodup)
    (hfresh : ∀ p ∈ fresh, Heeds engine.connections p [] [] ∧
      (engine.protocol p).key ∉ σ.net.outstanding ∧ (engine.protocol p).key ∈ net.outstanding)
    (hknown : ∀ q, net.Known q → σ.net.Known q ∨ q.id ∈ fresh ∧
      (engine.protocol q.id).key = q.key ∧ (engine.protocol q.id).type = q.type)
    (haddressed : Addressed net) : (⟨engine, net⟩ : System L).Coupled := by
  have hchange := IOEngine.step_change h.sound (h.permitted hc hexec)
  have hkeys (p : ProtocolId) (hp : p ∈ σ.engine.outstanding) :
      (engine.protocol p).key = (σ.engine.protocol p).key ∧
        (engine.protocol p).type = (σ.engine.protocol p).type :=
    hchange.keys (h.sound.owned p hp) (h.sound.made p (h.sound.owned p hp))
  refine ⟨hchange.sound h.sound, hout ▸ hnodup, hsilent.inv, hsilent.typed, ?_, ?_, haddressed, ?_⟩
  · intro q hq
    rcases hknown q hq with hq | ⟨hmem, hkey, htype⟩
    · obtain ⟨hheld, hkey, htype⟩ := h.owners q hq
      obtain ⟨hkey', htype'⟩ := hkeys q.id hheld
      exact ⟨hout ▸ List.mem_append_right fresh hheld, hkey'.trans hkey, htype'.trans htype⟩
    · exact ⟨hout ▸ List.mem_append_left _ hmem, hkey, htype⟩
  · intro p hp
    rcases List.mem_append.mp (hout ▸ hp) with hp | hp
    · exact (hfresh p hp).2.2
    · exact (hkeys p hp).1 ▸ hsilent.outstanding _ (h.taken p hp)
  · intro p hp
    rcases List.mem_append.mp (hout ▸ hp) with hp | hp
    · obtain ⟨hheeds, hfree, -⟩ := hfresh p hp
      exact ⟨[], [], hheeds, hsilent.phase _ _ (h.inv.phase_of_free hfree)⟩
    · obtain ⟨done, pending, hheeds, hphase⟩ := h.follows p hp
      obtain ⟨done', pending', hsame, hheeds'⟩ := h.heeds hc hexec hp hheeds hphase
      refine ⟨done', pending', hheeds', ?_⟩
      rw [hsame]
      exact (hkeys p hp).1 ▸ hsilent.phase _ _ hphase

/-- A step in which no protocol gets a key. -/
theorem Coupled.asked_old (h : σ.Coupled) (hc : σ.Contract (.engine a))
    (hexec : σ.engine.exec a = .ok engine) (hsilent : Silent σ.net net)
    (hout : engine.outstanding = σ.engine.outstanding)
    (hknown : ∀ q, net.Known q → σ.net.Known q) (haddressed : Addressed net) :
    (⟨engine, net⟩ : System L).Coupled :=
  h.asked hc hexec hsilent [] hout h.nodup (fun _ hp => absurd hp List.not_mem_nil)
    (fun q hq => .inl (hknown q hq)) haddressed

omit [KeyPool] [IntrusiveNode L] in
/-- What is pushed is no data, or data for what is no listener. -/
theorem addressed_push {event : IOEvent} (h : Addressed net)
    (hdata : ∀ key, event = .data key → ∀ p : IOProtocol, p.type = .LISTENER → p.key = key →
      ¬net.Known p) : Addressed (net.pushEvent event) := by
  intro front key back hqueue p htype hkey
  have hqueue : net.eventQueue ++ [event] = front ++ .data key :: back := hqueue
  rcases List.eq_nil_or_concat back with rfl | ⟨back, last, rfl⟩
  · obtain ⟨rfl, hevent⟩ := List.append_inj' hqueue rfl
    have hunknown := hdata key (List.cons.inj hevent).1 p htype hkey
    exact ⟨fun id hholds => hunknown (.inl ⟨id, hholds⟩),
      fun e he hp => hunknown (.inr ⟨e, he, hp⟩)⟩
  · rw [List.concat_eq_append, ← List.cons_append, ← List.append_assoc] at hqueue
    obtain ⟨hqueue, -⟩ := List.append_inj' hqueue rfl
    exact h front key back hqueue p htype hkey

omit [KeyPool] [IntrusiveNode L] in
theorem takes_key {type : EIOOBJECT_TYPE} {request : Event SerializeMessage}
    (h : engine = σ.engine.takeKey p type key request) :
    engine.events = σ.engine.events ++ [request] ∧ engine.outstanding = p :: σ.engine.outstanding ∧
      engine.protocol p = { σ.engine.protocol p with type, key } :=
  h ▸ IOEngine.takeKey_protocol

/-- A protocol takes a key, and the network is asked for what it is for. -/
theorem Coupled.asked_key (h : σ.Coupled) (hc : σ.Contract (.engine a))
    (hexec : σ.engine.exec a = .ok engine) {type : EIOOBJECT_TYPE}
    {request : Event SerializeMessage} {b : Network.Action} (event : IOEvent)
    (hhandles : IOEngine.handles a = none) (hblank : (σ.engine.protocol p).key = 0)
    (hne : key ≠ 0) (hfree : σ.net.Free key)
    (hengine : engine = σ.engine.takeKey p type key request)
    (hevent : event.protocol = some ⟨p, .TCP, type, key, 0⟩) (hstep : σ.net.Step b net)
    (hkept : ∀ key, b ≠ .pushKey key)
    (hnet : net = { σ.net with outstanding := key :: σ.net.outstanding }.pushEvent event) :
    (⟨engine, net⟩ : System L).Coupled := by
  obtain ⟨-, hout, hprotocol⟩ := takes_key hengine
  have hkey : (engine.protocol p).key = key := by rw [hprotocol]
  have hnew : p ∉ σ.engine.outstanding := fun hp => h.sound.owned p hp hblank
  have hnotice : ∀ n ∈ σ.engine.connections.notices, n.protocol ≠ p := by
    rintro n hn rfl
    exact hnew (h.sound.notice n hn).1
  have hsilent : Silent σ.net net :=
    h.silent_step hstep hkept (by rw [hnet]; rfl) fun k hk => by
      rw [hnet]
      exact List.mem_cons_of_mem key hk
  have hunavailable : (engine.protocol p).available = false := by
    rw [hprotocol, show σ.engine.protocol p = {} from h.sound.blank p hblank]
  refine h.asked hc hexec hsilent [p] hout ?_ ?_ ?_ ?_
  · exact List.nodup_cons.mpr ⟨hnew, h.nodup⟩
  · intro q hq
    obtain rfl := List.mem_singleton.mp hq
    refine ⟨.fresh ?_ hunavailable, ?_, ?_⟩
    · rwa [notices_kept hc hhandles hexec]
    · rw [hkey]
      intro hheld
      rcases hfree with hzero | hfree
      · exact hne hzero
      · exact hfree key hheld rfl
    · rw [hkey, hnet]
      exact List.mem_cons_self
  · rw [hnet]
    rintro q (hholds | ⟨e, he, hq⟩)
    · exact .inl (.inl hholds)
    · rcases List.mem_append.mp he with he | he
      · exact .inl (.inr ⟨e, he, hq⟩)
      · obtain rfl := List.mem_singleton.mp he
        obtain rfl := Option.some.inj (hevent.symm.trans hq)
        refine .inr ⟨List.mem_singleton_self p, hkey, ?_⟩
        rw [hprotocol]
  · rw [hnet]
    refine addressed_push h.addressed fun k hk => ?_
    rw [hk] at hevent
    cases hevent

/-- A step of the engine, with the one of the network that it asks for, if it asks for one. -/
theorem Coupled.engine_step (h : σ.Coupled) (hc : σ.Contract (.engine a))
    (hexec : σ.engine.exec a = .ok engine) :
    ((σ.asks engine).net = σ.net ∨
      ∃ b, σ.net.Step b (σ.asks engine).net ∧ ∀ key, b ≠ .pushKey key) ∧
      (σ.asks engine).Coupled := by
  have hpush (event : IOEvent) (hevent : event.protocolKey = none) :
      σ.net.Step (.push event) (σ.net.pushEvent event) ∧
        ∀ key, Network.Action.push event ≠ .pushKey key :=
    ⟨⟨hevent, rfl⟩, fun _ heq => by cases heq⟩
  cases IOEngine.exec_emits hc.owns hexec with
  | quiet hout hevents =>
    rw [asks_quiet hevents]
    exact ⟨.inl rfl, h.asked_old hc hexec (silent_self h.inv h.typed) hout (fun _ hq => hq)
      h.addressed⟩
  | @listen port p key ha hblank hkey hengine =>
    subst ha
    obtain ⟨hevents, -, hprotocol⟩ := takes_key hengine
    rw [asks_event hevents]
    have hstep : σ.net.Step (.listen port p .TCP 0 key) (σ.net.listen port p .TCP 0 key) :=
      ⟨hc.2, rfl⟩
    have hnet : (.listen port p : Event SerializeMessage).pushed engine.protocol σ.net =
        σ.net.listen port p .TCP 0 key := by
      simp only [Event.pushed, hprotocol]
    rw [hnet]
    have hkept (k : UInt32) : Network.Action.listen port p .TCP 0 key ≠ .pushKey k :=
      fun heq => by cases heq
    refine ⟨.inr ⟨_, hstep, hkept⟩, h.asked_key hc hexec
      (.listen port ⟨p, .TCP, .LISTENER, key, 0⟩) rfl hblank hkey hc.2 hengine rfl hstep hkept ?_⟩
    simp [CNetwork.listen, popKey, hkey]
  | @connect address p key ha hblank hkey hengine =>
    subst ha
    obtain ⟨hevents, -, hprotocol⟩ := takes_key hengine
    rw [asks_event hevents]
    have hstep : σ.net.Step (.connect address p .TCP 0 key) (σ.net.connect address p .TCP 0 key) :=
      ⟨hc.2, rfl⟩
    have hnet : (.connect address p : Event SerializeMessage).pushed engine.protocol σ.net =
        σ.net.connect address p .TCP 0 key := by
      simp only [Event.pushed, hprotocol]
    rw [hnet]
    have hkept (k : UInt32) : Network.Action.connect address p .TCP 0 key ≠ .pushKey k :=
      fun heq => by cases heq
    refine ⟨.inr ⟨_, hstep, hkept⟩, h.asked_key hc hexec
      (.connect address ⟨p, .TCP, .CONNECTOR, key, 0⟩) rfl hblank hkey hc.2 hengine rfl hstep
      hkept ?_⟩
    simp [CNetwork.connect, popKey, hkey]
  | @data r packet ha havail hout hevents =>
    subst ha
    rw [asks_event hevents]
    obtain ⟨hstep, hkept⟩ := hpush (.data r.packet.uid) rfl
    refine ⟨.inr ⟨_, hstep, hkept⟩, h.asked_old hc hexec
      (h.silent_step hstep hkept rfl fun _ hk => hk) hout
      (fun q hq => known_pushEvent rfl hq) (addressed_push h.addressed ?_)⟩
    intro key hkey p htype hpkey hknown
    obtain rfl := IOEvent.data.inj hkey
    obtain ⟨hheld, hown, htype'⟩ := h.owners p hknown
    obtain ⟨q, hq, -⟩ := (Option.any_eq_true ..).mp havail
    have hentry := h.sound.entry r.packet.uid q hq
    obtain rfl := h.owner hknown hentry.1 (hentry.2.trans hpkey.symm)
    exact hc p.id hq (htype'.trans htype)
  | @close uid ha hfound hout hevents =>
    subst ha
    rw [asks_event hevents]
    obtain ⟨hstep, hkept⟩ := hpush (.close uid) rfl
    exact ⟨.inr ⟨_, hstep, hkept⟩, h.asked_old hc hexec
      (h.silent_step hstep hkept rfl fun _ hk => hk) hout
      (fun q hq => known_pushEvent rfl hq) (addressed_push h.addressed fun k hk => by cases hk)⟩

/-! ### Notifications that are handled out of their place -/

omit [KeyPool] [IntrusiveNode L] in
/-- What concerns a protocol stays in its order. -/
theorem fetched_filter {n : IONotify} {front back : List IONotify}
    (hfirst : ∀ m ∈ front, m.protocol ≠ n.protocol) (p : ProtocolId) :
    (n :: (front ++ back)).filter (fun n => n.protocol = p) =
      (front ++ n :: back).filter fun n => n.protocol = p := by
  by_cases heq : n.protocol = p
  · have hnone : front.filter (fun n => n.protocol = p) = [] :=
      List.filter_eq_nil_iff.mpr fun m hm => by simpa [← heq] using hfirst m hm
    simp [heq, hnone]
  · simp [heq]

omit [IntrusiveNode L] in
theorem Coupled.fetched (h : σ.Coupled) {n : IONotify} (hfetches : σ.engine.Fetches n engine) :
    ({ σ with engine } : System L).Coupled := by
  obtain ⟨front, back, hnotices, hfirst, hconn⟩ := hfetches.notices
  have hperm : σ.engine.connections.notices.Perm (n :: (front ++ back)) :=
    hnotices ▸ List.perm_middle
  have hsound : engine.connections.Sound := hconn ▸ h.sound.perm hperm
  have hheeds {p : ProtocolId} {done pending : List (IOProtocol × Notice)}
      (hheeds : Heeds σ.engine.connections p done pending) :
      Heeds engine.connections p done pending := by
    rw [hconn]
    refine hheeds.calm rfl rfl ?_ fun hknown => ⟨hknown, rfl⟩
    rw [hnotices]
    exact fetched_filter hfirst p
  cases hfetches with
  | mk =>
    refine ⟨hsound, h.nodup, h.inv, h.typed, h.owners, h.taken, h.addressed, fun p hp => ?_⟩
    obtain ⟨done, pending, hold, hphase⟩ := h.follows p hp
    exact ⟨done, pending, hheeds hold, hphase⟩

/-- A step of the engine, with the message queue as it is or with a notification taken to its front, and
what it asks the network for. -/
def Serves (σ : System L) (a : Action SerializeMessage) (τ : System L) : Prop :=
  ∃ e, (e = σ.engine ∨ ∃ n, σ.engine.Fetches n e) ∧
    ({ σ with engine := e } : System L).Contract (.engine a) ∧
    ∃ engine, e.exec a = .ok engine ∧ τ = ({ σ with engine := e } : System L).asks engine

theorem Coupled.serves (h : σ.Coupled) (hserves : σ.Serves a τ) :
    σ.engine.Served a τ.engine ∧ (τ.net = σ.net ∨
      ∃ b, σ.net.Step b τ.net ∧ ∀ key, b ≠ .pushKey key) ∧ τ.Coupled := by
  obtain ⟨e, hfetched, hc, engine, hexec, rfl⟩ := hserves
  have hcoupled : ({ σ with engine := e } : System L).Coupled := by
    rcases hfetched with rfl | ⟨n, hfetches⟩
    · exact h
    · exact h.fetched hfetches
  obtain ⟨hnet, hcoupled'⟩ := hcoupled.engine_step hc hexec
  exact ⟨⟨e, hfetched, hcoupled.permitted hc hexec⟩, hnet, hcoupled'⟩

/-- A call of `confirmListen` or `confirmConnect` handles no `PacketAccept`. -/
def Confirms (σ : System L) (a : Action SerializeMessage) (τ : System L) : Prop :=
  σ.Serves a τ ∧ ∀ n, a = .dispatch (.notify n) → n.type ≠ .PacketAccept

omit [KeyPool] [IntrusiveNode L] in
theorem asks_asks {e engine : IOEngine L SerializeMessage} (hevents : e.events = σ.engine.events) :
    (σ.asks e).asks engine = σ.asks engine := by
  rw [asks_quiet hevents]
  simp only [asks, hevents]

/-- A call of `confirmListen` or `confirmConnect` is a run of such steps. -/
theorem Coupled.confirm_run (h : σ.Coupled) {uid : UInt32} {confirmed : Bool}
    (hconfirm : σ.engine.confirm uid = .ok (confirmed, engine)) :
    ∃ as, Run Confirms σ as (σ.asks engine) := by
  rcases IOEngine.confirm_cases h.sound hconfirm with rfl | ⟨p, ρ, hfound, hpoll, hclose⟩
  · rw [asks_quiet rfl]
    exact ⟨[], .nil⟩
  have hpolled : ∃ as, Run Confirms σ as (σ.asks ρ) := by
    rcases IOEngine.pollOnePacket_cases hpoll with rfl | ⟨n, e, rfl, hfetches, hexec⟩
    · rw [asks_quiet rfl]
      exact ⟨[], .nil⟩
    · obtain ⟨front, back, hnotices, -⟩ := hfetches.notices
      have hn : n ∈ σ.engine.connections.notices := hnotices ▸ by simp
      have hknown : σ.engine.connections.Known n.protocol :=
        (congrArg _ (h.sound.entry uid _ hfound).2).trans hfound
      cases hfetches with
      | mk hqueue hfirst =>
        have hserves : σ.Serves (.dispatch (.notify n)) (σ.asks ρ) :=
          ⟨_, .inr ⟨n, .mk hqueue hfirst⟩, rfl, ρ, hexec, rfl⟩
        refine ⟨_, Run.nil.snoc ⟨hserves, fun n' heq haccept => ?_⟩⟩
        obtain rfl := Packet.notify.inj (Action.dispatch.inj heq)
        exact h.sound.waiting n hn haccept hknown
  obtain ⟨as, hrun⟩ := hpolled
  rcases hclose with rfl | hclose
  · exact ⟨as, hrun⟩
  · have hserves : (σ.asks ρ).Serves (.close uid) (σ.asks engine) :=
      ⟨_, .inl rfl, trivial, engine, hclose, (asks_asks (IOEngine.pollOnePacket_events hpoll)).symm⟩
    exact ⟨_, hrun.snoc ⟨hserves, fun n heq => by cases heq⟩⟩

/-- What is kept by such steps is kept by a call of `confirmListen` or `confirmConnect`. -/
theorem Coupled.confirmed (h : σ.Coupled) {uid : UInt32} {confirmed : Bool}
    (hconfirm : σ.engine.confirm uid = .ok (confirmed, engine)) :
    (∃ bs, Run IOEngine.Served σ.engine bs (σ.asks engine).engine) ∧
      (∃ bs, Run CNetwork.Step σ.net bs (σ.asks engine).net) ∧ (σ.asks engine).Coupled := by
  obtain ⟨as, hrun⟩ := h.confirm_run hconfirm
  generalize σ.asks engine = τ at hrun
  induction hrun with
  | nil => exact ⟨⟨[], .nil⟩, ⟨[], .nil⟩, h⟩
  | snoc hprev hstep ih =>
    obtain ⟨⟨bs, hengine⟩, ⟨cs, hnet⟩, h⟩ := ih
    obtain ⟨hserved, hnext, hcoupled⟩ := h.serves hstep.1
    refine ⟨⟨_, hengine.snoc hserved⟩, ?_, hcoupled⟩
    rcases hnext with hsame | ⟨b, hstep, -⟩
    · exact ⟨cs, hsame ▸ hnet⟩
    · exact ⟨_, hnet.snoc hstep⟩

/-! ### The steps of the network -/

section

variable {b : Network.Action} {new : List (IOProtocol × Notice)} {accepted : List IOProtocol}

omit [IntrusiveNode L] in
/-- What the network relies on. -/
theorem Coupled.answered_pre (h : σ.Coupled) (hc : σ.Contract (.network b)) :
    σ.net.Pre (σ.answered b) ∧
      (Action.Runs (σ.answered b) ∨ ∃ object, σ.answered b = .recycle object) := by
  cases b with
  | dispatch ans =>
    exact ⟨⟨hc, fun key hkey => h.connection hkey⟩, .inl trivial⟩
  | poll key event ans => exact ⟨hc, .inl trivial⟩
  | fire con timer ans => exact ⟨hc, .inl trivial⟩
  | recycle object => exact ⟨hc, .inr ⟨object, rfl⟩⟩
  | listen => exact hc.elim
  | connect => exact hc.elim
  | push => exact hc.elim
  | pushKey => exact hc.elim

omit [IntrusiveNode L] in
/-- What is told a protocol other than one that is accepted is for its type. -/
theorem Coupled.owned (h : σ.Coupled) (hstep : σ.net.Step b net)
    (hkept : ∀ key, b ≠ .pushKey key) (hreport : Report σ.net b new accepted net)
    {call : IOProtocol × Notice} (hcall : call ∈ new) (hnone : acceptedProtocol call = none) :
    σ.engine.Owned call := by
  obtain ⟨hheld, hkey, htype⟩ := h.owners _ (hreport.about call hcall hnone)
  refine ⟨hheld, hkey, htype.trans ?_⟩
  obtain ⟨done, pending, -, hphase⟩ := h.follows _ hheld
  rw [hkey] at hphase
  obtain ⟨new', hnew', hphase⟩ := step_hears h.inv h.typed hstep (hkept call.1.key) hphase
  obtain rfl : new' = new := List.append_cancel_left (hnew'.symm.trans hreport.notices)
  obtain ⟨p, ns, hheard, hpattern⟩ := hphase.told
  have hmem : call ∈ ns.map (p, ·) := by
    rw [← hheard]
    exact List.mem_append_right _ (List.mem_filter.mpr ⟨hcall, by simp⟩)
  obtain ⟨n, hn, rfl⟩ := List.mem_map.mp hmem
  exact (hpattern.about hn).symm

omit [IntrusiveNode L] in
/-- What the protocols have heard, after a step of the network that tells `new`. -/
theorem Coupled.heard (h : σ.Coupled) (hstep : σ.net.Step b net)
    (hkept : ∀ key, b ≠ .pushKey key) (hnotices : net.notices = σ.net.notices ++ new)
    {c : Connections} (hsound : c.Sound)
    (hfollows : ∀ p ∈ c.outstanding, ∃ done pending,
      Heeds c p done pending ∧ σ.net.Phase (c.protocol p).key (done ++ pending))
    (hcalls : ∀ call ∈ new, call.1.id ∈ c.outstanding ∧
      (c.protocol call.1.id).key = call.1.key ∧ (c.protocol call.1.id).type = call.1.type)
    (hp : p ∈ c.outstanding) : ∃ done pending,
      Heeds { c with notices := c.notices ++ new.map posted } p done pending ∧
        net.Phase (c.protocol p).key (done ++ pending) := by
  obtain ⟨done, pending, hheeds, hphase⟩ := hfollows p hp
  obtain ⟨new', hnew', hphase⟩ := step_hears h.inv h.typed hstep (hkept _) hphase
  obtain rfl : new' = new := List.append_cancel_left (hnew'.symm.trans hnotices)
  refine ⟨done, _, hheeds.hear ?_ ?_, by rwa [List.append_assoc] at hphase⟩
  · intro call hcall
    obtain ⟨hheld, hkey, -⟩ := hcalls call hcall
    constructor
    · rintro rfl
      exact hkey.symm
    · intro heq
      exact hsound.unique _ hheld p hp (hkey.trans heq)
  · rintro call hcall rfl
    exact (hcalls call hcall).2.2.symm

omit [IntrusiveNode L] in
/-- The data that is left in the queue is still for no listener. -/
theorem Coupled.addressed_rest (h : σ.Coupled) (hinv : net.Inv) {front : List IOEvent}
    (hqueue : σ.net.eventQueue = front ++ net.eventQueue)
    (hknown : ∀ p, net.Known p → σ.net.Known p ∨ p.type = .SESSION) : Addressed net := by
  intro front' key back hrest p htype hkey
  have hsplit : σ.net.eventQueue = front ++ front' ++ .data key :: back := by
    rw [hqueue, hrest, List.append_assoc]
  obtain ⟨hunheld, hfront⟩ := h.addressed _ key back hsplit p htype hkey
  refine ⟨fun id hholds => ?_, fun e he => hfront e (List.mem_append_right front he)⟩
  rcases hknown p (.inl ⟨id, hholds⟩) with (⟨id', hold⟩ | ⟨e, he, hp⟩) | hsession
  · exact hunheld id' hold
  · rw [hsplit] at he
    rcases List.mem_append.mp he with he | he
    · exact hfront e he hp
    · -- what is still to bring the listener has its key, so there is no object of it
      obtain ⟨o, ho, hop⟩ := hholds
      obtain ⟨p', hp', hk, -⟩ := hinv.held_protocol ho
      obtain rfl := Option.some.inj (hop.symm.trans hp')
      have he : e ∈ net.eventQueue := hrest ▸ List.mem_append_right front' he
      have hpkey : e.protocolKey = some p.key := by
        cases e with
        | listen port protocol | connect address protocol =>
          obtain rfl := Option.some.inj hp
          rfl
        | data | close | clear => cases hp
      exact (hinv.queued e he p.key hpkey).2 id o ho hk.symm
  · exact absurd (htype.symm.trans hsession) (by decide)

omit [KeyPool] [IntrusiveNode L] in
theorem queue_rest (net : CNetwork) (b : Network.Action) :
    ∃ front, net.eventQueue = front ++ net.rest b := by
  cases b with
  | dispatch ans =>
    refine ⟨net.eventQueue.take 1, ?_⟩
    rw [CNetwork.rest, ← List.drop_one, List.take_append_drop]
  | poll | fire | listen | connect | push | pushKey | recycle => exact ⟨[], rfl⟩

omit [IntrusiveNode L] in
/-- What the network has told goes to an engine with the connections `c`, in which the protocols that
are accepted have been made. -/
theorem Coupled.joined (h : σ.Coupled) (hstep : σ.net.Step b net)
    (hkept : ∀ key, b ≠ .pushKey key) (hreport : Report σ.net b new accepted net)
    {c : Connections} (hsound : c.Sound) (hnodup : c.outstanding.Nodup)
    (hold : ∀ p ∈ σ.engine.outstanding, p ∈ c.outstanding ∧ c.protocol p = σ.engine.protocol p)
    (haccepted : ∀ p ∈ accepted, p.type = .SESSION ∧ p.id ∈ c.outstanding ∧
      (c.protocol p.id).key = p.key ∧ (c.protocol p.id).type = p.type)
    (hheld : ∀ p ∈ c.outstanding, p ∈ σ.engine.outstanding ∨
      ∃ q ∈ accepted, q.key = (c.protocol p).key)
    (hfollows : ∀ p ∈ c.outstanding, ∃ done pending,
      Heeds c p done pending ∧ σ.net.Phase (c.protocol p).key (done ++ pending))
    {engine : IOEngine L SerializeMessage}
    (hengine : engine.connections = { c with notices := c.notices ++ new.map posted })
    (hengine_sound : engine.connections.Sound) : (⟨engine, net⟩ : System L).Coupled := by
  have hinv : net.Inv := by
    have houtcome := exec_outcome h.inv hstep.1
    rwa [hstep.2] at houtcome
  have hout : engine.outstanding = c.outstanding := congrArg Connections.outstanding hengine
  have hprotocol : engine.protocol = c.protocol := congrArg Connections.protocol hengine
  have howned {q : IOProtocol} (hq : q.id ∈ σ.engine.outstanding ∧
      (σ.engine.protocol q.id).key = q.key ∧ (σ.engine.protocol q.id).type = q.type) :
      q.id ∈ c.outstanding ∧ (c.protocol q.id).key = q.key ∧ (c.protocol q.id).type = q.type := by
    obtain ⟨hmem, hsame⟩ := hold q.id hq.1
    exact ⟨hmem, hsame ▸ hq.2⟩
  have hcalls : ∀ call ∈ new, call.1.id ∈ c.outstanding ∧
      (c.protocol call.1.id).key = call.1.key ∧ (c.protocol call.1.id).type = call.1.type := by
    intro call hcall
    cases hsome : acceptedProtocol call with
    | none => exact howned (h.owners _ (hreport.about call hcall hsome))
    | some q =>
      have hq : q ∈ accepted := hreport.sessions ▸ List.mem_filterMap.mpr ⟨call, hcall, hsome⟩
      obtain rfl : call.1 = q := by
        obtain ⟨p, notice⟩ := call
        cases notice with
        | onAccept => exact Option.some.inj hsome
        | onListen | onUnlisten | onClose | onConnect | onDisConnect => cases hsome
      exact (haccepted _ hq).2
  refine ⟨hengine_sound, hout ▸ hnodup, hinv, step_typed h.inv h.typed hstep, ?_, ?_, ?_, ?_⟩
  · intro q hq
    change q.id ∈ engine.outstanding ∧ (engine.protocol q.id).key = q.key ∧
      (engine.protocol q.id).type = q.type
    rw [hout, hprotocol]
    rcases hreport.known q hq with hq | hq
    · exact howned (h.owners q hq)
    · exact (haccepted q hq).2
  · intro p hp
    change (engine.protocol p).key ∈ net.outstanding
    have hp : p ∈ c.outstanding := hout ▸ hp
    rw [hprotocol]
    rcases hheld p hp with hmem | ⟨q, hq, hkey⟩
    · rw [(hold p hmem).2]
      exact hreport.steady.outstanding _ (h.taken p hmem)
    · exact hkey ▸ hreport.steady.taken q hq
  · obtain ⟨front, hfront⟩ := queue_rest σ.net b
    have hqueue : σ.net.eventQueue = front ++ net.eventQueue := by
      rw [hreport.steady.queue]
      exact hfront
    exact h.addressed_rest hinv hqueue fun p hp =>
      (hreport.known p hp).imp_right fun hq => (haccepted p hq).1
  · intro p hp
    have hp : p ∈ c.outstanding := hout ▸ hp
    obtain ⟨done, pending, hheeds, hphase⟩ :=
      h.heard hstep hkept hreport.notices hsound hfollows hcalls hp
    refine ⟨done, pending, ?_, ?_⟩
    · change Heeds engine.connections p done pending
      rwa [hengine]
    · change net.Phase (engine.protocol p).key (done ++ pending)
      rwa [hprotocol]

omit [KeyPool] [IntrusiveNode L] in
/-- A protocol that a step makes has the next number of the engine. -/
theorem made_answered (h : Made (σ.answered b) accepted) : accepted = [] ∨
    ∃ key event ans, b = .poll key event ans ∧ ans.key ≠ 0 ∧
      accepted = [ans.session σ.engine.created] := by
  generalize hb : σ.answered b = b' at h
  cases h with
  | none => exact .inl rfl
  | @session key event ans id hid hne =>
    cases b with
    | poll key' event' ans' =>
      obtain ⟨-, -, rfl⟩ := Network.Action.poll.inj hb
      obtain ⟨n, -, rfl⟩ := Option.map_eq_some_iff.mp hid
      exact .inr ⟨key', event', ans', rfl, hne, rfl⟩
    | dispatch | fire | listen | connect | push | pushKey | recycle => cases hb

omit [IntrusiveNode L] in
/-- The connections with the protocol of a connection that is accepted. -/
theorem Coupled.making (h : σ.Coupled) {q : IOProtocol} (hid : q.id = σ.engine.created)
    (hne : q.key ≠ 0) (hfree : σ.net.Free q.key) :
    (IOEngine.making σ.engine.connections q).Sound ∧
      (IOEngine.making σ.engine.connections q).outstanding.Nodup ∧
      (IOEngine.making σ.engine.connections q).protocol q.id = { type := .SESSION, key := q.key } ∧
      (∀ p ∈ σ.engine.outstanding,
        p ≠ q.id ∧ (IOEngine.making σ.engine.connections q).protocol p = σ.engine.protocol p) ∧
      ∀ p ∈ (IOEngine.making σ.engine.connections q).outstanding, ∃ done pending,
        Heeds (IOEngine.making σ.engine.connections q) p done pending ∧
          σ.net.Phase ((IOEngine.making σ.engine.connections q).protocol p).key (done ++ pending) := by
  have hblank : (σ.engine.protocol σ.engine.created).key = 0 := by
    by_contra hkey
    exact absurd (h.sound.made _ hkey) (Nat.lt_irrefl _)
  have hother (p : ProtocolId) (hp : p ∈ σ.engine.outstanding) : p ≠ σ.engine.created := by
    rintro rfl
    exact h.sound.owned _ hp hblank
  have hunheld : q.key ∉ σ.net.outstanding := by
    intro hheld
    rcases hfree with hzero | hfree
    · exact hne hzero
    · exact hfree q.key hheld rfl
  have hfree' : ∀ p ∈ σ.engine.outstanding, (σ.engine.protocol p).key ≠ q.key := by
    intro p hp heq
    exact hunheld (heq ▸ h.taken p hp)
  rw [hid]
  refine ⟨h.sound.create.own hblank (Nat.lt_succ_self _) hne hfree' .SESSION, ?_,
    Connections.own_self, fun p hp => ⟨hother p hp, Connections.own_ne (hother p hp)⟩, ?_⟩
  · exact List.nodup_cons.mpr ⟨fun hmem => hother _ hmem rfl, h.nodup⟩
  · intro p hp
    rcases List.mem_cons.mp hp with rfl | hp
    · have hself : (IOEngine.making σ.engine.connections q).protocol σ.engine.created =
          { type := .SESSION, key := q.key } := Connections.own_self
      refine ⟨[], [], .fresh ?_ (congrArg Protocol.available hself), ?_⟩
      · exact fun n hn => hother _ (h.sound.notice n hn).1
      · rw [show σ.engine.connections.created = σ.engine.created from rfl, hself]
        exact h.inv.phase_of_free hunheld
    · obtain ⟨done, pending, hheeds, hphase⟩ := h.follows p hp
      have hsame : (IOEngine.making σ.engine.connections q).protocol p = σ.engine.protocol p :=
        Connections.own_ne (hother p hp)
      refine ⟨done, pending, hheeds.calm (congrArg Protocol.key hsame)
        (congrArg Protocol.type hsame) rfl fun hknown => ?_, hsame ▸ hphase⟩
      exact ⟨(Connections.own_known_ne (hother p hp)).mp hknown, congrArg Protocol.available hsame⟩

/-- What a step of the network makes of the engine's connections: what is told is posted, and the
protocol of a connection that is accepted is made. -/
inductive Joins (σ : System L) : Connections → Prop
  | told (new : List (IOProtocol × Notice)) :
      Joins σ { σ.engine.connections with
        notices := σ.engine.connections.notices ++ new.map posted }
  | accepted {new : List (IOProtocol × Notice)} {q fromProtocol : IOProtocol}
      (hid : q.id = σ.engine.created) (hne : q.key ≠ 0) (hfree : σ.net.Free q.key)
      (hcall : (q, .onAccept fromProtocol) ∈ new) :
      Joins σ { IOEngine.making σ.engine.connections q with
        notices := σ.engine.connections.notices ++ new.map posted }

/-- A step of the network, with those of the engine's contract that what it tells and reads makes. -/
theorem Coupled.network_step (h : σ.Coupled) (hc : σ.Contract (.network b))
    (hexec : σ.network b = .ok τ) :
    (∃ as, Run IOEngine.Permitted σ.engine as τ.engine) ∧ σ.net.Step (σ.answered b) τ.net ∧
      (∀ key, σ.answered b ≠ .pushKey key) ∧ σ.Joins τ.engine.connections ∧ τ.Coupled := by
  obtain ⟨hpre, hruns⟩ := h.answered_pre hc
  obtain ⟨net, hnet, hexec⟩ := of_bind_ok hexec
  obtain ⟨packets, -, hexec⟩ := of_bind_ok hexec
  obtain rfl := Except.ok.inj hexec
  have hstep : σ.net.Step (σ.answered b) net := ⟨hpre, hnet⟩
  have hkept (key : UInt32) : σ.answered b ≠ .pushKey key := by
    rcases hruns with hruns | ⟨object, hobject⟩
    · rintro heq
      rw [heq] at hruns
      exact hruns
    · rw [hobject]
      exact fun heq => by cases heq
  obtain ⟨new, accepted, hreport⟩ := step_report h.inv hstep hruns
  have hnew : net.notices.drop σ.net.notices.length = new := by
    rw [hreport.notices, List.drop_left]
  obtain ⟨⟨as₁, hrun₁⟩, hconn₁⟩ := IOEngine.posts_run packets σ.engine
  -- the engine after what was read is posted has the same connections
  generalize hposted :
    packets.foldl (fun e packet => e.postPacket (.msg packet)) σ.engine = e at hrun₁ hconn₁
  have hτ : σ.hears packets net = ⟨new.foldl IOEngine.notified e, net⟩ := by
    rw [hears, hposted, hnew]
  rw [hτ]
  have hsound₁ : e.connections.Sound := hconn₁ ▸ h.sound
  have hprotocol : e.protocol = σ.engine.protocol := congrArg Connections.protocol hconn₁
  have hout : e.outstanding = σ.engine.outstanding := congrArg Connections.outstanding hconn₁
  have howned : ∀ call ∈ new, acceptedProtocol call = none → e.Owned call := by
    intro call hcall hnone
    obtain ⟨hheld, hkey, htype⟩ := h.owned hstep hkept hreport hcall hnone
    exact ⟨hout ▸ hheld, hprotocol ▸ hkey, hprotocol ▸ htype⟩
  have hlast {engine : IOEngine L SerializeMessage} {as : List (Action SerializeMessage)}
      (hrun : Run IOEngine.Permitted e as engine) : engine.connections.Sound :=
    hrun.invariant (fun σ => σ.connections.Sound)
      (fun _ _ _ h hstep => (IOEngine.step_change h hstep).sound h) hsound₁
  rcases made_answered hreport.made with rfl | ⟨key, event, ans, rfl, hne, rfl⟩
  · have hcalls : ∀ call ∈ new, acceptedProtocol call = none ∧ e.Owned call := by
      intro call hcall
      have hnone := List.filterMap_eq_nil_iff.mp hreport.sessions call hcall
      exact ⟨hnone, howned call hcall hnone⟩
    obtain ⟨⟨as, hrun⟩, hconn⟩ := IOEngine.notified_run e hcalls
    rw [hconn₁] at hconn
    refine ⟨⟨_, hrun₁.append hrun⟩, hstep, hkept, hconn ▸ .told new, ?_⟩
    exact h.joined hstep hkept hreport h.sound h.nodup (fun p hp => ⟨hp, rfl⟩)
      (fun p hp => absurd hp List.not_mem_nil) (fun p hp => .inl hp) h.follows hconn (hlast hrun)
  · have hcreated : e.created = σ.engine.created := congrArg Connections.created hconn₁
    have hfree : σ.net.Free ans.key := hc.1
    have hfree_e : e.Free ans.key := by
      refine (h.free hfree).imp_right fun hunowned p hp => ?_
      rw [hprotocol]
      exact hunowned p (hout ▸ hp)
    obtain ⟨hsound, hnodup, hself, hother, hfollows⟩ :=
      h.making (q := ans.session σ.engine.created) rfl hne hfree
    obtain ⟨⟨as, hrun⟩, hconn⟩ := IOEngine.welcomed_run hsound₁ hreport.sessions
      hcreated.symm hne hfree_e howned
    rw [hconn₁] at hconn
    obtain ⟨fromProtocol, hcall⟩ : ∃ q, (ans.session σ.engine.created, .onAccept q) ∈ new := by
      have hmem : ans.session σ.engine.created ∈ new.filterMap acceptedProtocol :=
        hreport.sessions ▸ List.mem_singleton_self _
      obtain ⟨⟨p, notice⟩, hcall, hsome⟩ := List.mem_filterMap.mp hmem
      cases notice with
      | onAccept q =>
        obtain rfl := Option.some.inj hsome
        exact ⟨q, hcall⟩
      | onListen | onUnlisten | onClose | onConnect | onDisConnect => cases hsome
    refine ⟨⟨_, hrun₁.append hrun⟩, hstep, hkept, hconn ▸ .accepted rfl hne hfree hcall, ?_⟩
    refine h.joined hstep hkept hreport hsound hnodup ?_ ?_ ?_ hfollows hconn (hlast hrun)
    · exact fun p hp => ⟨List.mem_cons_of_mem _ hp, (hother p hp).2⟩
    · intro p hp
      obtain rfl := List.mem_singleton.mp hp
      exact ⟨rfl, List.mem_cons_self, congrArg Protocol.key hself, congrArg Protocol.type hself⟩
    · intro p hp
      rcases List.mem_cons.mp hp with rfl | hp
      · exact .inr ⟨_, List.mem_singleton_self _, (congrArg Protocol.key hself).symm⟩
      · exact .inl hp

end

/-! ### Other steps -/

omit [IntrusiveNode L] in
theorem Coupled.clear (h : σ.Coupled) (group : Int) :
    σ.net.Step (.push (.clear group)) (σ.net.pushEvent (.clear group)) ∧
      ({ σ with net := σ.net.pushEvent (.clear group) } : System L).Coupled := by
  have hstep : σ.net.Step (.push (.clear group)) (σ.net.pushEvent (.clear group)) := ⟨rfl, rfl⟩
  have hsilent := h.silent_step hstep (fun _ heq => by cases heq) rfl fun _ hk => hk
  refine ⟨hstep, h.sound, h.nodup, hsilent.inv, hsilent.typed,
    fun q hq => h.owners q (known_pushEvent rfl hq), h.taken,
    addressed_push h.addressed (fun _ heq => by cases heq), fun p hp => ?_⟩
  obtain ⟨done, pending, hheeds, hphase⟩ := h.follows p hp
  exact ⟨done, pending, hheeds, hsilent.phase _ _ hphase⟩

/-- A protocol goes when nothing of the process has it any more. -/
theorem Coupled.recycle (h : σ.Coupled) (hc : σ.Contract (.recycle p)) :
    σ.engine.Permitted (.recycle p) (σ.engine.recycle p) ∧
      σ.net.Step (.pushKey (σ.engine.protocol p).key) (σ.net.pushKey (σ.engine.protocol p).key) ∧
      (σ.recycle p).Coupled := by
  obtain ⟨hp, htable, hnotices, hunknown⟩ := hc
  -- what has the key is of the protocol
  have hgone {protocol : IOProtocol} (hknown : σ.net.Known protocol) :
      protocol.key ≠ (σ.engine.protocol p).key := fun hkey =>
    hunknown protocol hknown (h.owner hknown hp hkey.symm)
  have hunused : σ.net.Unused (σ.engine.protocol p).key := by
    constructor
    · intro id o ho hkey
      obtain ⟨protocol, hprotocol, hk, -⟩ := h.inv.held_protocol ho
      exact hgone (.inl ⟨id, o, ho, hprotocol⟩) (hk.trans hkey)
    · intro hmem
      obtain ⟨event, hevent, hkey⟩ := List.mem_map.mp hmem
      cases event with
      | listen port protocol => exact hgone (.inr ⟨_, hevent, rfl⟩) (Option.some.inj hkey)
      | connect address protocol => exact hgone (.inr ⟨_, hevent, rfl⟩) (Option.some.inj hkey)
      | data | close | clear => cases hkey
  have hstep : σ.net.Step (.pushKey (σ.engine.protocol p).key)
      (σ.net.pushKey (σ.engine.protocol p).key) := ⟨hunused, rfl⟩
  have hpermitted : σ.engine.Permitted (.recycle p) (σ.engine.recycle p) :=
    ⟨⟨fun _ heq => (by cases heq), rfl⟩, htable, hnotices⟩
  have hkeys {q : ProtocolId} (hq : q ∈ σ.engine.outstanding.erase p) :
      q ∈ σ.engine.outstanding ∧ (σ.engine.protocol q).key ≠ (σ.engine.protocol p).key := by
    obtain ⟨hne, hheld⟩ := h.nodup.mem_erase_iff.mp hq
    exact ⟨hheld, fun hkey => hne (h.sound.unique q hheld p hp hkey)⟩
  have hinv : (σ.net.pushKey (σ.engine.protocol p).key).Inv := exec_outcome h.inv hstep.1
  refine ⟨hpermitted, hstep, (IOEngine.step_change h.sound hpermitted).sound h.sound,
    h.nodup.erase p, hinv, step_typed h.inv h.typed hstep, ?_, ?_, h.addressed, ?_⟩
  · intro q hq
    obtain ⟨hheld, hkey, htype⟩ := h.owners q hq
    exact ⟨(List.mem_erase_of_ne (hunknown q hq)).mpr hheld, hkey, htype⟩
  · intro q hq
    obtain ⟨hheld, hne⟩ := hkeys hq
    exact (List.mem_erase_of_ne hne).mpr (h.taken q hheld)
  · intro q hq
    obtain ⟨hheld, hne⟩ := hkeys hq
    obtain ⟨done, pending, hheeds, hphase⟩ := h.follows q hheld
    obtain ⟨new, hnew, hphase⟩ := step_hears h.inv h.typed hstep
      (fun heq => hne (Network.Action.pushKey.inj heq).symm) hphase
    obtain rfl : new = [] := List.append_right_eq_self.mp hnew.symm
    refine ⟨done, pending, hheeds.calm rfl rfl rfl fun hknown => ⟨hknown, rfl⟩, ?_⟩
    change Phase (σ.net.pushKey _) (σ.engine.protocol q).key (done ++ pending)
    simpa using hphase

/-- Before a process without the wake-up object, whose key is taken, has made any step. -/
def unwoken (key : UInt32) : System L where
  engine := .init
  net := { outstanding := [key], created := 1 }

theorem coupled_unwoken (key : UInt32) : (unwoken key : System L).Coupled where
  sound := IOEngine.sound_init
  nodup := List.nodup_nil
  inv := { inv_empty with
    held := fun _ _ hheap => by cases hheap
    slots := fun _ hk _ hk' _ => (List.mem_singleton.mp hk).trans (List.mem_singleton.mp hk').symm
    queued := fun _ he => by cases he }
  typed := by
    intro e he
    cases he
  owners := by
    rintro p (⟨id, o, ho, -⟩ | ⟨e, he, -⟩)
    · cases ho
    · cases he
  taken p hp := by cases hp
  addressed := by
    intro front key' back hqueue
    exact absurd hqueue (by simp [unwoken])
  follows p hp := by cases hp

/-! ### Any step -/

/-- What a step makes of each part, and it keeps what couples them. -/
theorem Coupled.step {a : SystemAction} (h : σ.Coupled) (hstep : σ.Step a τ) :
    (∃ bs, Run IOEngine.Served σ.engine bs τ.engine) ∧
      (∃ bs, Run CNetwork.Step σ.net bs τ.net) ∧ τ.Coupled := by
  obtain ⟨hc, hexec⟩ := hstep
  cases a with
  | engine a =>
    obtain ⟨engine, hengine, hexec⟩ := of_bind_ok hexec
    obtain rfl := Except.ok.inj hexec
    obtain ⟨hnet, hcoupled⟩ := h.engine_step hc hengine
    refine ⟨⟨_, Run.nil.snoc (h.permitted hc hengine).served⟩, ?_, hcoupled⟩
    rcases hnet with hsame | ⟨b, hstep, -⟩
    · rw [hsame]
      exact ⟨[], .nil⟩
    · exact ⟨_, Run.nil.snoc hstep⟩
  | confirmListen uid | confirmConnect uid =>
    obtain ⟨⟨confirmed, engine⟩, hconfirm, hexec⟩ := of_bind_ok hexec
    obtain rfl := Except.ok.inj hexec
    exact h.confirmed hconfirm
  | network b =>
    obtain ⟨⟨bs, hrun⟩, hnet, -, -, hcoupled⟩ := h.network_step hc hexec
    exact ⟨⟨bs, hrun.mono fun _ _ _ hstep => hstep.served⟩, ⟨_, Run.nil.snoc hnet⟩, hcoupled⟩
  | clear group =>
    obtain rfl := Except.ok.inj hexec
    obtain ⟨hnet, hcoupled⟩ := h.clear group
    exact ⟨⟨[], .nil⟩, ⟨_, Run.nil.snoc hnet⟩, hcoupled⟩
  | recycle p =>
    obtain rfl := Except.ok.inj hexec
    obtain ⟨hpermitted, hnet, hcoupled⟩ := h.recycle hc
    exact ⟨⟨_, Run.nil.snoc hpermitted.served⟩, ⟨_, Run.nil.snoc hnet⟩, hcoupled⟩

omit [IntrusiveNode L] in
theorem network_error {b : Network.Action} {f : Fault} : σ.network b = .error f ↔
    σ.net.exec (σ.answered b) = .error f ∨
      (∃ net, σ.net.exec (σ.answered b) = .ok net) ∧ σ.received b = .error f := by
  unfold network
  cases σ.net.exec (σ.answered b) with
  | error f' =>
    constructor
    · rintro ⟨⟩
      exact .inl rfl
    · rintro (⟨⟨⟩⟩ | ⟨⟨net, hnet⟩, -⟩)
      · rfl
      · cases hnet
  | ok net =>
    cases σ.received b with
    | error f' =>
      constructor
      · rintro ⟨⟩
        exact .inr ⟨⟨net, rfl⟩, rfl⟩
      · rintro (⟨⟨⟩⟩ | ⟨-, ⟨⟩⟩)
        rfl
    | ok packets =>
      constructor
      · rintro ⟨⟩
      · rintro (⟨⟨⟩⟩ | ⟨-, ⟨⟩⟩)

omit [IntrusiveNode L] in
/-- A step of the network thread fails only for what comes from outside: a size past 32 bits, an end
point without names, or a frame that cannot be read. -/
theorem Coupled.fails (h : σ.Coupled) {b : Network.Action} {f : Fault}
    (hc : σ.Contract (.network b)) (hexec : σ.network b = .error f) :
    Foreign f ∨ σ.received b = .error f := by
  refine (network_error.mp hexec).imp (fun hfails => ?_) And.right
  have houtcome := exec_outcome h.inv (h.answered_pre hc).1
  rwa [hfails] at houtcome

theorem step_next {a : SystemAction} (hc : σ.Contract a) (hok : (σ.exec a).toBool = true) :
    σ.Step a (σ.next a) := by
  refine ⟨hc, ?_⟩
  unfold next
  cases hexec : σ.exec a with
  | ok τ => rfl
  | error f => simp [hexec, Except.toBool] at hok

end System

end ZlNet.Engine
