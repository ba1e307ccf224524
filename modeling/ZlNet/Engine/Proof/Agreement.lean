import ZlNet.Engine.Proof.Orphans
import ZlNet.Engine.Proof.Awake
import ZlNet.Network.Proof.Parting

/-! What the engine and the network thread have of each connection.  What the engine has as available is
there in the network, unless the engine is still to hear that it has gone; and what the network has is
available in the engine, unless the engine is still to hear of it or the network to close it. -/

namespace ZlNet.Engine

open Lib Network Network.CNetwork

/-! ### What leaves the table of the engine -/

namespace Connections

variable {c c' : Connections} {p : ProtocolId} {n : IONotify}

/-- The engine is still to hear that `p` was accepted. -/
def Awaited (c : Connections) (p : ProtocolId) : Prop :=
  ∃ n ∈ c.notices, n.type = .PacketAccept ∧ n.protocol = p

/-- What gets a key is in the table, or was accepted and waits. -/
theorem Change.joined {taken : Option IONotify} (hchange : Change c taken c')
    (hp : p ∈ c'.outstanding) : p ∈ c.outstanding ∨ c'.Known p ∨ c'.Awaited p := by
  cases hchange with
  | same => exact .inl hp
  | create => exact .inl hp
  | posted => exact .inl hp
  | recycled => exact .inl (List.mem_of_mem_erase hp)
  | closed => exact .inl hp
  | opened =>
    rcases List.mem_cons.mp hp with rfl | hp
    · exact .inr (.inl touch_known)
    · exact .inl hp
  | made =>
    rcases List.mem_cons.mp hp with rfl | hp
    · exact .inr (.inr ⟨_, List.mem_append_right _ (List.mem_singleton_self _), rfl, rfl⟩)
    · exact .inl hp
  | handled hnotices hhandled =>
    cases hhandled <;> exact .inl hp

/-- A protocol leaves the table with a notification that it has stopped. -/
theorem Handled.loses (h : Handled c n c') (hpopped : c.Popped n) (hp : c.Known p) :
    c'.Known p ∨ n.protocol = p ∧ n.Stops := by
  by_cases hself : n.protocol = p
  · subst hself
    cases h with
    | ignored => exact .inl hp
    | listened => exact .inl touch_known
    | connected => exact .inl touch_known
    | accepted => exact .inl touch_known
    | unlistened htype => exact .inr ⟨rfl, .inl htype⟩
    | closed htype => exact .inr ⟨rfl, .inr (.inl htype)⟩
    | disconnected htype => exact .inr ⟨rfl, .inr (.inr htype)⟩
  · exact .inl ((h.other hpopped (Ne.symm hself)).1.mpr hp)

end Connections

namespace IOEngine

open Connections

variable {L : Type} [IntrusiveNode L] {σ τ : IOEngine L SerializeMessage}
  {a : Action SerializeMessage} {p : ProtocolId} {n : IONotify}

/-- A protocol leaves the table when users close it, or when the engine hears that it has stopped. -/
theorem step_loses (h : σ.connections.Sound) (ha : Owns a) (hstep : σ.Permitted a τ)
    (hp : σ.connections.Known p) : τ.connections.Known p ∨
      (a = .close (σ.protocol p).key ∧ τ.events = σ.events ++ [.close (σ.protocol p).key]) ∨
      ∃ n, handles a = some n ∧ n.protocol = p ∧ n.Stops := by
  obtain ⟨⟨-, hexec⟩, hcontract⟩ := id hstep
  have hsame (hconn : τ.connections = σ.connections) : τ.connections.Known p := by
    rw [hconn]
    exact hp
  have hopened {q : ProtocolId} {type : EIOOBJECT_TYPE} {key : UInt32}
      {event : Event SerializeMessage} (hfree : σ.Free key)
      (hτ : (if (σ.protocol q).key ≠ 0 then σ else if key = 0 then σ
        else σ.takeKey q type key event) = τ) (hmade : q < σ.created) : τ.connections.Known p := by
    subst hτ
    apply takeKey_guard (P := fun τ => τ.connections.Known p) hp
    intro hblank hkey
    have hfree := hfree.resolve_left hkey
    have hne : p ≠ q := by
      rintro rfl
      exact h.owned p (h.held hp) hblank
    have hown := h.own hblank hmade hkey hfree type
    rw [takeKey_connections h hblank hfree, hown.touch_known_ne List.mem_cons_self (.inr rfl) hne,
      own_known_ne hne]
    exact hp
  cases a with
  | create =>
    obtain rfl := Except.ok.inj hexec
    rw [create_connections h]
    exact .inl hp
  | listen port q key => exact .inl (hopened hcontract.2 (Except.ok.inj hexec) hcontract.1)
  | connect address q key => exact .inl (hopened hcontract.2 (Except.ok.inj hexec) hcontract.1)
  | bindPacketHandler cmd handler =>
    obtain rfl := Except.ok.inj hexec
    refine .inl (hsame ?_)
    unfold bindPacketHandler
    split
    · rfl
    · rfl
  | send request => exact .inl (hsame (send_connections hexec))
  | timeout now =>
    obtain rfl := Except.ok.inj hexec
    exact .inl (hsame (timeout_connections now))
  | close uid =>
    rcases close_cases h hexec with rfl | ⟨q, calls, hfound, -, hconn⟩
    · exact .inl hp
    · obtain ⟨hheld, huid⟩ := h.entry uid q hfound
      by_cases hself : p = q
      · subst hself
        have htalks := close_talks (σ := σ) uid
        rw [show σ.close uid = .ok τ from hexec] at htalks
        rcases htalks with rfl | ⟨-, htalks⟩
        · exact .inl hp
        · have huid : (σ.protocol p).key = uid := huid
          rw [huid]
          exact .inr (.inl ⟨rfl, (congrArg events htalks :)⟩)
      · rw [hconn, h.touch_known_ne hheld (.inl rfl) hself]
        exact .inl hp
  | dispatch packet =>
    cases packet with
    | msg packet =>
      have hconn := onIOPacket_connections (σ := { σ with msgqueue := σ.msgqueue.tail })
        hstep.1.2
      rw [hconn]
      exact .inl hp
    | notify n =>
      obtain ⟨rest, -, -, hpopped, hexec⟩ := handles_cases h hstep rfl
      have hhandled := dispatchNotify_handled hpopped
      rw [hexec] at hhandled
      rcases Handled.loses hhandled hpopped hp with hknown | hstops
      · exact .inl hknown
      · exact .inr (.inr ⟨n, rfl, hstops⟩)
  | accept => exact ha.elim
  | post => exact ha.elim
  | recycle => exact ha.elim

/-- An accepted connection whose listener is there is put in the table. -/
theorem accept_known (h : σ.connections.Popped n) (htype : n.type = .PacketAccept)
    (hlistening : ∀ q, n.fromProtocol = some q → σ.Listening q)
    (hexec : σ.dispatchIOPacket (.notify n) = .ok τ) : τ.connections.Known n.protocol := by
  have habsent : (σ.setAvailable n.protocol).protocols (σ.protocol n.protocol).key = none :=
    h.sound.none_of_not_known h.held (h.waiting htype)
  have hexec : σ.onIOAccept n = .ok τ := by
    simp only [dispatchIOPacket, htype] at hexec
    exact hexec
  cases hfrom : n.fromProtocol with
  | none =>
    simp only [onIOAccept, hfrom] at hexec
    cases hexec
  | some q =>
  obtain ⟨hfound, havail⟩ := hlistening q hfrom
  simp only [onIOAccept, hfrom, hfound, havail, habsent, ne_eq, not_true_eq_false,
    Bool.not_true, Bool.false_eq_true, ite_false, ite_true] at hexec
  obtain rfl := Except.ok.inj hexec
  simp [Connections.Known, connections, upcall, insertProtocol, setAvailable, setProtocol]

end IOEngine

/-! ### The two together -/

namespace System

open Connections

variable {L : Type} [KeyPool] [IntrusiveNode L] {σ τ : System L} {p : ProtocolId}

/-- What the engine does not have, and is not to hear of, is leaving the network. -/
def Released (σ : System L) : Prop :=
  ∀ p ∈ σ.engine.outstanding, ¬σ.engine.connections.Known p → ¬σ.engine.connections.Awaited p →
    σ.net.Leaving (σ.engine.protocol p).key

/-- The listener of an accepted connection is there when the engine handles that it was accepted. -/
def Heedful (σ : System L) : SystemAction → Prop
  | .engine (.dispatch (.notify n)) =>
    n.type = .PacketAccept → ∀ q, n.fromProtocol = some q → σ.engine.Listening q
  | .engine _ | .confirmListen _ | .confirmConnect _ | .network _ | .clear _ | .recycle _ => True

omit [KeyPool] [IntrusiveNode L] in
theorem heedful_congr (h : τ.engine = σ.engine) {a : SystemAction} : τ.Heedful a ↔ σ.Heedful a := by
  simp only [Heedful, h]

variable {a : Action SerializeMessage} {engine : IOEngine L SerializeMessage}

theorem Released.engine_step (h : σ.Released) (hσ : σ.Coupled) (hc : σ.Contract (.engine a))
    (hheed : σ.Heedful (.engine a)) (hexec : σ.engine.exec a = .ok engine) :
    (σ.asks engine).Released := by
  have hpermitted := hσ.permitted hc hexec
  have hchange := IOEngine.step_change hσ.sound hpermitted
  have hnet := (hσ.engine_step hc hexec).1
  intro p hp hgone hunawaited
  have hp : p ∈ σ.engine.outstanding := by
    rcases hchange.joined hp with hp | hknown | hawaited
    · exact hp
    · exact absurd hknown hgone
    · exact absurd hawaited hunawaited
  have howned := hσ.sound.owned p hp
  have hkey : (engine.protocol p).key = (σ.engine.protocol p).key :=
    (hchange.keys howned (hσ.sound.made p howned)).1
  change (σ.asks engine).net.Leaving (engine.protocol p).key
  rw [hkey]
  have hstays (hleaving : σ.net.Leaving (σ.engine.protocol p).key) :
      (σ.asks engine).net.Leaving (σ.engine.protocol p).key := by
    rcases hnet with hsame | ⟨b, hstep, hkept⟩
    · rwa [hsame]
    · exact step_leaving hσ.inv hstep (hkept _) hleaving
  by_cases hknown : σ.engine.connections.Known p
  · rcases IOEngine.step_loses hσ.sound hc.owns hpermitted hknown with
      hknown | ⟨-, hevents⟩ | ⟨n, hhandles, rfl, hstops⟩
    · exact absurd hknown hgone
    · rw [asks_event hevents]
      exact .inr ⟨hσ.taken p hp, σ.net.eventQueue, [], rfl, List.not_mem_nil⟩
    · -- the network has told the stop, so nothing is left of it there
      rw [hhandles] at hchange
      cases hchange with
      | handled hnotices =>
        obtain ⟨done, pending, hheeds, hphase⟩ := hσ.follows n.protocol hp
        have hmem : n ∈ pending.map posted := by
          rw [← hheeds.pending, hnotices]
          exact List.mem_filter.mpr ⟨List.mem_cons_self, by simp⟩
        obtain ⟨call, hcall, rfl⟩ := List.mem_map.mp hmem
        exact hstays (.inl (hphase.parting hσ.inv (hσ.taken _ hp)
          ⟨call, List.mem_append_right done hcall, notification_stops.mp hstops⟩))
  · by_cases hawaited : σ.engine.connections.Awaited p
    · obtain ⟨n, hn, haccept, rfl⟩ := hawaited
      cases hhandles : IOEngine.handles a with
      | none => exact absurd ⟨n, notices_kept hc hhandles hexec ▸ hn, haccept, rfl⟩ hunawaited
      | some n' =>
        obtain ⟨rest, rfl, hnotices, hpopped, hexec'⟩ :=
          IOEngine.handles_cases hσ.sound hpermitted hhandles
        have hhandled := IOEngine.dispatchNotify_handled hpopped
        rw [hexec'] at hhandled
        rw [hnotices] at hn
        rcases List.mem_cons.mp hn with rfl | hn
        · exact absurd (IOEngine.accept_known hpopped haccept (hheed haccept) hexec') hgone
        · refine absurd ⟨n, ?_, haccept, rfl⟩ hunawaited
          change n ∈ engine.connections.notices
          rw [Handled.notices hhandled]
          exact hn
    · exact hstays (h p hp hknown hawaited)

omit [IntrusiveNode L] in
/-- What the engine does not have does not depend on the order of its message queue. -/
theorem Released.fetched (h : σ.Released) {n : IONotify} (hfetches : σ.engine.Fetches n engine) :
    ({ σ with engine } : System L).Released := by
  obtain ⟨front, back, hnotices, -, hconn⟩ := hfetches.notices
  have hawaited {p : ProtocolId} (hp : σ.engine.connections.Awaited p) :
      engine.connections.Awaited p := by
    obtain ⟨m, hm, haccept, hprotocol⟩ := hp
    rw [hnotices] at hm
    exact ⟨m, hconn ▸ List.perm_middle.mem_iff.mp hm, haccept, hprotocol⟩
  cases hfetches with
  | mk => exact fun p hp hgone hunawaited => h p hp hgone fun hp => hunawaited (hawaited hp)

theorem Released.confirmed (h : σ.Released) (hσ : σ.Coupled) {uid : UInt32} {confirmed : Bool}
    (hconfirm : σ.engine.confirm uid = .ok (confirmed, engine)) : (σ.asks engine).Released := by
  obtain ⟨as, hrun⟩ := hσ.confirm_run hconfirm
  generalize σ.asks engine = τ at hrun
  have hkept : τ.Coupled ∧ τ.Released := by
    refine hrun.invariant (fun σ => σ.Coupled ∧ σ.Released) (fun σ a τ h hstep => ?_) ⟨hσ, h⟩
    obtain ⟨hserves, haccept⟩ := hstep
    refine ⟨(h.1.serves hserves).2.2, ?_⟩
    obtain ⟨e, hfetched, hc, engine, hexec, rfl⟩ := hserves
    have hheed : ({ σ with engine := e } : System L).Heedful (.engine a) := by
      cases a with
      | dispatch packet =>
        cases packet with
        | notify n => exact fun htype => absurd htype (haccept n rfl)
        | msg packet => trivial
      | _ => trivial
    rcases hfetched with rfl | ⟨n, hfetches⟩
    · exact h.2.engine_step h.1 hc hheed hexec
    · exact (h.2.fetched hfetches).engine_step (h.1.fetched hfetches) hc hheed hexec
  exact hkept.2

theorem Released.network_step {b : Network.Action} (h : σ.Released) (hσ : σ.Coupled)
    (hc : σ.Contract (.network b)) (hexec : σ.network b = .ok τ) : τ.Released := by
  obtain ⟨-, hstep, hkept, hjoins, -⟩ := hσ.network_step hc hexec
  intro p hp hgone hunawaited
  have hstays (hp : p ∈ σ.engine.outstanding) (hgone : ¬σ.engine.connections.Known p)
      (hunawaited : ¬σ.engine.connections.Awaited p) :
      τ.net.Leaving (σ.engine.protocol p).key :=
    step_leaving hσ.inv hstep (hkept _) (h p hp hgone hunawaited)
  change p ∈ τ.engine.connections.outstanding at hp
  change τ.net.Leaving (τ.engine.connections.protocol p).key
  generalize τ.engine.connections = c at hjoins hp hgone hunawaited
  cases hjoins with
  | told new =>
    refine hstays hp hgone fun ⟨n, hn, haccept, hpn⟩ => hunawaited ⟨n, ?_, haccept, hpn⟩
    exact List.mem_append_left _ hn
  | @accepted new q fromProtocol hid _ _ hcall =>
    rcases List.mem_cons.mp hp with rfl | hp
    · refine absurd ⟨posted (q, .onAccept fromProtocol), ?_, rfl, ?_⟩ hunawaited
      · exact List.mem_append_right _ (List.mem_map_of_mem hcall)
      · rw [notification_protocol]
        exact hid
    · have hne : p ≠ σ.engine.created := by
        rintro rfl
        exact absurd (hσ.sound.made _ (hσ.sound.owned _ hp)) (Nat.lt_irrefl _)
      have hsame : (IOEngine.making σ.engine.connections q).protocol p = σ.engine.protocol p :=
        own_ne hne
      rw [show _ = σ.engine.protocol p from hsame]
      refine hstays hp (fun hknown => hgone ((own_known_ne hne).mpr hknown)) ?_
      rintro ⟨n, hn, haccept, hpn⟩
      exact hunawaited ⟨n, List.mem_append_left _ hn, haccept, hpn⟩

theorem Released.step {a : SystemAction} (h : σ.Released) (hσ : σ.Coupled)
    (hstep : σ.Step a τ) (hheed : σ.Heedful a) : τ.Released := by
  obtain ⟨hc, hexec⟩ := hstep
  cases a with
  | engine a =>
    obtain ⟨engine, hengine, hexec⟩ := of_bind_ok hexec
    obtain rfl := Except.ok.inj hexec
    exact h.engine_step hσ hc hheed hengine
  | confirmListen uid | confirmConnect uid =>
    obtain ⟨⟨confirmed, engine⟩, hconfirm, hexec⟩ := of_bind_ok hexec
    obtain rfl := Except.ok.inj hexec
    exact h.confirmed hσ hconfirm
  | network b => exact h.network_step hσ hc hexec
  | clear group =>
    obtain rfl := Except.ok.inj hexec
    exact fun p hp hgone hunawaited => step_leaving hσ.inv (hσ.clear group).1
      (fun heq => by cases heq) (h p hp hgone hunawaited)
  | recycle q =>
    obtain rfl := Except.ok.inj hexec
    obtain ⟨-, hnet, -⟩ := hσ.recycle hc
    intro p hp hgone hunawaited
    obtain ⟨hne, hheld⟩ := hσ.nodup.mem_erase_iff.mp hp
    refine step_leaving hσ.inv hnet (fun heq => hne ?_) (h p hheld hgone hunawaited)
    exact (hσ.sound.unique q hc.1 p hheld (Network.Action.pushKey.inj heq)).symm

/-! ### Runs -/

omit [KeyPool] [IntrusiveNode L] in
theorem notify_mem {n : IONotify} (hn : n ∈ σ.engine.connections.notices) :
    .notify n ∈ σ.engine.msgqueue := by
  obtain ⟨packet, hpacket, hnotice⟩ := List.mem_filterMap.mp hn
  cases packet with
  | notify n' =>
    obtain rfl := Option.some.inj hnotice
    exact hpacket
  | msg packet => cases hnotice

variable {uid : UInt32} {id : ObjectId} {o : IOObject} {q : IOProtocol}

omit [IntrusiveNode L] in
theorem Coupled.available (h : σ.Coupled) (hfound : σ.engine.protocols uid = some p)
    (havail : (σ.engine.protocol p).available = true) :
    (∃ id o q, σ.net.InTable id o ∧ o.key = uid ∧ o.protocol = some q ∧ q.id = p ∧
      (o.type = .LISTENER ∨ o.state = .CONNECTED)) ∨
    ∃ n, .notify n ∈ σ.engine.msgqueue ∧ n.protocol = p ∧ n.Stops := by
  obtain ⟨hp, hkey⟩ := h.sound.entry uid p hfound
  have hkey : (σ.engine.protocol p).key = uid := hkey
  have hknown : σ.engine.connections.Known p := h.sound.known_of_found hfound
  obtain ⟨done, pending, hheeds, hphase⟩ := h.follows p hp
  obtain ⟨⟨call, hcall, hstarts⟩, hstops⟩ := hheeds.live hknown havail
  by_cases hpending : ∃ call ∈ pending, call.2.Stops
  · obtain ⟨call', hcall', hstop⟩ := hpending
    obtain ⟨hmem, hprotocol⟩ := hheeds.queued hcall'
    exact .inr ⟨_, notify_mem hmem, hprotocol, notification_stops.mpr hstop⟩
  · have hstop : ∀ call ∈ done ++ pending, ¬call.2.Stops := by
      intro call' hcall'
      rcases List.mem_append.mp hcall' with hcall' | hcall'
      · exact hstops call' hcall'
      · exact fun hstop => hpending ⟨call', hcall', hstop⟩
    have hmem : call ∈ done ++ pending := List.mem_append_left _ hcall
    obtain ⟨id, o, q, hin, hokey, hq, hall, hlive⟩ := hphase.upheld ⟨call, hmem, hstarts⟩ hstop
    refine .inl ⟨id, o, q, hin, hokey.trans hkey, hq, ?_, hlive⟩
    rw [← hall call hmem]
    exact (hheeds.told call hmem).1

/-- In every reachable state, what the engine has as available is in the network, listening or connected,
or the engine is still to hear that it has gone. -/
theorem available_upheld {key : UInt32} {socket : Int} {σ₀ : System L} {as : List SystemAction}
    (hne : key ≠ 0) (hsocket : socket ≠ -1) (hinit : init key socket = .ok σ₀)
    (run : Run Step σ₀ as σ) (hfound : σ.engine.protocols uid = some p)
    (havail : (σ.engine.protocol p).available = true) :
    (∃ id o q, σ.net.InTable id o ∧ o.key = uid ∧ o.protocol = some q ∧ q.id = p ∧
      (o.type = .LISTENER ∨ o.state = .CONNECTED)) ∨
    ∃ n, .notify n ∈ σ.engine.msgqueue ∧ n.protocol = p ∧ n.Stops := by
  obtain ⟨ρ, -, h⟩ := awake_run hne hsocket hinit run
  rw [h.engine] at hfound havail ⊢
  refine (h.coupled.available hfound havail).imp_left ?_
  rintro ⟨id, o, q, hin, hkey, hprotocol, hq, hlive⟩
  obtain ⟨o', hin', htwin⟩ := h.inTable hin
  refine ⟨id, o', q, hin', ?_⟩
  rw [htwin.same]
  exact ⟨hkey, hprotocol, hq, hlive⟩

omit [KeyPool] [IntrusiveNode L] in
/-- The listener has been heard of, and nothing says that it has gone. -/
theorem available_upheld_serving : ∃ id o q, @CNetwork.InTable .lowBits serving.net id o ∧ o.key = 5 ∧
    o.protocol = some q ∧ q.id = 0 ∧ (o.type = .LISTENER ∨ o.state = .CONNECTED) := by
  let _ := KeyPool.lowBits
  let _ := IntrusiveNode.list
  have hfound : serving.engine.protocols 5 = some 0 := by decide +kernel
  rcases available_upheld (by decide) (by decide) started_init serving_run hfound
    (by decide +kernel) with hpresent | ⟨n, hn, hprotocol, -⟩
  · exact hpresent
  · have hqueue : serving.engine.msgqueue = [.notify ⟨.PacketAccept, 6, 1, some 0, true⟩] := rfl
    rw [hqueue] at hn
    obtain rfl := Packet.notify.inj (List.mem_singleton.mp hn)
    exact absurd hprotocol (by decide)

omit [IntrusiveNode L] in
theorem Coupled.present (h : σ.Coupled) (hreleased : σ.Released) (hin : σ.net.InTable id o)
    (hq : o.protocol = some q) (hlive : o.type = .LISTENER ∨ o.state = .CONNECTED) :
    (σ.engine.protocols o.key = some q.id ∧ (σ.engine.protocol q.id).available = true) ∨
    (∃ n, .notify n ∈ σ.engine.msgqueue ∧ n.protocol = q.id ∧ n.Starts) ∨
    .close o.key ∈ σ.net.eventQueue := by
  obtain ⟨hp, hown, -⟩ := h.owners q (.inl ⟨id, o, hin.heap, hq⟩)
  obtain ⟨q', hq', hkey, -⟩ := h.inv.held_protocol hin.heap
  obtain rfl := Option.some.inj (hq.symm.trans hq')
  have hokey : (σ.engine.protocol q.id).key = o.key := hown.trans hkey
  by_cases hknown : σ.engine.connections.Known q.id
  · cases havail : (σ.engine.protocol q.id).available with
    | true => exact .inl ⟨hokey ▸ hknown, rfl⟩
    | false =>
      obtain ⟨done, pending, hheeds, hphase⟩ := h.follows q.id hp
      rw [hokey] at hphase
      obtain ⟨ns, hns, -, hstage⟩ := hphase.of_inTable h.inv hin hq
      obtain ⟨n, hn, hstarts⟩ := hstage.started hlive
      have hcall : (q, n) ∈ done ++ pending := hns ▸ List.mem_map_of_mem hn
      rcases List.mem_append.mp hcall with hcall | hcall
      · exact absurd hstarts (hheeds.idle hknown havail _ hcall)
      · obtain ⟨hmem, hprotocol⟩ := hheeds.queued hcall
        exact .inr (.inl ⟨_, notify_mem hmem, hprotocol, notification_starts.mpr hstarts⟩)
  · by_cases hawaited : σ.engine.connections.Awaited q.id
    · obtain ⟨n, hn, haccept, hprotocol⟩ := hawaited
      exact .inr (.inl ⟨n, notify_mem hn, hprotocol, .inl haccept⟩)
    · have hleaving := hreleased q.id hp hknown hawaited
      rw [hokey] at hleaving
      rcases hleaving with hparting | ⟨-, front, back, hqueue, -⟩
      · obtain ⟨htype, hstate⟩ := hparting.closing id o hin rfl
        rcases hlive with htype' | hstate'
        · exact absurd htype' htype
        · exact absurd (hstate'.symm.trans hstate) (by decide)
      · refine .inr (.inr ?_)
        rw [hqueue]
        exact List.mem_append_right front List.mem_cons_self

/-- In every run in which accepted connections find their listeners, what is listening or connected in
the network is available in the engine, or the engine is still to hear of it, or the network still to
handle a close of it. -/
theorem present_attended {key : UInt32} {socket : Int} {σ₀ : System L} {as : List SystemAction}
    (hne : key ≠ 0) (hsocket : socket ≠ -1) (hinit : init key socket = .ok σ₀)
    (run : Run (fun σ a τ => Step σ a τ ∧ σ.Heedful a) σ₀ as σ) (hin : σ.net.InTable id o)
    (hq : o.protocol = some q) (hlive : o.type = .LISTENER ∨ o.state = .CONNECTED) :
    (σ.engine.protocols o.key = some q.id ∧ (σ.engine.protocol q.id).available = true) ∨
    (∃ n, .notify n ∈ σ.engine.msgqueue ∧ n.protocol = q.id ∧ n.Starts) ∨
    .close o.key ∈ σ.net.eventQueue := by
  let R (σ' σ : System L) : Prop := Awake 0 (wakeupObject key socket) σ σ' ∧ σ.Released
  have hsimulates : ∃ ρ, Run Step (unwoken key) as ρ ∧ R σ ρ := by
    refine run.simulate R (fun σ' a τ' σ hR hstep => ?_)
      ⟨awake_init hne hsocket hinit, fun p hp => by cases hp⟩
    obtain ⟨h, hreleased⟩ := hR
    obtain ⟨hstep, hheed⟩ := hstep
    obtain ⟨τ, hstep, h', -⟩ := h.step hstep
    rw [heedful_congr h.engine] at hheed
    exact ⟨τ, hstep, h', hreleased.step h.coupled hstep hheed⟩
  obtain ⟨ρ, -, h, hreleased⟩ := hsimulates
  obtain ⟨o₁, hin₁, htwin⟩ := h.inTable_of_protocol hin (by simp [hq])
  rw [htwin.same] at hq hlive ⊢
  rw [h.engine, h.awaits.alike.eventQueue]
  have hpresent := h.coupled.present hreleased hin₁ hq hlive
  exact hpresent

omit [KeyPool] [IntrusiveNode L] in
/-- The engine is still to hear of the connection that was accepted. -/
theorem present_attended_serving :
    ∃ n, .notify n ∈ serving.engine.msgqueue ∧ n.protocol = 1 ∧ n.Starts := by
  let _ := KeyPool.lowBits
  let _ := IntrusiveNode.list
  have hheedful : ∀ a ∈ servingActions, ∀ σ : System (List HandlerId), σ.Heedful a := by
    intro a ha σ
    simp only [servingActions, List.mem_cons, List.not_mem_nil, or_false] at ha
    rcases ha with rfl | rfl | rfl | rfl | rfl
    · trivial
    · trivial
    · trivial
    · trivial
    · trivial
  have hmap : (serving.net.heap 2).map (fun o => (o.key, o.protocol, o.state)) =
      some (6, some ⟨1, .TCP, .SESSION, 6, 0⟩, .CONNECTED) := by decide +kernel
  obtain ⟨o, hheap, ho⟩ := Option.map_eq_some_iff.mp hmap
  obtain ⟨hkey, hprotocol, hstate⟩ : o.key = 6 ∧ o.protocol = some ⟨1, .TCP, .SESSION, 6, 0⟩ ∧
      o.state = .CONNECTED := by simpa using ho
  have hin : serving.net.InTable 2 o := by
    refine ⟨hheap, ?_⟩
    rw [hkey]
    decide +kernel
  rcases present_attended (by decide) (by decide) started_init (serving_run.with_labels hheedful) hin
    hprotocol (.inr hstate) with ⟨hfound, -⟩ | hheard | hclosed
  · have hnone : serving.engine.protocols 6 = none := by decide +kernel
    rw [hkey, hnone] at hfound
    cases hfound
  · exact hheard
  · have hqueue : serving.net.eventQueue = [] := by decide +kernel
    rw [hqueue] at hclosed
    cases hclosed

end System

end ZlNet.Engine
