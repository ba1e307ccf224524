import ZlNet.Engine.Delivery
import ZlNet.Engine.Proof.Callbacks
import ZlNet.Engine.Proof.Coupling

/-! What the engine calls its handlers with.  A packet handler gets packets of its command, a callback
handler what has the id of its request, and both get the packets of the message queue in their order. -/

namespace ZlNet.Engine

open Lib

namespace IOEngine

variable {L μ : Type} {σ τ : IOEngine L μ} {a : Action μ} {h : HandlerId} {id : UInt32} {clock : Int}
  {packet : IOPacket μ} {r : Request μ}

/-- Packet handlers were called with packets of the command that they are bound to. -/
def Routed (σ : IOEngine L μ) : Prop :=
  ∀ call ∈ σ.dispatched, σ.packetHandlers call.2.cmd = some call.1

/-- Callback handlers were called with what has the id and the key of their request, and the requests of
those that are bound were sent. -/
structure Matches (σ : IOEngine L μ) : Prop where
  answers : ∀ call ∈ σ.called, (σ.handler call.1).cbId ≠ 0 ∧
    (σ.handler call.1).cbId = call.2.callbackId ∧ (σ.handler call.1).uid = call.2.uid
  requests : ∀ h, (σ.handler h).cbId ≠ 0 → (σ.handler h).cmd ≠ 0 ∧ ((σ.handler h).uid ≠ 0 →
    ∃ request ∈ sendsTo (σ.handler h).uid σ.sends,
      request.callbackId = (σ.handler h).cbId ∧ request.cmd = (σ.handler h).cmd)

/-- What was sent to a connection stays sent. -/
theorem sendsTo_grows (hevents : σ.events <+: τ.events) {key : UInt32}
    (hpacket : packet ∈ sendsTo key σ.sends) : packet ∈ sendsTo key τ.sends := by
  have hsub : (sendsTo key σ.sends).Sublist (sendsTo key τ.sends) :=
    ((hevents.sublist.filterMap _).filter _).map _
  exact hsub.subset hpacket

theorem Matches.grows (hσ : σ.Matches) (hwaiters : τ.waiters = σ.waiters)
    (hevents : σ.events <+: τ.events) : τ.Matches := by
  obtain ⟨-, -, -, hhandler, hcalled⟩ := Waiters.ext_iff.mp hwaiters
  have hhandler : τ.handler = σ.handler := hhandler
  have hcalled : τ.called = σ.called := hcalled
  refine ⟨fun call hcall => ?_, fun h hbound => ?_⟩
  · rw [hhandler]
    exact hσ.answers call (hcalled ▸ hcall)
  · rw [hhandler] at hbound ⊢
    obtain ⟨hcmd, hsent⟩ := hσ.requests h hbound
    refine ⟨hcmd, fun huid => ?_⟩
    obtain ⟨request, hrequest, hsame⟩ := hsent huid
    exact ⟨request, sendsTo_grows hevents hrequest, hsame⟩

variable [IntrusiveNode L]

/-- Only a packet with a command can have a callback handler. -/
theorem send_cmd (hsend : σ.send r = .ok τ) (hhandler : r.callbackHander = some h) :
    r.packet.cmd ≠ 0 := by
  intro hcmd
  simp only [send, hcmd, ne_eq, not_true_eq_false, if_false] at hsend
  split at hsend
  · obtain ⟨_, hnone, -⟩ := of_bind_ok hsend
    cases hhandler.symm.trans (of_require hnone)
  · cases hsend

/-- A handler is bound for a request that is sent, or whose failure is posted. -/
theorem Matches.bind (hσ : σ.Matches) (hcmd : packet.cmd ≠ 0)
    (hbind : σ.bindRequest h packet clock = .ok (id, τ)) {events : List (Event μ)}
    (hevents : σ.events <+: events)
    (hsent : packet.uid ≠ 0 → .data packet.uid { packet with callbackId := id } ∈ events) :
    { τ with events }.Matches := by
  obtain ⟨hunbound, rfl⟩ := bindRequest_spec hbind
  refine ⟨fun call hcall => ?_, fun h' hbound => ?_⟩
  · obtain ⟨hbound, hsame⟩ := hσ.answers call hcall
    have hne : call.1 ≠ h := by
      rintro rfl
      exact hbound hunbound
    simp only [Function.update_of_ne hne]
    exact ⟨hbound, hsame⟩
  · by_cases heq : h' = h
    · subst heq
      simp only [Function.update_self]
      refine ⟨hcmd, fun huid => ⟨{ packet with callbackId := id }, ?_, rfl, rfl⟩⟩
      refine List.mem_map.mpr ⟨(packet.uid, { packet with callbackId := id }), ?_, rfl⟩
      exact List.mem_filter.mpr ⟨List.mem_filterMap.mpr ⟨_, hsent huid, rfl⟩, by simp⟩
    · simp only [Function.update_of_ne heq] at hbound ⊢
      obtain ⟨hcmd, hrequest⟩ := hσ.requests h' hbound
      refine ⟨hcmd, fun huid => ?_⟩
      obtain ⟨request, hrequest, hsame⟩ := hrequest huid
      exact ⟨request, sendsTo_grows hevents hrequest, hsame⟩

/-- A callback handler is called with the id and the key of its request. -/
theorem Matches.complete (hσ : σ.Matches) (hbound : (σ.handler h).cbId ≠ 0)
    (hid : (σ.handler h).cbId = packet.callbackId) (huid : (σ.handler h).uid = packet.uid) :
    (σ.complete id h packet).Matches where
  answers call hcall := by
    rcases List.mem_append.mp hcall with hcall | hcall
    · exact hσ.answers call hcall
    · obtain rfl := List.mem_singleton.mp hcall
      exact ⟨hbound, hid, huid⟩
  requests := hσ.requests

/-- A handler that is in the time-out list is bound. -/
theorem bound_of_live (hc : σ.callbacks.Inv) (hlive : h ∈ σ.callbacks.live) :
    (σ.handler h).cbId ≠ 0 :=
  (hc.bound h).mpr (.inl hlive)

theorem Matches.step (hσ : σ.Matches) (hc : σ.callbacks.Inv) (hexec : σ.exec a = .ok τ) :
    τ.Matches := by
  have hevents := (exec_continues hexec).initial
  cases exec_progress hexec with
  | same hwaiters => exact hσ.grows hwaiters hevents
  | bound ha _ _ _ =>
    subst ha
    cases send_cases hexec with
    | dropped => exact hσ
    | event => exact hσ.grows rfl hevents
    | request _ hhandler hbind =>
      exact hσ.bind (send_cmd hexec hhandler) hbind hevents fun _ => List.mem_concat_self
    | failed huid _ hhandler hbind =>
      have hbound := hσ.bind (send_cmd hexec hhandler) hbind hevents fun hne => absurd huid hne
      exact ⟨hbound.answers, hbound.requests⟩
  | replied _ _ hfound huid hwaiters =>
    obtain ⟨hlive, hid⟩ := (hc.table _ _).mp hfound
    exact (hσ.complete (bound_of_live hc hlive) hid huid).grows hwaiters hevents
  | timedOut _ hfront _ hwaiters =>
    rw [IntrusiveNode.front_eq] at hfront
    have hbound := bound_of_live hc (List.mem_of_mem_head? hfront)
    exact (hσ.complete hbound rfl rfl).grows hwaiters hevents

/-- A step calls no packet handler, or the one that is bound to the command of a packet. -/
inductive Dispatches (σ : IOEngine L μ) (a : Action μ) (τ : IOEngine L μ) : Prop
  | quiet (hdispatched : τ.dispatched = σ.dispatched)
      (hbinds : ∀ cmd handler, σ.packetHandlers cmd = some handler →
        τ.packetHandlers cmd = some handler)
  | called {packet : IOPacket μ} {handler : Nat} (ha : a = .dispatch (.msg packet))
      (hbound : σ.packetHandlers packet.cmd = some handler)
      (hdispatched : τ.dispatched = σ.dispatched ++ [(handler, packet)])
      (hbinds : τ.packetHandlers = σ.packetHandlers)

theorem exec_dispatches (hexec : σ.exec a = .ok τ) : Dispatches σ a τ := by
  have hquiet (hdispatched : τ.dispatched = σ.dispatched)
      (hbinds : τ.packetHandlers = σ.packetHandlers) : Dispatches σ a τ :=
    .quiet hdispatched fun _ _ hbound => by rwa [hbinds]
  have hopen {p : ProtocolId} {type : Network.EIOOBJECT_TYPE} {key : UInt32} {event : Event μ}
      (hτ : (if (σ.protocol p).key ≠ 0 then σ else if key = 0 then σ
        else σ.takeKey p type key event) = τ) : Dispatches σ a τ := by
    rw [← hτ]
    apply takeKey_guard (P := Dispatches σ a) (.quiet rfl fun _ _ hbound => hbound)
    intro _ _
    simp only [takeKey]
    split
    · exact .quiet rfl fun _ _ hbound => hbound
    · exact .quiet rfl fun _ _ hbound => hbound
  cases a with
  | create | accept | post | recycle =>
    obtain rfl := Except.ok.inj hexec
    exact hquiet rfl rfl
  | listen port p key => exact hopen (Except.ok.inj hexec)
  | connect address p key => exact hopen (Except.ok.inj hexec)
  | close uid =>
    rcases exec_close hexec with rfl | ⟨-, htalks⟩
    · exact hquiet rfl rfl
    · exact hquiet (congrArg dispatched htalks :) (congrArg packetHandlers htalks :)
  | bindPacketHandler cmd handler =>
    obtain rfl := Except.ok.inj hexec
    unfold bindPacketHandler
    split
    · exact .quiet rfl fun _ _ hbound => hbound
    · next hnone =>
      refine .quiet rfl fun cmd' handler' hbound => ?_
      have hne : cmd' ≠ cmd := by
        rintro rfl
        cases hnone.symm.trans hbound
      exact (Function.update_of_ne hne ..).trans hbound
  | send request =>
    cases send_cases hexec with
    | dropped => exact hquiet rfl rfl
    | event => exact hquiet rfl rfl
    | request _ _ hbind =>
      obtain ⟨-, rfl⟩ := bindRequest_spec hbind
      exact hquiet rfl rfl
    | failed _ _ _ hbind =>
      obtain ⟨-, rfl⟩ := bindRequest_spec hbind
      exact hquiet rfl rfl
  | dispatch packet =>
    cases packet with
    | notify notify =>
      have htalks := exec_notify hexec
      exact hquiet (congrArg dispatched htalks :) (congrArg packetHandlers htalks :)
    | msg packet =>
      cases onIOPacket_cases hexec with
      | dropped => exact hquiet rfl rfl
      | dispatched =>
        unfold dispatchPacket
        split
        · exact .quiet rfl fun _ _ hbound => hbound
        · next handler hbound => exact .called rfl hbound rfl rfl
      | completed => exact hquiet rfl rfl
  | timeout now =>
    obtain rfl := Except.ok.inj hexec
    cases htimeout : σ.timeoutFront now with
    | none => exact .quiet rfl fun _ _ hbound => hbound
    | some τ =>
      obtain ⟨h, -, -, rfl⟩ := timeoutFront_cases htimeout
      exact .quiet rfl fun _ _ hbound => hbound

theorem Routed.step (hσ : σ.Routed) (hexec : σ.exec a = .ok τ) : τ.Routed := by
  intro call hcall
  cases exec_dispatches hexec with
  | quiet hdispatched hbinds => exact hbinds _ _ (hσ call (hdispatched ▸ hcall))
  | called ha hbound hdispatched hbinds =>
    rw [hbinds]
    rw [hdispatched] at hcall
    rcases List.mem_append.mp hcall with hcall | hcall
    · exact hσ call hcall
    · obtain rfl := List.mem_singleton.mp hcall
      exact hbound

/-! ### The message queue -/

/-- A step takes the oldest packet from the message queue, or posts packets for no connection. -/
theorem step_messages (ha : Owns a) (hstep : σ.Step a τ) :
    (∃ p, a = .dispatch (.msg p) ∧ σ.messages = p :: τ.messages) ∨
      (∀ p, a ≠ .dispatch (.msg p)) ∧
        ∃ new, (∀ p ∈ new, p.uid = 0) ∧ τ.messages = σ.messages ++ new := by
  obtain ⟨hhead, hexec⟩ := hstep
  have hnone : ∀ p ∈ ([] : List (IOPacket μ)), p.uid = 0 := fun p hp => by cases hp
  cases exec_queue hexec with
  | same hne hqueue =>
    refine .inr ⟨fun p => hne _, [], hnone, ?_⟩
    rw [messages, hqueue, List.append_nil]
    rfl
  | @taken packet htaken hqueue =>
    obtain ⟨rest, hrest⟩ := List.head?_eq_some_iff.mp (hhead packet htaken)
    have hτ : τ.messages = rest.filterMap Packet.data? := by
      rw [messages, hqueue, hrest, List.tail_cons]
    cases packet with
    | notify notify =>
      refine .inr ⟨fun p hp => ?_, [], hnone, ?_⟩
      · cases htaken.symm.trans hp
      · rw [hτ, messages, hrest, List.append_nil]
        rfl
    | msg p =>
      refine .inl ⟨p, htaken, ?_⟩
      rw [hτ, messages, hrest]
      rfl
  | @posted packet hne hpacket hqueue =>
    have hτ : τ.messages = σ.messages ++ (Packet.data? packet).toList := by
      rw [messages, hqueue, List.filterMap_append]
      cases packet with
      | notify notify => rfl
      | msg p => rfl
    refine .inr ⟨fun p => hne _, _, fun p hp => ?_, hτ⟩
    rcases hpacket with rfl | ⟨n, rfl⟩ | ⟨p', rfl, huid⟩
    · exact ha.elim
    · cases hp
    · obtain rfl := List.mem_singleton.mp hp
      exact huid

/-- Handlers of a kind are called with packets of the message queue, in their order. -/
theorem step_calls {calls calls' : List (IOPacket μ)} (ha : Owns a) (hstep : σ.Step a τ)
    (hcalls : calls' = calls ∨ ∃ p, a = .dispatch (.msg p) ∧ calls' = calls ++ [p]) :
    ∃ new, (∀ p ∈ new, p.uid = 0) ∧
      (calls' ++ τ.messages).Sublist (calls ++ σ.messages ++ new) := by
  rcases step_messages ha hstep with ⟨p, rfl, hmessages⟩ | ⟨hne, new, hnew, hmessages⟩
  · refine ⟨[], fun p hp => (by cases hp), ?_⟩
    rw [hmessages, List.append_nil]
    rcases hcalls with rfl | ⟨p', hp', rfl⟩
    · exact (List.sublist_cons_self ..).append_left _
    · obtain rfl : p = p' := Packet.msg.inj (Action.dispatch.inj hp')
      rw [List.append_assoc]
      exact List.Sublist.refl _
  · refine ⟨new, hnew, ?_⟩
    rcases hcalls with rfl | ⟨p, hp, -⟩
    · rw [hmessages, List.append_assoc]
    · exact absurd hp (hne p)

theorem exec_handled (hexec : σ.exec a = .ok τ) :
    τ.handled = σ.handled ∨ ∃ p, a = .dispatch (.msg p) ∧ τ.handled = σ.handled ++ [p] := by
  cases exec_dispatches hexec with
  | quiet hdispatched => exact .inl (congrArg (List.map Prod.snd) hdispatched)
  | @called packet handler ha _ hdispatched =>
    refine .inr ⟨packet, ha, ?_⟩
    rw [handled, hdispatched, List.map_append]
    rfl

/-- A handler whose time is over gets no reply. -/
theorem exec_replied (hσ : σ.Matches) (hc : σ.callbacks.Inv) (hexec : σ.exec a = .ok τ) :
    τ.replied = σ.replied ∨ ∃ p, a = .dispatch (.msg p) ∧ τ.replied = σ.replied ++ [p] := by
  have hsame (hcalled : τ.called = σ.called) : τ.replied = σ.replied := by
    rw [replied, hcalled]
    rfl
  have hcall {h : HandlerId} {p : IOPacket μ} (hcalled : τ.called = σ.called ++ [(h, p)]) :
      τ.replied = σ.replied ++ if p.cmd = 0 then [p] else [] := by
    rw [replied, hcalled, List.map_append, List.filter_append]
    by_cases hcmd : p.cmd = 0
    · simp [replied, hcmd]
    · simp [replied, hcmd]
  cases exec_progress hexec with
  | same hwaiters =>
    obtain ⟨-, -, -, -, hcalled⟩ := Waiters.ext_iff.mp hwaiters
    exact .inl (hsame hcalled)
  | bound _ _ hbind hwaiters =>
    obtain ⟨-, rfl⟩ := bindRequest_spec hbind
    obtain ⟨-, -, -, -, hcalled⟩ := Waiters.ext_iff.mp hwaiters
    exact .inl (hsame hcalled)
  | @replied packet h ha _ _ _ hwaiters =>
    obtain ⟨-, -, -, -, hcalled⟩ := Waiters.ext_iff.mp hwaiters
    have hreplied := hcall hcalled
    split at hreplied
    · exact .inr ⟨packet, ha, hreplied⟩
    · exact .inl (by rw [hreplied, List.append_nil])
  | @timedOut now h _ hfront _ hwaiters =>
    obtain ⟨-, -, -, -, hcalled⟩ := Waiters.ext_iff.mp hwaiters
    rw [IntrusiveNode.front_eq] at hfront
    have hbound := bound_of_live hc (List.mem_of_mem_head? hfront)
    have hreplied := hcall hcalled
    rw [if_neg (hσ.requests h hbound).1, List.append_nil] at hreplied
    exact .inl hreplied

end IOEngine

/-! ### What is told and read -/

namespace IOEngine

variable {L : Type} {σ τ υ : IOEngine L SerializeMessage}

/-- From `σ` to `τ` packets are posted, no handler is called, and no data is sent. -/
structure Posts (σ τ : IOEngine L SerializeMessage) (packets : List (IOPacket SerializeMessage)) :
    Prop where
  waiters : τ.waiters = σ.waiters
  dispatched : τ.dispatched = σ.dispatched
  packetHandlers : τ.packetHandlers = σ.packetHandlers
  events : σ.events <+: τ.events
  sends : τ.sends = σ.sends
  messages : τ.messages = σ.messages ++ packets

theorem Posts.trans {packets packets' : List (IOPacket SerializeMessage)} (h : σ.Posts τ packets)
    (h' : τ.Posts υ packets') : σ.Posts υ (packets ++ packets') where
  waiters := h'.waiters.trans h.waiters
  dispatched := h'.dispatched.trans h.dispatched
  packetHandlers := h'.packetHandlers.trans h.packetHandlers
  events := h.events.trans h'.events
  sends := h'.sends.trans h.sends
  messages := by rw [h'.messages, h.messages, List.append_assoc]

theorem postPacket_posts (σ : IOEngine L SerializeMessage) (packet : Packet SerializeMessage) :
    σ.Posts (σ.postPacket packet) packet.data?.toList where
  waiters := rfl
  dispatched := rfl
  packetHandlers := rfl
  events := List.prefix_rfl
  sends := rfl
  messages := by
    rw [messages, postPacket, List.filterMap_append]
    cases packet with
    | notify n => rfl
    | msg p => rfl

theorem notified_posts (σ : IOEngine L SerializeMessage) (call : Network.IOProtocol × Network.Notice) :
    σ.Posts (σ.notified call) [] := by
  obtain ⟨p, notice⟩ := call
  cases notice with
  | onAccept fromProtocol =>
    have hposts := postPacket_posts
      { σ.setProtocol σ.created { type := .SESSION, key := p.key } with
        created := σ.created + 1, outstanding := σ.created :: σ.outstanding }
      (.notify ⟨.PacketAccept, p.key, σ.created, some fromProtocol.id, true⟩)
    exact ⟨hposts.waiters, hposts.dispatched, hposts.packetHandlers, hposts.events, hposts.sends,
      hposts.messages⟩
  | onListen | onUnlisten | onClose | onConnect | onDisConnect => exact postPacket_posts σ _

theorem Posts.refl (σ : IOEngine L SerializeMessage) : σ.Posts σ [] :=
  ⟨rfl, rfl, rfl, List.prefix_rfl, rfl, (List.append_nil _).symm⟩

variable [IntrusiveNode L]

/-- A notification is handled out of its place in the message queue. -/
theorem pollOnePacket_posts {p : ProtocolId} (hpoll : σ.pollOnePacket p = .ok τ) : σ.Posts τ [] := by
  rcases pollOnePacket_cases hpoll with rfl | ⟨n, ρ, rfl, hfetches, hexec⟩
  · exact .refl τ
  · have htalks := exec_notify hexec
    cases hfetches with
    | @mk front back hqueue hfirst =>
      have hqueue' : τ.msgqueue = front ++ back := (congrArg msgqueue htalks :)
      refine ⟨(congrArg waiters htalks :), (congrArg dispatched htalks :),
        (congrArg packetHandlers htalks :), ?_, (congrArg sends htalks :), ?_⟩
      · exact pollOnePacket_events hpoll ▸ List.prefix_rfl
      · rw [messages, messages, hqueue', hqueue, List.filterMap_append, List.filterMap_append,
          List.append_nil]
        rfl

theorem confirm_posts {uid : UInt32} {confirmed : Bool}
    (hconfirm : σ.confirm uid = .ok (confirmed, τ)) : σ.Posts τ [] := by
  unfold confirm at hconfirm
  split at hconfirm
  · exact (Prod.mk.inj (Except.ok.inj hconfirm)).2 ▸ .refl σ
  split at hconfirm
  · exact (Prod.mk.inj (Except.ok.inj hconfirm)).2 ▸ .refl σ
  obtain ⟨ρ, hpoll, hconfirm⟩ := of_bind_ok hconfirm
  have hposts := pollOnePacket_posts hpoll
  split at hconfirm
  · exact (Prod.mk.inj (Except.ok.inj hconfirm)).2 ▸ hposts
  · obtain ⟨-, rfl⟩ := Prod.mk.inj (Except.ok.inj hconfirm)
    have hclosed : (ρ.removeProtocol uid).Posts ((ρ.removeProtocol uid).pushEvent (.close uid)) [] := by
      refine ⟨rfl, rfl, rfl, List.prefix_append _ _, ?_, (List.append_nil _).symm⟩
      simp [sends, pushEvent, Event.data?]
    exact hposts.trans ⟨hclosed.waiters, hclosed.dispatched, hclosed.packetHandlers, hclosed.events,
      hclosed.sends, hclosed.messages⟩

end IOEngine

/-- What is read goes to the message queue, and what is told with it is no data. -/
theorem System.hears_posts {L : Type} (σ : System L) (packets : List (IOPacket SerializeMessage))
    (net : Network.CNetwork) : σ.engine.Posts (σ.hears packets net).engine packets := by
  have hpackets (e : IOEngine L SerializeMessage) :
      e.Posts (packets.foldl (fun e packet => e.postPacket (.msg packet)) e) packets := by
    induction packets generalizing e with
    | nil => exact .refl e
    | cons packet packets ih => exact (e.postPacket_posts (.msg packet)).trans (ih _)
  have hcalls (calls : List (Network.IOProtocol × Network.Notice))
      (e : IOEngine L SerializeMessage) : e.Posts (calls.foldl IOEngine.notified e) [] := by
    induction calls generalizing e with
    | nil => exact .refl e
    | cons call calls ih => exact (e.notified_posts call).trans (ih _)
  have hposts := (hpackets σ.engine).trans (hcalls (net.notices.drop σ.net.notices.length) _)
  rwa [List.append_nil] at hposts

end ZlNet.Engine
