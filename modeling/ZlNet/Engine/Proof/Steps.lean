import ZlNet.Engine.Loop
import ZlNet.Lib.Outcome

/-! What the engine's functions for callbacks and packets can do. -/

namespace ZlNet.Engine

/-- The part of the engine's state that its callbacks are in. -/
@[ext]
structure Waiters (L μ : Type) where
  callbackHandlers : UInt32 → Option HandlerId
  callbackTimeOutList : L
  nextCallbackId : UInt32
  handler : HandlerId → CallbackHandler
  called : List (HandlerId × IOPacket μ)

namespace IOEngine

open Lib

variable {L μ : Type} [IntrusiveNode L] {σ τ : IOEngine L μ} {h : HandlerId} {id : UInt32}
  {clock now : Int} {packet : IOPacket μ} {r : Request μ} {a : Action μ}

/-- What a send that does not fail does: nothing, or it asks the network to send, or it binds a
handler, and asks the network to send or posts the answer that the send failed. -/
inductive Sent (σ : IOEngine L μ) (r : Request μ) : IOEngine L μ → Prop
  | dropped (havail : σ.isAvailable r.packet.uid = false) : Sent σ r σ
  | event (havail : σ.isAvailable r.packet.uid = true) :
      Sent σ r (σ.pushEvent (.data r.packet.uid r.packet))
  | request {h : HandlerId} {id : UInt32} {σ₁ : IOEngine L μ}
      (havail : σ.isAvailable r.packet.uid = true) (hhandler : r.callbackHander = some h)
      (hbind : σ.bindRequest h r.packet r.clock = .ok (id, σ₁)) :
      Sent σ r (σ₁.pushEvent (.data r.packet.uid { r.packet with callbackId := id }))
  | failed {h : HandlerId} {id : UInt32} {σ₁ : IOEngine L μ} (huid : r.packet.uid = 0)
      (havail : σ.isAvailable r.packet.uid = false) (hhandler : r.callbackHander = some h)
      (hbind : σ.bindRequest h r.packet r.clock = .ok (id, σ₁)) :
      Sent σ r (σ₁.postPacket (.msg ⟨0, 0, id, ErrCode_CallbackBySendError, none⟩))

theorem send_cases (hsend : σ.send r = .ok τ) : Sent σ r τ := by
  simp only [send] at hsend
  split at hsend
  · split at hsend
    · next havail =>
      split at hsend
      · next h hhandler =>
        obtain ⟨⟨id, σ₁⟩, hbind, hsend⟩ := of_bind_ok hsend
        obtain rfl := Except.ok.inj hsend
        exact .request havail hhandler hbind
      · obtain rfl := Except.ok.inj hsend
        exact .event havail
    · next havail =>
      have havail : σ.isAvailable r.packet.uid = false := by simpa using havail
      obtain ⟨_, huid, hsend⟩ := of_bind_ok hsend
      split at hsend
      · next h hhandler =>
        obtain ⟨⟨id, σ₁⟩, hbind, hsend⟩ := of_bind_ok hsend
        obtain rfl := Except.ok.inj hsend
        exact .failed (of_require huid) havail hhandler hbind
      · obtain rfl := Except.ok.inj hsend
        exact .dropped havail
  · split at hsend
    · obtain ⟨_, -, hsend⟩ := of_bind_ok hsend
      split at hsend
      · next havail =>
        obtain rfl := Except.ok.inj hsend
        exact .event havail
      · next havail =>
        obtain rfl := Except.ok.inj hsend
        exact .dropped (by simpa using havail)
    · cases hsend

/-- What the engine does with a packet of data: nothing, or it calls a packet handler, or it
completes the callback that the packet names. -/
inductive Received (σ : IOEngine L μ) (packet : IOPacket μ) : IOEngine L μ → Prop
  | dropped : Received σ packet σ
  | dispatched (havail : σ.isAvailable packet.uid = true) :
      Received σ packet (σ.dispatchPacket packet)
  | completed {h : HandlerId} (havail : σ.isAvailable packet.uid = true)
      (hfound : σ.callbackHandlers packet.callbackId = some h)
      (huid : (σ.handler h).uid = packet.uid) :
      Received σ packet (σ.complete packet.callbackId h packet)

theorem onIOPacket_cases (hpacket : σ.onIOPacket packet = .ok τ) : Received σ packet τ := by
  simp only [onIOPacket] at hpacket
  split at hpacket
  · next havail =>
    split at hpacket
    · obtain rfl := Except.ok.inj hpacket
      exact .dispatched havail
    split at hpacket
    · simp only [dispactchCallback] at hpacket
      split at hpacket
      · obtain rfl := Except.ok.inj hpacket
        exact .dropped
      · next h hfound =>
        obtain ⟨_, huid, hpacket⟩ := of_bind_ok hpacket
        obtain rfl := Except.ok.inj hpacket
        exact .completed havail hfound (of_require huid)
    · obtain rfl := Except.ok.inj hpacket
      exact .dropped
  · obtain rfl := Except.ok.inj hpacket
    exact .dropped

/-- A turn of the time-out loop completes the handler at the front, whose time is over. -/
theorem timeoutFront_cases (htimeout : σ.timeoutFront now = some τ) :
    ∃ h, IntrusiveNode.front σ.callbackTimeOutList = some h ∧ (σ.handler h).toMs ≤ now ∧
      τ = σ.complete (σ.handler h).cbId h
        ⟨(σ.handler h).uid, (σ.handler h).cmd, (σ.handler h).cbId, ErrCode_Timeout, none⟩ := by
  simp only [timeoutFront] at htimeout
  split at htimeout
  · cases htimeout
  · next h hfront =>
    split at htimeout
    · cases htimeout
    · next hover => exact ⟨h, hfront, Int.not_lt.mp hover, (Option.some.inj htimeout).symm⟩

omit [IntrusiveNode L] in
/-- `listen` and `connect` do nothing for a protocol that has a key, and nothing without a key for
it. -/
theorem takeKey_guard {P : IOEngine L μ → Prop} {p : ProtocolId} {type : Network.EIOOBJECT_TYPE}
    {key : UInt32} {event : Event μ} (hsame : P σ)
    (htake : (σ.protocol p).key = 0 → key ≠ 0 → P (σ.takeKey p type key event)) :
    P (if (σ.protocol p).key ≠ 0 then σ else if key = 0 then σ
      else σ.takeKey p type key event) := by
  split
  · exact hsame
  next hblank =>
  split
  · exact hsame
  next hkey => exact htake (not_not.mp hblank) hkey

/-! ### What a step does to callbacks -/

omit [IntrusiveNode L] in
/-- The part of the state that only sends, answers and time-outs change. -/
def waiters (σ : IOEngine L μ) : Waiters L μ where
  callbackHandlers := σ.callbackHandlers
  callbackTimeOutList := σ.callbackTimeOutList
  nextCallbackId := σ.nextCallbackId
  handler := σ.handler
  called := σ.called

/-- A step leaves the callbacks alone, or binds the handler of a send, or completes a callback: with
an answer that was received, or because its time is over. -/
inductive Progress (σ : IOEngine L μ) (a : Action μ) (τ : IOEngine L μ) : Prop
  | same (hsame : τ.waiters = σ.waiters)
  | bound {r : Request μ} {h : HandlerId} {id : UInt32} {σ₁ : IOEngine L μ} (ha : a = .send r)
      (hhandler : r.callbackHander = some h)
      (hbind : σ.bindRequest h r.packet r.clock = .ok (id, σ₁)) (hτ : τ.waiters = σ₁.waiters)
  | replied {packet : IOPacket μ} {h : HandlerId} (ha : a = .dispatch (.msg packet))
      (havail : σ.isAvailable packet.uid = true)
      (hfound : σ.callbackHandlers packet.callbackId = some h)
      (huid : (σ.handler h).uid = packet.uid)
      (hτ : τ.waiters = (σ.complete packet.callbackId h packet).waiters)
  | timedOut {now : Int} {h : HandlerId} (ha : a = .timeout now)
      (hfront : IntrusiveNode.front σ.callbackTimeOutList = some h)
      (hover : (σ.handler h).toMs ≤ now)
      (hτ : τ.waiters = (σ.complete (σ.handler h).cbId h
        ⟨(σ.handler h).uid, (σ.handler h).cmd, (σ.handler h).cbId, ErrCode_Timeout, none⟩).waiters)

/-- What a step does to the message queue: nothing, or it takes the packet that it handles, or it adds
one at the end. -/
inductive Queues (σ : IOEngine L μ) (a : Action μ) (τ : IOEngine L μ) : Prop
  | same (ha : ∀ packet, a ≠ .dispatch packet) (hqueue : τ.msgqueue = σ.msgqueue)
  | taken {packet : Packet μ} (ha : a = .dispatch packet) (hqueue : τ.msgqueue = σ.msgqueue.tail)
  | posted {packet : Packet μ} (ha : ∀ packet, a ≠ .dispatch packet)
      (hpacket : a = .post packet ∨ (∃ n, packet = .notify n) ∨
        ∃ p : IOPacket μ, packet = .msg p ∧ p.uid = 0)
      (hqueue : τ.msgqueue = σ.msgqueue ++ [packet])

/-- Whatever `x` returns has the callbacks and the message queue of `σ`. -/
def Keeps (σ : IOEngine L μ) (x : Except Fault (IOEngine L μ)) : Prop :=
  Outcome (fun _ => True) (fun τ => τ.waiters = σ.waiters ∧ τ.msgqueue = σ.msgqueue) x

omit [IntrusiveNode L] in
theorem Keeps.of_ok {x : Except Fault (IOEngine L μ)} (h : σ.Keeps x) (hx : x = .ok τ) :
    τ.waiters = σ.waiters ∧ τ.msgqueue = σ.msgqueue := by
  rwa [hx] at h

omit [IntrusiveNode L] in
theorem takeKey_keeps (p : ProtocolId) (type : Network.EIOOBJECT_TYPE) (key : UInt32)
    (event : Event μ) : σ.Keeps (.ok (σ.takeKey p type key event)) := by
  simp only [takeKey]
  split
  · exact ⟨rfl, rfl⟩
  · exact ⟨rfl, rfl⟩

omit [IntrusiveNode L] in
/-- `listen` and `connect` leave the callbacks and the queue alone. -/
theorem open_keeps {p : ProtocolId} {type : Network.EIOOBJECT_TYPE} {key : UInt32}
    {event : Event μ} : σ.Keeps (.ok (if (σ.protocol p).key ≠ 0 then σ else if key = 0 then σ
      else σ.takeKey p type key event)) := by
  apply takeKey_guard (P := fun τ => σ.Keeps (.ok τ)) ⟨rfl, rfl⟩
  intro _ _
  exact takeKey_keeps ..

/-- Only what is known of protocols, and what their users are told, differs. -/
def Talks (σ τ : IOEngine L μ) : Prop :=
  τ = { σ with protocols := τ.protocols, protocol := τ.protocol, upcalls := τ.upcalls }

omit [IntrusiveNode L] in
/-- A close that finds a protocol asks the network to close it. -/
theorem close_talks (uid : UInt32) : Outcome (fun _ => True)
    (fun τ => τ = σ ∨ σ.protocols uid ≠ none ∧ (σ.pushEvent (.close uid)).Talks τ) (σ.close uid) := by
  simp only [close]
  split
  · exact .inl rfl
  next p hfound =>
  have hfound : σ.protocols uid ≠ none := fun hnone => by cases hnone.symm.trans hfound
  split
  · exact .inr ⟨hfound, rfl⟩
  split
  · exact .inr ⟨hfound, rfl⟩
  · exact .inr ⟨hfound, rfl⟩
  · exact .inr ⟨hfound, rfl⟩
  · trivial

omit [IntrusiveNode L] in
theorem onIOListen_talks (notify : IONotify) : σ.Talks (σ.onIOListen notify) := by
  simp only [onIOListen]
  split
  · rfl
  split
  · rfl
  · rfl

omit [IntrusiveNode L] in
theorem onIOUnListen_talks (notify : IONotify) : σ.Talks (σ.onIOUnListen notify) := by
  simp only [onIOUnListen]
  split
  · rfl
  split
  · rfl
  · rfl

omit [IntrusiveNode L] in
theorem onIOAccept_talks (notify : IONotify) :
    Outcome (fun _ => True) σ.Talks (σ.onIOAccept notify) := by
  simp only [onIOAccept]
  split
  · trivial
  split
  · rfl
  split
  · rfl
  split
  · rfl
  · rfl

omit [IntrusiveNode L] in
theorem onIOClose_talks (notify : IONotify) : σ.Talks (σ.onIOClose notify) := by
  simp only [onIOClose]
  split
  · rfl
  · rfl

omit [IntrusiveNode L] in
theorem onIOConnect_talks (notify : IONotify) : σ.Talks (σ.onIOConnect notify) := by
  simp only [onIOConnect]
  split
  · rfl
  split
  · rfl
  · rfl

omit [IntrusiveNode L] in
theorem onIODisconnect_talks (notify : IONotify) : σ.Talks (σ.onIODisconnect notify) := by
  simp only [onIODisconnect]
  split
  · rfl
  split
  · rfl
  · rfl

theorem dispatchNotify_talks (notify : IONotify) :
    Outcome (fun _ => True) σ.Talks (σ.dispatchIOPacket (.notify notify)) := by
  simp only [dispatchIOPacket]
  split
  · exact onIOListen_talks notify
  · exact onIOUnListen_talks notify
  · exact onIOAccept_talks notify
  · exact onIOConnect_talks notify
  · exact onIOClose_talks notify
  · exact onIODisconnect_talks notify

omit [IntrusiveNode L] in
theorem Talks.keeps (h : σ.Talks τ) : τ.waiters = σ.waiters ∧ τ.msgqueue = σ.msgqueue :=
  ⟨(congrArg waiters h :), (congrArg msgqueue h :)⟩

omit [IntrusiveNode L] in
theorem close_keeps (uid : UInt32) : σ.Keeps (σ.close uid) := by
  refine (close_talks uid).mono fun τ hτ => ?_
  rcases hτ with rfl | ⟨-, htalks⟩
  · exact ⟨rfl, rfl⟩
  · exact htalks.keeps

theorem dispatchNotify_keeps (notify : IONotify) :
    σ.Keeps (σ.dispatchIOPacket (.notify notify)) :=
  (dispatchNotify_talks notify).mono fun _ htalks => htalks.keeps

theorem onIOPacket_progress (hpacket : { σ with msgqueue := σ.msgqueue.tail }.onIOPacket packet =
    .ok τ) : Progress σ (.dispatch (.msg packet)) τ ∧ τ.msgqueue = σ.msgqueue.tail := by
  cases onIOPacket_cases hpacket with
  | dropped => exact ⟨.same rfl, rfl⟩
  | dispatched =>
    simp only [dispatchPacket]
    split
    · exact ⟨.same rfl, rfl⟩
    · exact ⟨.same rfl, rfl⟩
  | completed havail hfound huid => exact ⟨.replied rfl havail hfound huid rfl, rfl⟩

theorem makeCallbackId_snd :
    σ.makeCallbackId.2 = { σ with nextCallbackId := idAfter σ.nextCallbackId } := by
  simp only [makeCallbackId]
  split
  · split
    · rfl
    · rfl
  · rfl

/-- What a bind for a send leaves. -/
theorem bindRequest_spec (hbind : σ.bindRequest h packet clock = .ok (id, τ)) :
    (σ.handler h).cbId = 0 ∧ τ = { σ with
      nextCallbackId := idAfter σ.nextCallbackId
      handler := Function.update σ.handler h
        ⟨packet.uid, id, clock + σ.callbackTimeoutMs, packet.cmd⟩
      callbackHandlers := Function.update σ.callbackHandlers id (some h)
      callbackTimeOutList := IntrusiveNode.pushBack σ.callbackTimeOutList h } := by
  obtain ⟨⟨cbId, σ₁⟩, hinner, hset⟩ := of_bind_ok hbind
  obtain ⟨rfl, rfl⟩ := Prod.mk.inj (Except.ok.inj hset)
  obtain ⟨_, hunbound, hinner⟩ := of_bind_ok hinner
  have hsnd := makeCallbackId_snd (σ := σ)
  cases hmake : σ.makeCallbackId with
  | mk cbId' σ₂ =>
  rw [hmake] at hinner hsnd
  obtain rfl := hsnd
  obtain ⟨_, -, hinner⟩ := of_bind_ok hinner
  obtain ⟨rfl, rfl⟩ := Prod.mk.inj (Except.ok.inj hinner)
  refine ⟨of_require hunbound, ?_⟩
  simp only [setHandler, Function.update_self, Function.update_idem]

theorem bindRequest_events (hbind : σ.bindRequest h packet clock = .ok (id, τ)) :
    τ.events = σ.events ∧ τ.msgqueue = σ.msgqueue := by
  obtain ⟨-, rfl⟩ := bindRequest_spec hbind
  exact ⟨rfl, rfl⟩

/-- What a step does to callbacks and to the message queue. -/
theorem exec_moves (hexec : σ.exec a = .ok τ) : Progress σ a τ ∧ Queues σ a τ := by
  have keeps {x : Except Fault (IOEngine L μ)} (h : σ.Keeps x) (hx : x = .ok τ)
      (ha : ∀ packet, a ≠ .dispatch packet) : Progress σ a τ ∧ Queues σ a τ := by
    obtain ⟨hsame, hqueue⟩ := h.of_ok hx
    exact ⟨.same hsame, .same ha hqueue⟩
  cases a with
  | create => exact keeps (x := .ok σ.create) ⟨rfl, rfl⟩ hexec nofun
  | listen port p key => exact keeps (x := .ok (σ.listen port p key)) open_keeps hexec nofun
  | connect address p key => exact keeps (x := .ok (σ.connect address p key)) open_keeps hexec nofun
  | close uid => exact keeps (close_keeps uid) hexec nofun
  | bindPacketHandler cmd handler =>
    obtain rfl := Except.ok.inj hexec
    unfold bindPacketHandler
    split
    · exact ⟨.same rfl, .same nofun rfl⟩
    · exact ⟨.same rfl, .same nofun rfl⟩
  | send request =>
    cases send_cases hexec with
    | dropped => exact ⟨.same rfl, .same nofun rfl⟩
    | event => exact ⟨.same rfl, .same nofun rfl⟩
    | request _ hhandler hbind =>
      exact ⟨.bound rfl hhandler hbind rfl, .same nofun (bindRequest_events hbind).2⟩
    | failed _ _ hhandler hbind =>
      exact ⟨.bound rfl hhandler hbind rfl, .posted nofun (.inr (.inr ⟨_, rfl, rfl⟩))
        (congrArg (· ++ _) (bindRequest_events hbind).2)⟩
  | accept key p =>
    obtain rfl := Except.ok.inj hexec
    exact ⟨.same rfl, .posted nofun (.inr (.inl ⟨_, rfl⟩)) rfl⟩
  | post packet =>
    obtain rfl := Except.ok.inj hexec
    exact ⟨.same rfl, .posted nofun (.inl rfl) rfl⟩
  | dispatch packet =>
    cases packet with
    | notify notify =>
      obtain ⟨hsame, hqueue⟩ := (dispatchNotify_keeps notify).of_ok hexec
      exact ⟨.same hsame, .taken rfl hqueue⟩
    | msg packet =>
      obtain ⟨hprogress, hqueue⟩ := onIOPacket_progress hexec
      exact ⟨hprogress, .taken rfl hqueue⟩
  | timeout now =>
    obtain rfl := Except.ok.inj hexec
    cases htimeout : σ.timeoutFront now with
    | none => exact ⟨.same rfl, .same nofun rfl⟩
    | some τ =>
      obtain ⟨h, hfront, hover, rfl⟩ := timeoutFront_cases htimeout
      exact ⟨.timedOut rfl hfront hover rfl, .same nofun rfl⟩
  | recycle p => exact keeps (x := .ok (σ.recycle p)) ⟨rfl, rfl⟩ hexec nofun

theorem exec_progress (hexec : σ.exec a = .ok τ) : Progress σ a τ := (exec_moves hexec).1

theorem exec_queue (hexec : σ.exec a = .ok τ) : Queues σ a τ := (exec_moves hexec).2

/-! ### What every step leaves -/

/-- `τ` has the events of `σ`, and after them a close of no key but those that were asked for.  It
gives a callback as much time. -/
structure Continues (σ : IOEngine L μ) (asked : UInt32 → Prop) (τ : IOEngine L μ) : Prop where
  timeout : τ.callbackTimeoutMs = σ.callbackTimeoutMs
  events : ∃ es, τ.events = σ.events ++ es ∧ ∀ uid, .close uid ∈ es → asked uid

/-- Whatever `x` returns continues `σ`. -/
def Goes (σ : IOEngine L μ) (asked : UInt32 → Prop) (x : Except Fault (IOEngine L μ)) : Prop :=
  Outcome (fun _ => True) (σ.Continues asked) x

section

variable {asked : UInt32 → Prop}

omit [IntrusiveNode L] in
theorem Goes.of_ok {x : Except Fault (IOEngine L μ)} (h : σ.Goes asked x) (hx : x = .ok τ) :
    σ.Continues asked τ := by
  rwa [hx] at h

omit [IntrusiveNode L] in
theorem Continues.same (htimeout : τ.callbackTimeoutMs = σ.callbackTimeoutMs)
    (hevents : τ.events = σ.events) : σ.Continues asked τ :=
  ⟨htimeout, [], by rw [hevents, List.append_nil], fun uid huid => by cases huid⟩

omit [IntrusiveNode L] in
theorem Continues.push {event : Event μ} (htimeout : τ.callbackTimeoutMs = σ.callbackTimeoutMs)
    (hevents : τ.events = σ.events ++ [event]) (hasked : ∀ uid, event = .close uid → asked uid) :
    σ.Continues asked τ :=
  ⟨htimeout, [event], hevents, fun uid huid => hasked uid (List.mem_singleton.mp huid).symm⟩

omit [IntrusiveNode L] in
theorem Continues.mono {asked' : UInt32 → Prop} (h : σ.Continues asked τ)
    (hasked : ∀ uid, asked uid → asked' uid) : σ.Continues asked' τ := by
  obtain ⟨htimeout, es, hevents, hes⟩ := h
  exact ⟨htimeout, es, hevents, fun uid huid => hasked uid (hes uid huid)⟩

omit [IntrusiveNode L] in
theorem Continues.initial (h : σ.Continues asked τ) : σ.events <+: τ.events := by
  obtain ⟨-, es, hevents, -⟩ := h
  exact ⟨es, hevents.symm⟩

omit [IntrusiveNode L] in
theorem open_goes {p : ProtocolId} {type : Network.EIOOBJECT_TYPE} {key : UInt32}
    {event : Event μ} (hevent : ∀ uid, event ≠ .close uid) :
    σ.Goes asked (.ok (if (σ.protocol p).key ≠ 0 then σ else if key = 0 then σ
      else σ.takeKey p type key event)) := by
  apply takeKey_guard (P := fun τ => σ.Goes asked (.ok τ)) (Continues.same rfl rfl)
  intro _ _
  simp only [takeKey]
  split
  · exact .push rfl rfl fun uid huid => absurd huid (hevent uid)
  · exact .push rfl rfl fun uid huid => absurd huid (hevent uid)

omit [IntrusiveNode L] in
/-- A close is asked for only if there is a protocol to close. -/
theorem close_goes (uid : UInt32) :
    σ.Goes (fun uid' => uid' = uid ∧ σ.protocols uid ≠ none) (σ.close uid) := by
  refine (close_talks uid).mono fun τ hτ => ?_
  rcases hτ with rfl | ⟨hfound, htalks⟩
  · exact .same rfl rfl
  · exact .push (congrArg callbackTimeoutMs htalks :) (congrArg events htalks :)
      fun uid' huid => ⟨(Event.close.inj huid).symm, hfound⟩

theorem dispatchNotify_goes (notify : IONotify) :
    σ.Goes asked (σ.dispatchIOPacket (.notify notify)) :=
  (dispatchNotify_talks notify).mono fun _ htalks =>
    .same (congrArg callbackTimeoutMs htalks :) (congrArg events htalks :)

theorem bindRequest_continues (hbind : σ.bindRequest h packet clock = .ok (id, τ)) :
    σ.Continues asked τ := by
  obtain ⟨-, rfl⟩ := bindRequest_spec hbind
  exact .same rfl rfl

theorem bindRequest_timeout (hbind : σ.bindRequest h packet clock = .ok (id, τ)) :
    τ.callbackTimeoutMs = σ.callbackTimeoutMs :=
  (bindRequest_continues hbind : σ.Continues (fun _ => False) τ).timeout

theorem send_continues (hsend : σ.send r = .ok τ) : σ.Continues asked τ := by
  cases send_cases hsend with
  | dropped => exact .same rfl rfl
  | event => exact .push rfl rfl fun uid huid => by cases huid
  | request _ _ hbind =>
    have htimeout := bindRequest_timeout hbind
    have hevents := (bindRequest_events hbind).1
    exact .push htimeout (congrArg (· ++ _) hevents) fun uid huid => by cases huid
  | failed _ _ _ hbind =>
    have htimeout := bindRequest_timeout hbind
    have hevents := (bindRequest_events hbind).1
    exact .same htimeout hevents

end

/-- The key that a step asks the network to close. -/
def Asks (σ : IOEngine L μ) (a : Action μ) (uid : UInt32) : Prop :=
  a = .close uid ∧ σ.protocols uid ≠ none

theorem exec_continues (hexec : σ.exec a = .ok τ) : σ.Continues (σ.Asks a) τ := by
  cases a with
  | listen port p key => exact (open_goes fun uid => by simp).of_ok hexec
  | connect address p key => exact (open_goes fun uid => by simp).of_ok hexec
  | close uid =>
    refine ((close_goes uid).of_ok hexec).mono fun uid' hasked => ?_
    obtain ⟨rfl, hfound⟩ := hasked
    exact ⟨rfl, hfound⟩
  | bindPacketHandler cmd handler =>
    obtain rfl := Except.ok.inj hexec
    unfold bindPacketHandler
    split
    · exact .same rfl rfl
    · exact .same rfl rfl
  | send request => exact send_continues hexec
  | dispatch packet =>
    cases packet with
    | notify notify =>
      obtain ⟨htimeout, hevents⟩ :=
        (dispatchNotify_goes (σ := { σ with msgqueue := σ.msgqueue.tail }) notify).of_ok hexec
      exact ⟨htimeout, hevents⟩
    | msg packet =>
      cases onIOPacket_cases hexec with
      | dropped => exact .same rfl rfl
      | dispatched =>
        simp only [dispatchPacket]
        split
        · exact .same rfl rfl
        · exact .same rfl rfl
      | completed => exact .same rfl rfl
  | timeout now =>
    obtain rfl := Except.ok.inj hexec
    cases htimeout : σ.timeoutFront now with
    | none => exact .same rfl rfl
    | some τ =>
      obtain ⟨h, -, -, rfl⟩ := timeoutFront_cases htimeout
      exact .same rfl rfl
  | create | accept | post | recycle =>
    obtain rfl := Except.ok.inj hexec
    exact .same rfl rfl

end IOEngine

end ZlNet.Engine
