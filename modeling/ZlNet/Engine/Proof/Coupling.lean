import ZlNet.Engine.Proof.Heeds
import ZlNet.Engine.Proof.InnerProtocol
import ZlNet.Network.Proof.Steady

/-! The engine and the network thread together.  Each keeps to what the other relies on: the network
tells only protocols that own their keys, and each what is for its type, and the engine takes keys that
are free and sends data to connections.  So the process makes runs of the two that are permitted. -/

namespace ZlNet.Engine

open Lib Network Network.CNetwork

/-- A protocol reads the bytes of a buffer as it reads the ring buffer that has them. -/
theorem InnerProtocol.unserialize_refines (host : Bytes.Endian) (key : UInt32) {r : CRingBuffer}
    {buffer : IIOBuffer} (h : r.Holds buffer.bytes) :
    (unserialize key buffer).1 = (onUnserialize host key r).1 ∧
      ((∃ buffer' r', (unserialize key buffer).2 = .ok (true, buffer') ∧
        (onUnserialize host key r).2 = .ok (true, r') ∧ r'.Holds buffer'.bytes) ∨
      (∃ buffer' r', (unserialize key buffer).2 = .ok (false, buffer') ∧
        (onUnserialize host key r).2 = .ok (false, r')) ∨
      ∃ f, (unserialize key buffer).2 = .error f ∧ (onUnserialize host key r).2 = .error f) := by
  obtain ⟨hes, hreturns⟩ := onUnserialize_returns host key h
  unfold unserialize
  generalize (frames key).drain buffer.bytes = drained at hes hreturns
  obtain ⟨es, standing⟩ := drained
  generalize (onUnserialize host key r).2 = result at hreturns
  cases hreturns with
  | @waiting rest r' hholds => exact ⟨hes.symm, .inl ⟨⟨rest⟩, r', rfl, rfl, hholds⟩⟩
  | @rejected r' => exact ⟨hes.symm, .inr (.inl ⟨.new, r', rfl, rfl⟩)⟩
  | @aborted f => exact ⟨hes.symm, .inr (.inr ⟨f, rfl, rfl⟩)⟩

namespace IOEngine

variable {L : Type} [IntrusiveNode L]

/-! ### What the engine asks for -/

section

variable {μ : Type} {σ τ : IOEngine L μ} {a : Action μ} {uid : UInt32}

/-- The steps that the engine and its users make. -/
def Owns : Action μ → Prop
  | .create | .listen _ _ _ | .connect _ _ _ | .close _ | .bindPacketHandler _ _ | .send _
  | .dispatch _ | .timeout _ => True
  | .accept _ _ | .post _ | .recycle _ => False

/-- The event that a step queues, if it queues one.  Only a protocol that is opened takes a key. -/
inductive Emits (σ : IOEngine L μ) (a : Action μ) (τ : IOEngine L μ) : Prop
  | quiet (hout : τ.outstanding = σ.outstanding) (hevents : τ.events = σ.events)
  | listen {port : UInt16} {p : ProtocolId} {key : UInt32} (ha : a = .listen port p key)
      (hblank : (σ.protocol p).key = 0) (hkey : key ≠ 0)
      (hτ : τ = σ.takeKey p .LISTENER key (.listen port p))
  | connect {address : CAddress} {p : ProtocolId} {key : UInt32} (ha : a = .connect address p key)
      (hblank : (σ.protocol p).key = 0) (hkey : key ≠ 0)
      (hτ : τ = σ.takeKey p .CONNECTOR key (.connect address p))
  | data {r : Request μ} {packet : IOPacket μ} (ha : a = .send r)
      (havail : σ.isAvailable r.packet.uid = true) (hout : τ.outstanding = σ.outstanding)
      (hevents : τ.events = σ.events ++ [.data r.packet.uid packet])
  | close {uid : UInt32} (ha : a = .close uid) (hfound : σ.protocols uid ≠ none)
      (hout : τ.outstanding = σ.outstanding) (hevents : τ.events = σ.events ++ [.close uid])

theorem exec_close (hexec : σ.exec (.close uid) = .ok τ) :
    τ = σ ∨ σ.protocols uid ≠ none ∧ (σ.pushEvent (.close uid)).Talks τ := by
  have htalks := close_talks (σ := σ) uid
  rwa [show σ.close uid = .ok τ from hexec] at htalks

theorem exec_notify {n : IONotify} (hexec : σ.exec (.dispatch (.notify n)) = .ok τ) :
    { σ with msgqueue := σ.msgqueue.tail }.Talks τ := by
  have htalks := dispatchNotify_talks (σ := { σ with msgqueue := σ.msgqueue.tail }) n
  have hexec : { σ with msgqueue := σ.msgqueue.tail }.dispatchIOPacket (.notify n) = .ok τ := hexec
  rwa [hexec] at htalks

theorem exec_emits (ha : Owns a) (hexec : σ.exec a = .ok τ) : Emits σ a τ := by
  cases a with
  | create =>
    obtain rfl := Except.ok.inj hexec
    exact .quiet rfl rfl
  | listen port p key =>
    obtain rfl := Except.ok.inj hexec
    apply takeKey_guard (P := Emits σ (.listen port p key)) (.quiet rfl rfl)
    exact fun hblank hkey => .listen rfl hblank hkey rfl
  | connect address p key =>
    obtain rfl := Except.ok.inj hexec
    apply takeKey_guard (P := Emits σ (.connect address p key)) (.quiet rfl rfl)
    exact fun hblank hkey => .connect rfl hblank hkey rfl
  | close uid =>
    rcases exec_close hexec with rfl | ⟨hfound, htalks⟩
    · exact .quiet rfl rfl
    · exact .close rfl hfound (congrArg outstanding htalks :) (congrArg events htalks :)
  | bindPacketHandler cmd handler =>
    obtain rfl := Except.ok.inj hexec
    unfold bindPacketHandler
    split
    · exact .quiet rfl rfl
    · exact .quiet rfl rfl
  | send request =>
    have hout : τ.outstanding = σ.outstanding :=
      congrArg Connections.outstanding (send_connections hexec)
    cases send_cases hexec with
    | dropped => exact .quiet rfl rfl
    | event havail => exact .data rfl havail rfl rfl
    | request havail _ hbind =>
      exact .data rfl havail hout (congrArg (· ++ _) (bindRequest_events hbind).1)
    | failed _ _ _ hbind => exact .quiet hout (bindRequest_events hbind).1
  | dispatch packet =>
    cases packet with
    | notify notify =>
      have htalks := exec_notify hexec
      exact .quiet (congrArg outstanding htalks :) (congrArg events htalks :)
    | msg packet =>
      cases onIOPacket_cases hexec with
      | dropped => exact .quiet rfl rfl
      | dispatched =>
        simp only [dispatchPacket]
        split
        · exact .quiet rfl rfl
        · exact .quiet rfl rfl
      | completed => exact .quiet rfl rfl
  | timeout now =>
    obtain rfl := Except.ok.inj hexec
    cases htimeout : σ.timeoutFront now with
    | none => exact .quiet rfl rfl
    | some τ =>
      obtain ⟨h, -, -, rfl⟩ := timeoutFront_cases htimeout
      exact .quiet rfl rfl
  | accept => exact ha.elim
  | post => exact ha.elim
  | recycle => exact ha.elim

/-- The step that handles a notification takes it out of the queue first. -/
theorem handles_cases (h : σ.connections.Sound) {n : IONotify} (hstep : σ.Permitted a τ)
    (hhandles : handles a = some n) : ∃ rest, a = .dispatch (.notify n) ∧
      σ.connections.notices = n :: rest.filterMap Packet.notice ∧
      { σ with msgqueue := rest }.connections.Popped n ∧
      { σ with msgqueue := rest }.dispatchIOPacket (.notify n) = .ok τ := by
  obtain ⟨⟨hhead, hexec⟩, -⟩ := hstep
  cases a with
  | dispatch packet =>
    obtain ⟨rest, hqueue⟩ := List.head?_eq_some_iff.mp (hhead packet rfl)
    cases packet with
    | msg packet => cases hhandles
    | notify n' =>
      obtain rfl : n' = n := Option.some.inj hhandles
      have hnotices : σ.connections.notices = n' :: rest.filterMap Packet.notice := by
        simp [connections, hqueue, Packet.notice]
      have htail : σ.msgqueue.tail = rest := by rw [hqueue, List.tail_cons]
      refine ⟨rest, rfl, hnotices, h.popped hnotices, ?_⟩
      rw [← htail]
      exact hexec
  | create | listen | connect | close | bindPacketHandler | send | accept | post | timeout | recycle =>
    cases hhandles

omit [IntrusiveNode L] in
theorem takeKey_protocol {p : ProtocolId} {type : EIOOBJECT_TYPE} {key : UInt32} {event : Event μ} :
    (σ.takeKey p type key event).events = σ.events ++ [event] ∧
      (σ.takeKey p type key event).outstanding = p :: σ.outstanding ∧
      (σ.takeKey p type key event).protocol p = { σ.protocol p with type, key } := by
  simp only [takeKey]
  split
  · simp [pushEvent, setProtocol, insertProtocol]
  · simp [pushEvent, setProtocol]

end

/-! ### A notification that is handled out of its place -/

section

variable {μ : Type} {σ τ ρ : IOEngine L μ} {a : Action μ} {p : ProtocolId} {n : IONotify}
  {uid : UInt32}

/-- The first notification about its protocol is taken to the front of the message queue. -/
inductive Fetches (σ : IOEngine L μ) (n : IONotify) : IOEngine L μ → Prop
  | mk {front back : List (Packet μ)} (hqueue : σ.msgqueue = front ++ .notify n :: back)
      (hfirst : ∀ packet ∈ front, concerns n.protocol packet = false) :
      Fetches σ n { σ with msgqueue := .notify n :: (front ++ back) }

/-- A step that keeps to the contract, with the message queue as it is, or with a notification taken to
its front. -/
def Served (σ : IOEngine L μ) (a : Action μ) (τ : IOEngine L μ) : Prop :=
  ∃ ρ, (ρ = σ ∨ ∃ n, σ.Fetches n ρ) ∧ ρ.Permitted a τ

theorem Permitted.served (h : σ.Permitted a τ) : σ.Served a τ := ⟨σ, .inl rfl, h⟩

omit [IntrusiveNode L] in
theorem Fetches.notices (h : σ.Fetches n ρ) : ∃ front back,
    σ.connections.notices = front ++ n :: back ∧ (∀ m ∈ front, m.protocol ≠ n.protocol) ∧
      ρ.connections = { σ.connections with notices := n :: (front ++ back) } := by
  cases h with
  | @mk front back hqueue hfirst =>
    refine ⟨front.filterMap Packet.notice, back.filterMap Packet.notice, ?_, fun m hm heq => ?_, ?_⟩
    · simp [connections, hqueue, Packet.notice]
    · obtain ⟨packet, hpacket, hnotice⟩ := List.mem_filterMap.mp hm
      cases packet with
      | msg packet => cases hnotice
      | notify m' =>
        obtain rfl := Option.some.inj hnotice
        simpa [concerns, heq] using hfirst _ hpacket
    · simp [connections, Packet.notice]

theorem pollOnePacket_cases (hpoll : σ.pollOnePacket p = .ok τ) : τ = σ ∨
    ∃ n ρ, n.protocol = p ∧ σ.Fetches n ρ ∧ ρ.exec (.dispatch (.notify n)) = .ok τ := by
  unfold pollOnePacket at hpoll
  split at hpoll
  · exact .inl (Except.ok.inj hpoll).symm
  · next packet hfind =>
    obtain ⟨hp, front, back, hqueue, hfirst⟩ := List.find?_eq_some_iff_append.mp hfind
    cases packet with
    | msg packet => cases hp
    | notify n =>
      obtain rfl : n.protocol = p := of_decide_eq_true hp
      have hfirst : ∀ packet ∈ front, concerns n.protocol packet = false := by simpa using hfirst
      have herase : σ.msgqueue.eraseP (concerns n.protocol) = front ++ back := by
        rw [hqueue, List.eraseP_append_right _ (by simpa using hfirst), List.eraseP_cons_of_pos hp]
      rw [herase] at hpoll
      exact .inr ⟨n, _, rfl, .mk hqueue hfirst, hpoll⟩

theorem pollOnePacket_events (hpoll : σ.pollOnePacket p = .ok τ) : τ.events = σ.events := by
  rcases pollOnePacket_cases hpoll with rfl | ⟨n, ρ, rfl, hfetches, hexec⟩
  · rfl
  · cases hfetches with
    | mk => exact (congrArg events (exec_notify hexec) :)

/-- `confirmListen` and `confirmConnect` queue no event, or the close of a protocol that there was. -/
theorem confirm_events {confirmed : Bool} (hconfirm : σ.confirm uid = .ok (confirmed, τ)) :
    τ.events = σ.events ∨ τ.events = σ.events ++ [.close uid] ∧ σ.protocols uid ≠ none := by
  unfold confirm at hconfirm
  split at hconfirm
  · exact .inl ((Prod.mk.inj (Except.ok.inj hconfirm)).2 ▸ rfl)
  next p hfound =>
  split at hconfirm
  · exact .inl ((Prod.mk.inj (Except.ok.inj hconfirm)).2 ▸ rfl)
  obtain ⟨ρ, hpoll, hconfirm⟩ := of_bind_ok hconfirm
  have hevents := pollOnePacket_events hpoll
  split at hconfirm
  · exact .inl ((Prod.mk.inj (Except.ok.inj hconfirm)).2 ▸ hevents)
  · obtain ⟨-, rfl⟩ := Prod.mk.inj (Except.ok.inj hconfirm)
    refine .inr ⟨?_, fun hnone => by cases hfound.symm.trans hnone⟩
    change ρ.events ++ [_] = _
    rw [hevents]

/-- A protocol that is not available stays in the table when a notification about it is handled. -/
theorem kept_of_unavailable (hfound : σ.protocols uid = some n.protocol)
    (hkey : (σ.protocol n.protocol).key = uid) (huid : n.uid = uid)
    (hquiet : (σ.protocol n.protocol).available = false)
    (hexec : σ.dispatchIOPacket (.notify n) = .ok τ) : τ.protocols uid = some n.protocol := by
  subst huid
  have hget : σ.getProtocol n.uid = some n.protocol := hfound
  cases htype : n.type with
  | PacketListen =>
    simp only [dispatchIOPacket, htype] at hexec
    obtain rfl := Except.ok.inj hexec
    simp only [onIOListen]
    split
    · exact hfound
    · split <;> exact hfound
  | PacketUnlisten =>
    simp only [dispatchIOPacket, htype, onIOUnListen, hget, hquiet] at hexec
    obtain rfl := Except.ok.inj hexec
    exact hfound
  | PacketAccept =>
    simp only [dispatchIOPacket, htype, onIOAccept] at hexec
    split at hexec
    · cases hexec
    split at hexec
    · exact Except.ok.inj hexec ▸ hfound
    split at hexec
    · exact Except.ok.inj hexec ▸ hfound
    have hthere : (σ.setAvailable n.protocol).protocols (σ.protocol n.protocol).key ≠ none := by
      rw [hkey]
      exact fun hnone => by cases hfound.symm.trans hnone
    rw [if_neg hthere] at hexec
    exact Except.ok.inj hexec ▸ hfound
  | PacketConnect =>
    simp only [dispatchIOPacket, htype] at hexec
    obtain rfl := Except.ok.inj hexec
    simp only [onIOConnect]
    split
    · exact hfound
    · split <;> exact hfound
  | PacketClose =>
    simp only [dispatchIOPacket, htype, onIOClose, hquiet] at hexec
    obtain rfl := Except.ok.inj hexec
    exact hfound
  | PacketDisconnect =>
    simp only [dispatchIOPacket, htype, onIODisconnect, hquiet] at hexec
    obtain rfl := Except.ok.inj hexec
    simp only [Bool.not_false, if_true, ite_self]
    exact hfound

/-- `confirmListen` and `confirmConnect` handle the first notification about the protocol, and close a
protocol that is not available then. -/
theorem confirm_cases {confirmed : Bool} (h : σ.connections.Sound)
    (hconfirm : σ.confirm uid = .ok (confirmed, τ)) : τ = σ ∨
    ∃ p ρ, σ.protocols uid = some p ∧ σ.pollOnePacket p = .ok ρ ∧
      (τ = ρ ∨ ρ.exec (.close uid) = .ok τ) := by
  unfold confirm at hconfirm
  split at hconfirm
  · exact .inl (Prod.mk.inj (Except.ok.inj hconfirm)).2.symm
  next p hfound =>
  split at hconfirm
  · exact .inl (Prod.mk.inj (Except.ok.inj hconfirm)).2.symm
  next hquiet =>
  obtain ⟨ρ, hpoll, hconfirm⟩ := of_bind_ok hconfirm
  refine .inr ⟨p, ρ, hfound, hpoll, ?_⟩
  have hquiet : (σ.protocol p).available = false := by simpa using hquiet
  split at hconfirm
  · exact .inl (Prod.mk.inj (Except.ok.inj hconfirm)).2.symm
  next hunavailable =>
  obtain ⟨-, rfl⟩ := Prod.mk.inj (Except.ok.inj hconfirm)
  have hunavailable : (ρ.protocol p).available = false := by simpa using hunavailable
  -- the protocol is still in the table
  have hthere : ρ.getProtocol uid = some p := by
    rcases pollOnePacket_cases hpoll with rfl | ⟨n, σ₁, rfl, hfetches, hexec⟩
    · exact hfound
    · obtain ⟨front, back, hnotices, -, hconn⟩ := hfetches.notices
      have hn : n ∈ σ.connections.notices := hnotices ▸ by simp
      have hkey : (σ.connections.protocol n.protocol).key = uid := (h.entry uid _ hfound).2
      have huid : n.uid = uid := (h.notice n hn).2.1.trans hkey
      cases hfetches with
      | @mk front back hqueue hfirst =>
        exact kept_of_unavailable (σ := { σ with msgqueue := front ++ back }) hfound hkey huid hquiet
          hexec
  refine .inr ?_
  change ρ.close uid = .ok _
  simp only [close, hthere, pushEvent, hunavailable]
  rfl

end

/-! ### What the network tells the engine -/

variable {e : IOEngine L SerializeMessage} {calls : List (IOProtocol × Notice)} {p : IOProtocol}

/-- The steps of the engine's own contract in which what was read is posted. -/
theorem posts_run (packets : List (IOPacket SerializeMessage)) (e : IOEngine L SerializeMessage) :
    (∃ bs, Run Permitted e bs (packets.foldl (fun e packet => e.postPacket (.msg packet)) e)) ∧
      (packets.foldl (fun e packet => e.postPacket (.msg packet)) e).connections =
        e.connections := by
  induction packets generalizing e with
  | nil => exact ⟨⟨[], .nil⟩, rfl⟩
  | cons packet packets ih =>
    obtain ⟨⟨bs, hrun⟩, hconn⟩ := ih (e.postPacket (.msg packet))
    have hstep : e.Permitted (.post (.msg packet)) (e.postPacket (.msg packet)) :=
      ⟨⟨by rintro _ ⟨⟩, rfl⟩, trivial⟩
    exact ⟨⟨_, hrun.cons hstep⟩, hconn.trans (postMsg_connections packet)⟩

/-- The call is for a protocol that owns its key, and is of the type that hears it. -/
def Owned (e : IOEngine L SerializeMessage) (call : IOProtocol × Notice) : Prop :=
  call.1.id ∈ e.outstanding ∧ (e.protocol call.1.id).key = call.1.key ∧
    (e.protocol call.1.id).type = call.2.about

omit [IntrusiveNode L] in
theorem notified_of_not_accepted {call : IOProtocol × Notice}
    (hnone : acceptedProtocol call = none) :
    e.notified call = e.postPacket (.notify (posted call)) ∧
      (posted call).type.about = some call.2.about := by
  obtain ⟨p, notice⟩ := call
  cases notice with
  | onAccept q => cases hnone
  | _ => exact ⟨rfl, rfl⟩

/-- What is told to protocols that there are is posted to them. -/
theorem notified_run (e : IOEngine L SerializeMessage)
    (hcalls : ∀ call ∈ calls, acceptedProtocol call = none ∧ e.Owned call) :
    (∃ bs, Run Permitted e bs (calls.foldl notified e)) ∧
      (calls.foldl notified e).connections =
        { e.connections with notices := e.connections.notices ++ calls.map posted } := by
  induction calls generalizing e with
  | nil => exact ⟨⟨[], .nil⟩, by simp⟩
  | cons call calls ih =>
    obtain ⟨hnone, hheld, hkey, htype⟩ := hcalls call List.mem_cons_self
    obtain ⟨heq, habout⟩ := notified_of_not_accepted (e := e) hnone
    have hstep : e.Permitted (.post (.notify (posted call))) (e.notified call) := by
      rw [heq]
      refine ⟨⟨by rintro _ ⟨⟩, rfl⟩, ?_, ?_, ?_⟩
      · rwa [notification_protocol]
      · rw [notification_uid, notification_protocol, hkey]
      · rw [habout, notification_protocol, htype]
    have hsame : ∀ call' ∈ calls, acceptedProtocol call' = none ∧ (e.notified call).Owned call' := by
      rw [heq]
      exact fun call' hmem => hcalls call' (List.mem_cons_of_mem call hmem)
    obtain ⟨⟨bs, hrun⟩, hconn⟩ := ih (e.notified call) hsame
    refine ⟨⟨_, hrun.cons hstep⟩, ?_⟩
    rw [List.foldl_cons, hconn, heq, postPacket_connections]
    simp

/-- The connections with a protocol that has just been made for `q`. -/
def making (c : Connections) (q : IOProtocol) : Connections :=
  { c with created := c.created + 1 }.own c.created .SESSION q.key

/-- A connection is accepted among what is told. -/
theorem welcomed_run (h : e.connections.Sound) (haccepted : calls.filterMap acceptedProtocol = [p])
    (hid : p.id = e.created) (hne : p.key ≠ 0) (hfree : e.Free p.key)
    (hcalls : ∀ call ∈ calls, acceptedProtocol call = none → e.Owned call) :
    (∃ bs, Run Permitted e bs (calls.foldl notified e)) ∧
      (calls.foldl notified e).connections =
        { making e.connections p with notices := e.connections.notices ++ calls.map posted } := by
  induction calls generalizing e with
  | nil => cases haccepted
  | cons call calls ih =>
    cases hcall : acceptedProtocol call with
    | none =>
      rw [List.filterMap_cons_none hcall] at haccepted
      have hone : ∀ call' ∈ [call], acceptedProtocol call' = none ∧ e.Owned call' := by
        intro call' hmem
        obtain rfl := List.mem_singleton.mp hmem
        exact ⟨hcall, hcalls call' List.mem_cons_self hcall⟩
      obtain ⟨⟨bs₁, hrun₁⟩, -⟩ := notified_run e hone
      have heq := (notified_of_not_accepted (e := e) hcall).1
      have hsound : (e.notified call).connections.Sound :=
        hrun₁.invariant (fun σ => σ.connections.Sound)
          (fun _ _ _ h hstep => (step_change h hstep).sound h) h
      have hrest : ∀ call' ∈ calls, acceptedProtocol call' = none → (e.notified call).Owned call' := by
        rw [heq]
        exact fun call' hmem => hcalls call' (List.mem_cons_of_mem call hmem)
      obtain ⟨⟨bs, hrun⟩, hconn⟩ :=
        ih hsound haccepted (by rw [heq]; exact hid) (by rw [heq]; exact hfree) hrest
      refine ⟨⟨_, hrun₁.append hrun⟩, ?_⟩
      rw [List.foldl_cons, hconn, heq, postPacket_connections]
      simp [making, Connections.own]
    | some q =>
      rw [List.filterMap_cons_some hcall] at haccepted
      obtain ⟨rfl, hnone⟩ := List.cons.inj haccepted
      obtain ⟨q', notice⟩ := call
      cases notice with
      | onListen | onUnlisten | onClose | onConnect | onDisConnect => cases hcall
      | onAccept fromProtocol =>
        obtain rfl : q' = q := Option.some.inj hcall
        have hconn₁ := accept_connections (σ := e) q'.key fromProtocol.id
        have hstep : e.Permitted (.accept q'.key fromProtocol.id)
            (e.notified (q', .onAccept fromProtocol)) :=
          ⟨⟨by rintro _ ⟨⟩, rfl⟩, hne, hfree⟩
        have hblank : ∀ p ∈ e.outstanding, p ≠ e.created := by
          rintro p hp rfl
          exact absurd (h.made _ (h.owned _ hp)) (Nat.lt_irrefl _)
        have hrest : ∀ call' ∈ calls, acceptedProtocol call' = none ∧
            (e.notified (q', .onAccept fromProtocol)).Owned call' := by
          intro call' hmem
          have hcall' := List.filterMap_eq_nil_iff.mp hnone call' hmem
          obtain ⟨hheld, hkey, htype⟩ := hcalls call' (List.mem_cons_of_mem _ hmem) hcall'
          have hother : (e.accept q'.key fromProtocol.id).protocol call'.1.id =
              e.protocol call'.1.id := Function.update_of_ne (hblank _ hheld) ..
          refine ⟨hcall', List.mem_cons_of_mem _ hheld, ?_, ?_⟩
          · exact (congrArg Protocol.key hother).trans hkey
          · exact (congrArg Protocol.type hother).trans htype
        obtain ⟨⟨bs, hrun⟩, hconn⟩ :=
          notified_run (e.notified (q', .onAccept fromProtocol)) hrest
        refine ⟨⟨_, hrun.cons hstep⟩, ?_⟩
        rw [List.foldl_cons, hconn, show e.notified (q', .onAccept fromProtocol) =
          e.accept q'.key fromProtocol.id from rfl, hconn₁]
        refine Connections.ext rfl rfl rfl rfl ?_ rfl
        have hposted : posted (q', .onAccept fromProtocol) =
            ⟨.PacketAccept, q'.key, e.created, some fromProtocol.id, true⟩ := by
          rw [← hid]
          rfl
        simp [hposted]

end IOEngine

end ZlNet.Engine
