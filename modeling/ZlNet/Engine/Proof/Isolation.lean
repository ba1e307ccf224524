import ZlNet.Engine.Frame
import ZlNet.Engine.Proof.SendError

/-! Answers from one connection to the requests of another.  The ids of callbacks are the same for
all connections, so a peer can name any of them. -/

namespace ZlNet.Engine

open Lib

/-- The engine, and the connection that the request of each handler was sent to, if it was. -/
structure Sending (L μ : Type) where
  engine : IOEngine L μ
  sentTo : HandlerId → Option ProtocolId := fun _ => none

namespace Sending

variable {L μ : Type} [IntrusiveNode L] {s t : Sending L μ} {σ τ : IOEngine L μ} {a : Action μ}
  {h : HandlerId} {p : ProtocolId} {u : UInt32}

def init : Sending L μ := { engine := .init }

omit [IntrusiveNode L] in
/-- Notes where a request goes. -/
def noteSent (σ : IOEngine L μ) (sentTo : HandlerId → Option ProtocolId) (a : Action μ) :
    HandlerId → Option ProtocolId :=
  match a with
  | .send r =>
    match r.callbackHander with
    | some h => Function.update sentTo h
        (if σ.isAvailable r.packet.uid then σ.getProtocol r.packet.uid else none)
    | none => sentTo
  | _ => sentTo

/-- A step of the engine. -/
def Step (s : Sending L μ) (a : Action μ) (t : Sending L μ) : Prop :=
  s.engine.Permitted a t.engine ∧ t.sentTo = noteSent s.engine s.sentTo a

/-- A handler has the uid that its connection has or had. -/
structure Inv (s : Sending L μ) : Prop where
  reached : s.engine.Reached
  sent : ∀ h p, s.sentTo h = some p → (s.engine.handler h).cbId ≠ 0 ∧
    (s.engine.protocol p).key ≠ 0 ∧ (s.engine.handler h).uid = (s.engine.protocol p).key

/-- A handler that is given to a send is bound to what is sent. -/
theorem send_bound (hc : σ.callbacks.Inv) {r : Request μ} (hhandler : r.callbackHander = some h)
    (hsend : σ.send r = .ok τ) : ∃ id, τ.Awaits h id ∧ (τ.handler h).uid = r.packet.uid := by
  have hbound {id : UInt32} {σ₁ : IOEngine L μ}
      (hbind : σ.bindRequest h r.packet r.clock = .ok (id, σ₁))
      (hτ : τ.waiters = σ₁.waiters) : ∃ id, τ.Awaits h id ∧ (τ.handler h).uid = r.packet.uid := by
    obtain ⟨-, huid, -⟩ := IOEngine.bindRequest_handler hbind
    refine ⟨id, (IOEngine.bindRequest_awaits hc hbind).congr hτ, ?_⟩
    rw [IOEngine.handler_congr hτ]
    exact huid
  simp only [IOEngine.send, hhandler] at hsend
  split at hsend
  · split at hsend
    · obtain ⟨⟨id, σ₁⟩, hbind, hsend⟩ := of_bind_ok hsend
      obtain rfl := Except.ok.inj hsend
      exact hbound hbind rfl
    · obtain ⟨_, -, hsend⟩ := of_bind_ok hsend
      obtain ⟨⟨id, σ₁⟩, hbind, hsend⟩ := of_bind_ok hsend
      obtain rfl := Except.ok.inj hsend
      exact hbound hbind rfl
  · split at hsend
    · obtain ⟨_, hnone, -⟩ := of_bind_ok hsend
      exact absurd (of_require hnone) (by simp)
    · cases hsend

/-- Nothing changes a handler that was bound. -/
theorem handler_step (hbound : (σ.handler h).cbId ≠ 0)
    (hexec : σ.exec a = .ok τ) : τ.handler h = σ.handler h := by
  cases IOEngine.exec_progress hexec with
  | same hsame => exact IOEngine.handler_congr hsame
  | bound _ _ hbind hτ =>
    obtain ⟨hunbound, -, -, hothers, -⟩ := IOEngine.bindRequest_handler hbind
    rw [IOEngine.handler_congr hτ]
    apply hothers
    rintro rfl
    exact hbound hunbound
  | replied _ _ _ _ hτ => exact (IOEngine.handler_congr hτ).trans rfl
  | timedOut _ _ _ hτ => exact (IOEngine.handler_congr hτ).trans rfl

theorem Inv.kept (hs : s.Inv) (hsent : s.sentTo h = some p) (hstep : s.engine.Permitted a τ) :
    (τ.handler h).cbId ≠ 0 ∧ (τ.protocol p).key ≠ 0 ∧ (τ.handler h).uid = (τ.protocol p).key := by
  obtain ⟨hbound, hkey, huid⟩ := hs.sent h p hsent
  have hmade := hs.reached.connections.made p hkey
  have hkeys := (IOEngine.step_change hs.reached.connections hstep).keys hkey hmade
  rw [handler_step hbound hstep.1.2,
    show (τ.protocol p).key = (s.engine.protocol p).key from hkeys.1]
  exact ⟨hbound, hkey, huid⟩

theorem Inv.step (hs : s.Inv) (hstep : Step s a t) : t.Inv := by
  obtain ⟨hpermitted, hsentTo⟩ := hstep
  have hreached := hs.reached.step hpermitted
  refine ⟨hreached, fun h p hsent => ?_⟩
  rw [hsentTo] at hsent
  cases a with
  | send r =>
    cases hhandler : r.callbackHander with
    | none =>
      simp only [noteSent, hhandler] at hsent
      exact hs.kept hsent hpermitted
    | some h' =>
      simp only [noteSent, hhandler] at hsent
      by_cases heq : h = h'
      · subst heq
        rw [Function.update_self] at hsent
        split at hsent
        · have hentry := hs.reached.connections.entry _ _ hsent
          have hkey : (s.engine.protocol p).key = r.packet.uid := hentry.2
          have hne : (s.engine.protocol p).key ≠ 0 := hs.reached.connections.owned p hentry.1
          have hmade := hs.reached.connections.made p hne
          have hkeys := (IOEngine.step_change hs.reached.connections hpermitted).keys hne hmade
          have hsame : (t.engine.protocol p).key = (s.engine.protocol p).key := hkeys.1
          obtain ⟨id, hwait, huid⟩ := send_bound hs.reached.callbacks hhandler hpermitted.1.2
          rw [hsame]
          exact ⟨hwait.ne_zero hreached.callbacks, hne, huid.trans hkey.symm⟩
        · cases hsent
      · rw [Function.update_of_ne heq] at hsent
        exact hs.kept hsent hpermitted
  | _ => exact hs.kept hsent hpermitted

theorem inv_run {as : List (Action μ)} (run : Run Step init as s) : s.Inv :=
  run.invariant Inv (fun _ _ _ hs hstep => hs.step hstep)
    ⟨⟨IOEngine.inv_init, IOEngine.sound_init⟩, nofun⟩

/-- The engine handles a packet of the connection `p` without a fault, no handler that waits for the
answer of another connection is called or removed, and if the packet names such a handler, then the
callbacks are left alone. -/
def Isolated (s : Sending L μ) (p : ProtocolId) (packet : IOPacket μ) : Prop :=
  ∃ τ, s.engine.onIOPacket packet = .ok τ ∧
    (∀ h id, s.engine.Awaits h id → s.sentTo h ≠ some p → τ.Awaits h id) ∧
    (∀ h, s.engine.callbackHandlers packet.callbackId = some h → s.sentTo h ≠ some p →
      τ.waiters = s.engine.waiters)

theorem awaits_of_found (hs : s.Inv) {id : UInt32} (hfound : s.engine.callbackHandlers id = some h) :
    s.engine.Awaits h id := by
  obtain ⟨hlive, hid⟩ := (hs.reached.callbacks.table id h).mp hfound
  refine ⟨hfound, hlive, ?_⟩
  rw [IOEngine.answers, List.map_eq_nil_iff, List.filter_eq_nil_iff]
  intro call hcall heq
  have hcalled : h ∈ s.engine.callbacks.called := List.mem_map.mpr ⟨call, hcall, by simpa using heq⟩
  exact (List.nodup_append'.mp hs.reached.callbacks.valid).2.2 hlive hcalled

theorem isolated_iff (hs : s.Inv) {packet : IOPacket μ} (hcmd : packet.cmd = 0)
    (hfound : s.engine.getProtocol packet.uid = some p)
    (havail : (s.engine.protocol p).available = true) :
    s.Isolated p packet ↔
      ∀ h, s.engine.callbackHandlers packet.callbackId = some h → s.sentTo h = some p := by
  have havail' : s.engine.isAvailable packet.uid = true := by
    simp [IOEngine.isAvailable, hfound, havail]
  have hzero : ∀ h, s.engine.callbackHandlers 0 ≠ some h := by
    intro h hh
    exact (awaits_of_found hs hh).ne_zero hs.reached.callbacks
      ((awaits_of_found hs hh).bound hs.reached.callbacks)
  have hsame (hnone : ∀ h, s.engine.callbackHandlers packet.callbackId ≠ some h) :
      s.engine.onIOPacket packet = .ok s.engine := by
    simp only [IOEngine.onIOPacket, havail', if_true, hcmd, ne_eq, not_true_eq_false, if_false,
      IOEngine.dispactchCallback, Option.eq_none_iff_forall_ne_some.mpr hnone]
    split <;> rfl
  constructor
  · rintro ⟨τ, hpacket, hothers, -⟩ h hh
    by_contra hother
    have hwait := awaits_of_found hs hh
    have hne : packet.callbackId ≠ 0 := by
      intro hcb
      exact hzero h (hcb ▸ hh)
    have hkept := hothers h _ hwait hother
    simp only [IOEngine.onIOPacket, havail', if_true, hcmd, ne_eq, not_true_eq_false, if_false,
      hne, not_false_eq_true, IOEngine.dispactchCallback, hh] at hpacket
    obtain ⟨_, -, hpacket⟩ := of_bind_ok hpacket
    obtain rfl := Except.ok.inj hpacket
    exact (hwait.complete hs.reached.callbacks packet).live hkept.live
  · intro hown
    cases hnamed : s.engine.callbackHandlers packet.callbackId with
    | none =>
      refine ⟨s.engine, hsame (by simp [hnamed]), fun _ _ hwait _ => hwait, ?_⟩
      simp
    | some h =>
      have hsent := hown h hnamed
      obtain ⟨-, -, huid⟩ := hs.sent h p hsent
      have hkey : (s.engine.protocol p).key = packet.uid :=
        (hs.reached.connections.entry _ _ hfound).2
      have hne : packet.callbackId ≠ 0 := by
        intro hcb
        exact hzero h (hcb ▸ hnamed)
      have hpacket : s.engine.onIOPacket packet =
          .ok (s.engine.complete packet.callbackId h packet) := by
        simp only [IOEngine.onIOPacket, havail', if_true, hcmd, ne_eq, not_true_eq_false, if_false,
          hne, not_false_eq_true, IOEngine.dispactchCallback, hnamed,
          require_of_true (huid.trans hkey), ok_bind]
        rfl
      refine ⟨_, hpacket, fun h' id hwait hother => ?_, fun h' hh' hother => ?_⟩
      · apply hwait.complete_ne hs.reached.callbacks hnamed
        rintro rfl
        exact hother hsent
      · exact absurd (hown h' hh') hother

omit [IntrusiveNode L] in
theorem callback_frame {frame : List UInt8} {packet : IOPacket SerializeMessage}
    (htype : frameType frame = HeaderTypeCallback) (hframe : frameContent u frame = .packet packet) :
    packet.uid = u ∧ packet.cmd = 0 := by
  have hne : HeaderTypeCallback ≠ HeaderTypeCall := by decide
  simp only [frameContent, htype, hne, if_false, if_true, Dispatch.packet.injEq] at hframe
  subst hframe
  exact ⟨rfl, rfl⟩

/-- In every reachable state, a callback frame of an available connection leaves the callbacks of
other connections alone, and the engine handles it, if and only if it names no handler or one whose
request went to that connection. -/
theorem callback_isolated_iff {as : List (Action SerializeMessage)}
    {s : Sending L SerializeMessage} (run : Run Step init as s) {frame : List UInt8}
    {packet : IOPacket SerializeMessage} (htype : frameType frame = HeaderTypeCallback)
    (hframe : frameContent u frame = .packet packet) (hfound : s.engine.getProtocol u = some p)
    (havail : (s.engine.protocol p).available = true) :
    s.Isolated p packet ↔
      ∀ h, s.engine.callbackHandlers packet.callbackId = some h → s.sentTo h = some p := by
  obtain ⟨rfl, hcmd⟩ := callback_frame htype hframe
  exact isolated_iff (inv_run run) hcmd hfound havail

/-! ### Two sessions of a concrete run -/

/-- A listener with the key 1 and its sessions 2 and 3. -/
def listening : IOEngine (List HandlerId) SerializeMessage :=
  let _ := IntrusiveNode.list
  let accepting (key : UInt32) (p : ProtocolId) : Packet SerializeMessage :=
    .notify ⟨.PacketAccept, key, p, some 0, true⟩
  [.create, .listen 80 0 1, .post (.notify ⟨.PacketListen, 1, 0, none, true⟩),
    .dispatch (.notify ⟨.PacketListen, 1, 0, none, true⟩), .accept 2 0, .dispatch (accepting 2 1),
    .accept 3 0, .dispatch (accepting 3 2)].foldl IOEngine.next .init

/-- The first session was sent a request. -/
def twoSessions : Sending (List HandlerId) SerializeMessage :=
  let _ := IntrusiveNode.list
  ⟨listening.next (.send ⟨some 0, ⟨2, 7, 0, 0, none⟩, 100⟩),
    Function.update (fun _ => none) 0 (some 1)⟩

theorem twoSessions_run : ∃ as, @Run _ _ (@Step _ _ .list) (@init _ _ .list) as twoSessions := by
  let _ := IntrusiveNode.list
  have snoc {as : List (Action SerializeMessage)}
      {σ : IOEngine (List HandlerId) SerializeMessage} (run : Run Step init as ⟨σ, fun _ => none⟩)
      (a : Action SerializeMessage) (τ : IOEngine (List HandlerId) SerializeMessage)
      (hpermitted : σ.Permitted a τ) (hsent : ∀ r, a ≠ .send r) :
      Run Step init (as ++ [a]) ⟨τ, fun _ => none⟩ := by
    refine run.snoc ⟨hpermitted, ?_⟩
    cases a with
    | send r => exact absurd rfl (hsent r)
    | _ => rfl
  have h1 := snoc .nil .create _ ⟨⟨by rintro _ ⟨⟩, rfl⟩, trivial⟩ nofun
  have h2 := snoc h1 (.listen 80 0 1) _ ⟨⟨by rintro _ ⟨⟩, rfl⟩, by decide, .inr (by decide)⟩ nofun
  have h3 := snoc h2 (.post (.notify ⟨.PacketListen, 1, 0, none, true⟩)) _
    ⟨⟨by rintro _ ⟨⟩, rfl⟩, by decide, by decide, by decide⟩ nofun
  have h4 := snoc h3 (.dispatch (.notify ⟨.PacketListen, 1, 0, none, true⟩)) _
    ⟨⟨by rintro _ ⟨⟩; rfl, rfl⟩, trivial⟩ nofun
  have h5 := snoc h4 (.accept 2 0) _ ⟨⟨by rintro _ ⟨⟩, rfl⟩, by decide, .inr (by decide)⟩ nofun
  have h6 := snoc h5 (.dispatch (.notify ⟨.PacketAccept, 2, 1, some 0, true⟩)) _
    ⟨⟨by rintro _ ⟨⟩; rfl, rfl⟩, trivial⟩ nofun
  have h7 := snoc h6 (.accept 3 0) _ ⟨⟨by rintro _ ⟨⟩, rfl⟩, by decide, .inr (by decide)⟩ nofun
  have h8 := snoc h7 (.dispatch (.notify ⟨.PacketAccept, 3, 2, some 0, true⟩)) listening
    ⟨⟨by rintro _ ⟨⟩; rfl, rfl⟩, trivial⟩ nofun
  have h9 : Step ⟨listening, fun _ => none⟩ (.send ⟨some 0, ⟨2, 7, 0, 0, none⟩, 100⟩) twoSessions :=
    ⟨⟨⟨by rintro _ ⟨⟩, rfl⟩, trivial⟩, rfl⟩
  exact ⟨_, h8.snoc h9⟩

/-- A callback frame for the id 1. -/
def answer : List UInt8 := [0x82, 0, 0, 0, 13, 0, 0, 0, 1, 0, 0, 0, 0]

/-- The first session answers its request. -/
theorem callback_isolated_own : @Isolated _ _ .list twoSessions 1 ⟨2, 0, 1, 0, none⟩ := by
  let _ := IntrusiveNode.list
  obtain ⟨as, run⟩ := twoSessions_run
  refine (callback_isolated_iff (u := 2) run (show frameType answer = HeaderTypeCallback from rfl)
    rfl rfl rfl).mpr ?_
  intro h hh
  obtain rfl : 0 = h := Option.some.inj hh
  rfl

/-- The second session answers the request of the first. -/
theorem callback_crossed : ∃ as, @Run _ _ (@Step _ _ .list) (@init _ _ .list) as twoSessions ∧
    frameContent 3 answer = .packet ⟨3, 0, 1, 0, none⟩ ∧
    twoSessions.engine.getProtocol 3 = some 2 ∧ (twoSessions.engine.protocol 2).available = true ∧
    ¬@Isolated _ _ .list twoSessions 2 ⟨3, 0, 1, 0, none⟩ := by
  let _ := IntrusiveNode.list
  obtain ⟨as, run⟩ := twoSessions_run
  refine ⟨as, run, rfl, rfl, rfl, ?_⟩
  rintro ⟨τ, hpacket, -⟩
  cases hpacket

end Sending

end ZlNet.Engine
