import ZlNet.Engine.Proof.Identity

/-! What `setupNode` leaves of the identity of a node.  It sets all four fields before it knows whether
the listener is confirmed, and takes back one of them where it is not. -/

namespace ZlNet.Engine.NetEngine

open Network Lib Lib.Bytes

variable {L : Type} {σ τ : NetEngine L} {io : IOEngine L SerializeMessage} {p : ProtocolId}
  {n : IONotify} {code type uid key : UInt32} {port : UInt16} {info : List UInt8}
  {answer : Option IONotify}

/-- The uid of a node's listener, and what its pings and pongs say of it. -/
def identity (σ : NetEngine L) : UInt32 × UInt32 × UInt32 × List UInt8 :=
  (σ.nodeUid, σ.nodeCode, σ.nodeType, σ.nodeInfo)

/-- Where `setupNode` returns 0 the identity is as before. -/
def Atomic (σ τ : NetEngine L) (uid : UInt32) : Prop := uid = 0 → τ.identity = σ.identity

/-- The listener is taken by the network, and confirmed in time. -/
def Confirmed (σ : NetEngine L) (p : ProtocolId) (key : UInt32) (answer : Option IONotify) : Prop :=
  (σ.io.protocol p).key = 0 ∧ key ≠ 0 ∧
    ∃ n, answer = some n ∧ n.type = .PacketListen ∧ n.success = true

section

variable [IntrusiveNode L] {host : Endian}

/-- A notification of which users hear nothing but `onListen`. -/
theorem dispatchIOPacket_quiet {calls : List (ProtocolId × Upcall)}
    (hio : σ.io.dispatchIOPacket (.notify n) = .ok io)
    (hupcalls : io.upcalls = σ.io.upcalls ++ calls)
    (hcalls : ∀ call ∈ calls, ∃ uid success, call.2 = .onListen uid success) :
    σ.dispatchIOPacket host (.notify n) = .ok { σ with io } := by
  have hcalled : σ.called io = calls := by simp [called, hupcalls]
  have hnone : io.dispatched.drop σ.io.dispatched.length = [] := by
    rw [(IOEngine.dispatchNotify_plain hio).dispatched]
    exact List.drop_length
  have hfold (τ : NetEngine L) : calls.foldlM (fun σ call => σ.upcall host call) τ = .ok τ := by
    clear hcalled hupcalls
    induction calls with
    | nil => rfl
    | cons call calls ih =>
      obtain ⟨uid, success, hlisten⟩ := hcalls call List.mem_cons_self
      have hone : τ.upcall host call = .ok τ := by
        simp only [upcall, gone, hlisten]
        rfl
      rw [List.foldlM_cons, hone, ok_bind]
      exact ih fun call hcall => hcalls call (List.mem_cons_of_mem _ hcall)
  simp only [dispatchIOPacket, hio, ok_bind, hcalled, hfold, hnone, List.foldlM_nil]
  rfl

/-- What the network tells of a listener that is known and not available makes it available, or
leaves it as it is. -/
theorem pollOnePacket_listener (hknown : σ.io.protocols n.uid = some n.protocol)
    (hquiet : (σ.io.protocol n.protocol).available = false)
    (habout : n.type.about = some .LISTENER) (hmem : .notify n ∈ σ.io.msgqueue) :
    ∃ io, σ.pollOnePacket host n.protocol (some n) = .ok { σ with io } ∧
      ((io.protocol n.protocol).available = true ↔ n.type = .PacketListen ∧ n.success = true) := by
  let σ' : NetEngine L :=
    { σ with io := { σ.io with msgqueue := σ.io.msgqueue.erase (.notify n) } }
  have hpoll : σ.pollOnePacket host n.protocol (some n) = σ'.dispatchIOPacket host (.notify n) := by
    simp only [pollOnePacket, hmem, and_self, if_true, σ']
  rw [hpoll]
  cases htype : n.type with
  | PacketListen =>
    have hio : σ'.io.dispatchIOPacket (.notify n) = .ok (σ'.io.onIOListen n) := by
      simp only [IOEngine.dispatchIOPacket, htype]
      rfl
    have hlisten : σ'.io.onIOListen n = (if n.success then σ'.io.setAvailable n.protocol
        else σ'.io).upcall n.protocol (.onListen n.uid n.success) :=
      if_neg (not_not.mpr hknown)
    have hupcalls : (σ'.io.onIOListen n).upcalls =
        σ'.io.upcalls ++ [(n.protocol, .onListen n.uid n.success)] := by
      rw [hlisten]
      split
      · rfl
      · rfl
    refine ⟨σ'.io.onIOListen n, dispatchIOPacket_quiet hio hupcalls fun call hcall => ?_, ?_⟩
    · rw [List.mem_singleton.mp hcall]
      exact ⟨n.uid, n.success, rfl⟩
    · rw [hlisten]
      split
      · next hsuccess => simp [IOEngine.upcall, IOEngine.setAvailable, IOEngine.setProtocol, hsuccess]
      · next hsuccess => simp [IOEngine.upcall, σ', hquiet, hsuccess]
  | PacketUnlisten =>
    have hio : σ'.io.dispatchIOPacket (.notify n) = .ok σ'.io := by
      have hsame : σ'.io.onIOUnListen n = σ'.io := by
        simp only [IOEngine.onIOUnListen, IOEngine.getProtocol, σ', hknown, hquiet, Bool.not_false,
          if_true]
      simp only [IOEngine.dispatchIOPacket, htype, hsame]
      rfl
    refine ⟨σ'.io, dispatchIOPacket_quiet hio (List.append_nil _).symm fun _ hcall => ?_, ?_⟩
    · cases hcall
    · simp [σ', hquiet]
  | PacketAccept => simp [htype, EPacketType.about] at habout
  | PacketConnect => simp [htype, EPacketType.about] at habout
  | PacketClose => simp [htype, EPacketType.about] at habout
  | PacketDisconnect => simp [htype, EPacketType.about] at habout

/-- A listener is confirmed if it is available once its notification was polled. -/
theorem confirmListen_polled (hknown : σ.io.protocols key = some p)
    (hquiet : (σ.io.protocol p).available = false)
    (hpoll : σ.pollOnePacket host p answer = .ok { σ with io }) :
    ∃ confirmed io', σ.confirmListen host key answer = .ok (confirmed, { σ with io := io' }) ∧
      (confirmed = true ↔ (io.protocol p).available = true) := by
  simp only [confirmListen, confirm, IOEngine.getProtocol, hknown, hquiet, hpoll, ok_bind,
    Bool.false_eq_true, if_false]
  split
  · next havail => exact ⟨true, io, rfl, by simp [havail]⟩
  · next havail => exact ⟨false, _, rfl, by simpa using havail⟩

/-- A new listener is confirmed exactly where the network tells in time that it listens. -/
theorem confirmListen_answered (hknown : σ.io.protocols key = some p)
    (hquiet : (σ.io.protocol p).available = false)
    (hanswer : ∀ n, answer = some n →
      n.protocol = p ∧ n.uid = key ∧ n.type.about = some .LISTENER) :
    ∃ confirmed io,
      (σ.answered answer).confirmListen host key answer = .ok (confirmed, { σ with io }) ∧
      (confirmed = true ↔ ∃ n, answer = some n ∧ n.type = .PacketListen ∧ n.success = true) := by
  cases answer with
  | none =>
    have hpoll : σ.pollOnePacket host p none = .ok { σ with io := σ.io } := rfl
    obtain ⟨confirmed, io, hconfirm, hiff⟩ := confirmListen_polled hknown hquiet hpoll
    exact ⟨confirmed, io, hconfirm, by simpa [hquiet] using hiff⟩
  | some n =>
    obtain ⟨rfl, rfl, habout⟩ := hanswer n rfl
    let σ' := σ.answered (some n)
    have hknown' : σ'.io.protocols n.uid = some n.protocol := hknown
    have hmem : .notify n ∈ σ'.io.msgqueue := List.mem_append_right _ (List.mem_singleton_self _)
    obtain ⟨io, hpoll, havail⟩ := pollOnePacket_listener hknown' hquiet habout hmem
    obtain ⟨confirmed, io', hconfirm, hiff⟩ := confirmListen_polled hknown' hquiet hpoll
    exact ⟨confirmed, io', hconfirm, by simp [hiff, havail]⟩

/-- `setupNode` returns a uid exactly where the listener is confirmed, and gives the node the new code,
type and info in any case. -/
theorem setupNode_result (h : σ.io.Wired False) (hnone : σ.nodeUid = 0)
    (hcontract : σ.Contract (.setupNode code type port p info key answer)) :
    ∃ uid τ, σ.setupNode host code type port p info key answer = .ok (uid, τ) ∧
      (uid ≠ 0 ↔ σ.Confirmed p key answer) ∧ τ.identity = (uid, code, type, info) := by
  obtain ⟨hmade, hfresh, hanswer⟩ := hcontract
  simp only [setupNode, hnone, ne_eq, not_true_eq_false, if_false]
  rcases IOEngine.open_cases h hmade ⟨hfresh, False.elim⟩ (.inl rfl) (.listen port p) rfl with
    ⟨hzero, -⟩ | hopened
  · rw [if_pos hzero]
    refine ⟨0, _, rfl, iff_of_false (not_not.mpr rfl) ?_, by rw [identity, hzero]⟩
    rintro ⟨hblank, hkey, -⟩
    have hfree : σ.io.protocols key = none := h.sound.free (hfresh.resolve_left hkey)
    simp [IOEngine.opens, hblank, hfree, hkey] at hzero
  have hopened : σ.io.Opened False p .LISTENER key (σ.io.listen port p key) := hopened
  have hblank : (σ.io.protocol p).key = 0 := by
    by_contra hne
    exact hopened.nonzero (hopened.returned.symm.trans (if_pos hne))
  rw [hopened.returned, if_neg hopened.nonzero]
  let listening : NetEngine L := { σ with
    io := σ.io.listen port p key
    nodeUid := key
    nodeCode := code
    nodeType := type
    nodeInfo := info }
  have hknown : listening.io.protocols key = some p := hopened.known
  obtain ⟨confirmed, io, hconfirm, hiff⟩ : ∃ confirmed io,
      (listening.answered answer).confirmListen host key answer =
        .ok (confirmed, { listening with io }) ∧ _ :=
    confirmListen_answered hknown hopened.quiet hanswer
  simp only [listening] at hconfirm
  rw [hconfirm, ok_bind]
  have hcases : σ.Confirmed p key answer ↔ confirmed = true := by
    rw [hiff]
    exact ⟨fun hconfirmed => hconfirmed.2.2, fun hn => ⟨hblank, hopened.nonzero, hn⟩⟩
  rw [hcases]
  cases confirmed with
  | true => exact ⟨key, _, rfl, by simpa using hopened.nonzero, rfl⟩
  | false => exact ⟨0, _, rfl, by simp, rfl⟩

/-- In every run, `setupNode` of a node without a listener returns, and leaves the identity as it was
where it fails, exactly where the listener is confirmed or the code, the type and the info are those
that the node has already. -/
theorem setupNode_atomic_iff {as : List NetAction} (run : Run (Permitted host) init as σ)
    (hnone : σ.nodeUid = 0)
    (hcontract : σ.Contract (.setupNode code type port p info key answer)) :
    ∃ uid τ, σ.setupNode host code type port p info key answer = .ok (uid, τ) ∧
      (Atomic σ τ uid ↔ σ.Confirmed p key answer ∨
        code = σ.nodeCode ∧ type = σ.nodeType ∧ info = σ.nodeInfo) := by
  obtain ⟨uid, τ, hsetup, huid, hidentity⟩ := setupNode_result (wired_run run) hnone hcontract
  refine ⟨uid, τ, hsetup, ?_⟩
  rw [← huid, Atomic, hidentity, identity, hnone]
  constructor
  · intro hatomic
    by_cases hzero : uid = 0
    · simpa [hzero] using hatomic hzero
    · exact .inl hzero
  · rintro (hne | ⟨rfl, rfl, rfl⟩) hzero
    · exact absurd hzero hne
    · rw [hzero]

end

/-- A node with a protocol for its listener. -/
def prepared : NetEngine (List HandlerId) :=
  let _ := IntrusiveNode.list
  init.next .little (.io .create)

theorem prepared_run : @Run _ _ (@Permitted _ .list .little) (@init _ .list) [.io .create] prepared := by
  let _ := IntrusiveNode.list
  exact .single ⟨nofun, rfl, trivial, trivial⟩

theorem prepared_contract {answer : Option IONotify}
    (hanswer : ∀ n, answer = some n → n.protocol = 0 ∧ n.uid = 1 ∧ n.type.about = some .LISTENER) :
    prepared.Contract (.setupNode 7 8 80 0 [1] 1 answer) :=
  ⟨by decide +kernel, .inr (by decide +kernel), hanswer⟩

/-- The network confirms the listener, and the node has a new identity. -/
theorem setupNode_atomic_iff_listening :
    ∃ uid τ, @setupNode _ .list .little prepared 7 8 80 0 [1] 1
        (some ⟨.PacketListen, 1, 0, none, true⟩) = .ok (uid, τ) ∧ Atomic prepared τ uid := by
  let _ := IntrusiveNode.list
  have hcontract : prepared.Contract
      (.setupNode 7 8 80 0 [1] 1 (some ⟨.PacketListen, 1, 0, none, true⟩)) :=
    prepared_contract (by rintro n ⟨⟩; decide)
  obtain ⟨uid, τ, hsetup, hatomic⟩ := setupNode_atomic_iff prepared_run rfl hcontract
  exact ⟨uid, τ, hsetup, hatomic.mpr (.inl ⟨rfl, by decide, _, rfl, rfl, rfl⟩)⟩

/-- What happens after a listener was not confirmed: the node connects to another. -/
def unconfirmedActions : List NetAction :=
  [.io .create, .setupNode 7 8 80 0 [1] 1 none, .io .create, .connectNode 5 6 ⟨1, 80⟩ 1 2,
    .io (.post (.notify ⟨.PacketConnect, 2, 1, none, true⟩)),
    .io (.dispatch (.notify ⟨.PacketConnect, 2, 1, none, true⟩))]

/-- The network does not confirm the listener in time.  `setupNode` returns 0, but the node has the
code, the type and the info that it was to have, and says so in its next ping. -/
theorem setupNode_not_atomic :
    (∃ τ, @setupNode _ .list .little prepared 7 8 80 0 [1] 1 none = .ok (0, τ) ∧
      prepared.identity = (0, 0, 0, []) ∧ τ.identity = (0, 7, 8, [1]) ∧ ¬Atomic prepared τ 0) ∧
    ∃ (σ : NetEngine (List HandlerId)) (msg : SerializeMessage),
      @Run _ _ (@Permitted _ .list .little) (@init _ .list) unconfirmedActions σ ∧
      Handshake.pack .little ⟨7, 8, [1], 5, 6⟩ = .ok msg ∧
      .data 2 ⟨2, Ping, 0, 0, some msg⟩ ∈ σ.io.events := by
  let _ := IntrusiveNode.list
  constructor
  · have hcontract : prepared.Contract (.setupNode 7 8 80 0 [1] 1 none) :=
      prepared_contract fun n h => by cases h
    obtain ⟨uid, τ, hsetup, huid, hidentity⟩ : ∃ uid τ,
        prepared.setupNode .little 7 8 80 0 [1] 1 none = .ok (uid, τ) ∧ _ :=
      setupNode_result (wired_run prepared_run) rfl hcontract
    have hzero : uid = 0 := by
      by_contra hne
      obtain ⟨-, -, n, hn, -⟩ := huid.mp hne
      cases hn
    subst hzero
    refine ⟨τ, hsetup, rfl, hidentity, fun hatomic => ?_⟩
    have hsame := hidentity.symm.trans (hatomic rfl)
    exact absurd hsame (by decide +kernel)
  · have hallowed : Allowed .little (fun _ _ => True) (init : NetEngine (List HandlerId))
        unconfirmedActions := by
      refine ⟨nofun, by decide +kernel, ⟨trivial, trivial⟩, trivial,
        nofun, by decide +kernel,
          ⟨by decide +kernel, .inr (by decide +kernel), by rintro n ⟨⟩⟩, trivial,
        nofun, by decide +kernel, ⟨trivial, trivial⟩, trivial,
        nofun, by decide +kernel, ⟨by decide +kernel, .inr (by decide +kernel)⟩, trivial,
        nofun, by decide +kernel,
          ⟨⟨by decide +kernel, by decide +kernel, by decide +kernel⟩, trivial⟩, trivial,
        by rintro _ ⟨⟩; decide +kernel, by decide +kernel, ⟨trivial, trivial⟩, trivial, trivial⟩
    exact ⟨_, _, permitted_of_allowed hallowed, rfl, by decide +kernel⟩

end ZlNet.Engine.NetEngine
