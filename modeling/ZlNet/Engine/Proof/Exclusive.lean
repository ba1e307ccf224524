import ZlNet.Engine.Proof.Nodes
import ZlNet.Engine.Proof.Phases

/-! The phases of a handshake in the runs of a node.  No connection is ever in two of them in exactly
those runs in which no handshake is done, and none begins under the uid of a node that was never taken
out of the connecting ones. -/

namespace ZlNet.Engine

open Network Lib Lib.Bytes

namespace NetEngine

variable {L : Type} {σ τ : NetEngine L}

section

variable [IntrusiveNode L] {host : Endian} {packet : IOPacket SerializeMessage}
  {queue : List (Packet SerializeMessage)}

/-! ### Steps -/

theorem msg_attends (h : σ.io.Wired tidy) (hattends : σ.Attends)
    (hqueue : σ.io.msgqueue = .msg packet :: queue)
    (hexec : { σ with io := { σ.io with msgqueue := queue } }.dispatchIOPacket host (.msg packet) =
      .ok τ) : τ.Attends := by
  obtain ⟨io, -, hstays, -, hconn, hτ⟩ := msg_cases h hqueue hexec
  have hhandled : { σ with io }.Attends := hattends.calm h hstays.later hstays.calm fun _ => id
  obtain rfl | ⟨havail, handler, -, hhandle⟩ := hτ
  · exact hhandled
  have havail : io.isAvailable packet.uid = true := by
    rw [IOEngine.isAvailable, IOEngine.getProtocol,
      show io.protocols = σ.io.protocols from congrArg Connections.protocols hconn,
      show io.protocol = σ.io.protocol from congrArg Connections.protocol hconn]
    exact havail
  obtain ⟨rfl, -⟩ | ⟨p, hfound, ⟨-, hhandle⟩ | ⟨-, hhandle⟩⟩ := handle_cases hhandle
  · exact hhandled
  · rcases handlerNodePing_speaks hstays.wired hhandled hfound havail hhandle with
      hspeaks | ⟨_, _, -, hspeaks⟩
    · exact hspeaks.attends hhandled
    · exact hspeaks.attends hhandled
  · rcases handlerNodePong_speaks hstays.wired hfound hhandle with hspeaks | ⟨_, -, hspeaks⟩
    · exact hspeaks.attends hhandled
    · exact hspeaks.attends hhandled

theorem step_attends {a : NetAction} (h : σ.io.Wired False) (hattends : σ.Attends)
    (hstep : σ.Permitted host a τ) : τ.Attends := by
  obtain ⟨hhead, hexec, hcontract⟩ := hstep
  cases a with
  | io a =>
    cases io_step ⟨hhead, hexec, hcontract⟩ with
    | close hclose => exact (close_speaks h hclose).attends hattends
    | notify hqueue hexec' =>
      obtain ⟨_, hspeaks, -⟩ :=
        notify_speaks h (hqueue ▸ .refl _) (hqueue ▸ List.sublist_cons_self ..) hexec'
      exact hspeaks.attends hattends
    | msg hqueue hexec' => exact msg_attends h hattends hqueue hexec'
    | quiet hclose hdispatch hio hτ =>
      subst hτ
      have hstays := io_stays h hio hcontract False.elim hclose hdispatch
      exact hattends.calm h hstays.later hstays.calm fun _ => id
  | onInit =>
    obtain rfl := Except.ok.inj hexec
    exact hattends.calm h (onInit_stays h).later (onInit_stays h).calm fun _ => id
  | setupNode code type port p info key answer =>
    obtain ⟨⟨uid, σ'⟩, hsetup, hτ⟩ := of_bind_ok hexec
    obtain rfl := Except.ok.inj hτ
    obtain ⟨hmade, hfresh, hanswer⟩ := hcontract
    exact (setupNode_speaks h hmade ⟨hfresh, False.elim⟩ hanswer hsetup).attends hattends
  | connectNode code type address p key =>
    obtain rfl := Except.ok.inj hexec
    exact (connectNode_speaks h hcontract.1 ⟨hcontract.2, False.elim⟩).attends hattends
  | confirm uid polled =>
    obtain ⟨⟨confirmed, σ'⟩, hconfirm, hτ⟩ := of_bind_ok hexec
    obtain rfl := Except.ok.inj hτ
    obtain ⟨_, hspeaks, -⟩ := confirm_speaks h hconfirm
    exact hspeaks.attends hattends
  | reconnect code key =>
    obtain rfl := Except.ok.inj hexec
    exact (reconnectNode_speaks h ⟨hcontract, False.elim⟩).attends hattends

/-- The step handles a packet with which a handshake is done, or that a connection was accepted for
the node under a uid with which a node is still connecting. -/
def Overlaps (host : Endian) (σ : NetEngine L) : NetAction → Prop
  | .io (.dispatch (.msg packet)) => σ.Completes host packet
  | .io (.dispatch (.notify n)) =>
    σ.Takes n ∧ σ.connectingNodes (σ.io.protocol n.protocol).key ≠ none
  | .io _ | .onInit | .setupNode _ _ _ _ _ _ _ | .connectNode _ _ _ _ _ | .confirm _ _
  | .reconnect _ _ => False

theorem attends_run {as : List NetAction} (run : Run (Permitted host) init as σ) : σ.Attends := by
  have h : σ.io.Wired False ∧ σ.Attends := by
    refine run.invariant (fun σ => σ.io.Wired False ∧ σ.Attends) (fun σ a τ h hstep => ?_)
      ⟨wired_init, fun _ hwaits => absurd hwaits Bool.false_ne_true⟩
    have hmoves : Moves False False σ τ := step_moves h.1 hstep False.elim False.elim
    exact ⟨hmoves.wired, step_attends h.1 h.2 hstep⟩
  exact h.2

/-- What a node relies on in each step, as long as no handshake is done. -/
structure Staged (σ : NetEngine L) : Prop where
  wired : σ.io.Wired False
  attends : σ.Attends
  peerless : σ.Peerless
  exclusive : σ.Exclusive

theorem Staged.init : (init : NetEngine L).Staged where
  wired := wired_init
  attends _ hwaits := absurd hwaits Bool.false_ne_true
  peerless _ := rfl
  exclusive := ⟨fun _ hpeer => absurd rfl hpeer, fun _ hwaits => absurd hwaits Bool.false_ne_true⟩

theorem Staged.sorts {a : NetAction} (h : σ.Staged) (hstep : σ.Permitted host a τ) :
    Sorts σ (σ.Overlaps host a) τ := by
  have hex := h.exclusive
  obtain ⟨hhead, hexec, hcontract⟩ := hstep
  cases a with
  | io a =>
    cases io_step ⟨hhead, hexec, hcontract⟩ with
    | close hclose => exact (close_eases hclose).sorts hex id
    | notify hqueue hexec' =>
      exact notify_sorts h.wired h.attends h.peerless hex (hqueue ▸ .refl _)
        (hqueue ▸ List.sublist_cons_self ..) hexec'
    | msg hqueue hexec' => exact msg_sorts hex hexec'
    | quiet hclose hdispatch hio hτ =>
      subst hτ
      refine Eases.sorts (.same rfl rfl rfl) hex ?_
      cases a with
      | dispatch packet => exact absurd rfl (hdispatch packet)
      | _ => exact id
  | onInit =>
    obtain rfl := Except.ok.inj hexec
    exact Eases.sorts (.same rfl rfl rfl) hex id
  | setupNode code type port p info key answer =>
    obtain ⟨⟨uid, σ'⟩, hsetup, hτ⟩ := of_bind_ok hexec
    obtain rfl := Except.ok.inj hτ
    obtain ⟨hmade, hfresh, hanswer⟩ := hcontract
    exact (setupNode_eases h.wired hmade ⟨hfresh, False.elim⟩ hanswer hsetup).sorts hex id
  | connectNode code type address p key =>
    obtain rfl := Except.ok.inj hexec
    exact (connectNode_eases h.wired h.attends h.peerless hcontract.1
      ⟨hcontract.2, False.elim⟩).sorts hex id
  | confirm uid polled =>
    obtain ⟨⟨confirmed, σ'⟩, hconfirm, hτ⟩ := of_bind_ok hexec
    obtain rfl := Except.ok.inj hτ
    exact (confirm_eases h.wired hconfirm).sorts hex id
  | reconnect code key =>
    obtain rfl := Except.ok.inj hexec
    exact (reconnectNode_eases h.wired h.attends h.peerless
      ⟨hcontract, False.elim⟩).sorts hex id

theorem Staged.step {a : NetAction} (h : σ.Staged) (hstep : σ.Permitted host a τ)
    (hex : τ.Exclusive) : τ.Staged where
  wired := (step_moves h.wired hstep False.elim False.elim : Moves False False σ τ).wired
  attends := step_attends h.wired h.attends hstep
  peerless uid := by
    have hsorts := h.sorts hstep
    by_contra hpeer
    exact hsorts.peers (hsorts.exclusive.mp hex) uid hpeer (h.peerless uid)
  exclusive := hex

/-! ### Runs -/

/-- In exactly those runs in which no handshake is done, and none begins under a uid with which a node
is still connecting, each connection is always in one phase at most. -/
theorem exclusive_run_iff {as : List NetAction} :
    Run (fun σ a τ => Permitted host σ a τ ∧ τ.Exclusive) (init : NetEngine L) as σ ↔
      Run (fun σ a τ => Permitted host σ a τ ∧ ¬σ.Overlaps host a) init as σ := by
  refine Run.iff_of_inv Staged ?_ ?_ .init
  · exact fun σ a τ h => and_congr_right fun hstep => (h.sorts hstep).exclusive
  · exact fun σ a τ h hstep => h.step hstep.1 hstep.2

/-- As long as no connection is dropped before it is available, no handshake begins under a uid with
which a node is still connecting. -/
theorem waits_of_careful {as : List NetAction}
    (run : Run (fun σ a τ => Permitted host σ a τ ∧ σ.Careful a) (init : NetEngine L) as σ) :
    ∀ uid, σ.accpetedNodes uid = true → σ.connectingNodes uid = none := by
  have hattends : σ.Attends := attends_run (run.mono fun _ _ _ hstep => hstep.1)
  intro uid hwaits
  by_contra hconnecting
  obtain ⟨p, hfound, hsession, -⟩ := hattends uid hwaits
  obtain ⟨q, hfound', hconnector⟩ := (tracked_of_careful run).2.connecting uid hconnecting
  obtain rfl := Option.some.inj (hfound.symm.trans hfound')
  exact absurd (hsession.symm.trans hconnector) nofun

end

/-! ### Handshakes of concrete runs -/

/-- The ping of the node 8 to the node 7, on the connection 5. -/
def ping7 : IOPacket SerializeMessage :=
  ⟨5, Ping, 0, 0, some ⟨0, [0, 0, 0, 8, 0, 0, 0, 2, 0, 0, 0, 0, 0, 0, 0, 7, 0, 0, 0, 1]⟩⟩

/-- The node 7 accepts a connection, and has a ping. -/
def pingedActions : List NetAction :=
  [.onInit, .io .create, .setupNode 7 1 80 0 [] 1 (some ⟨.PacketListen, 1, 0, none, true⟩),
    .io (.accept 5 0), .io (.dispatch (.notify ⟨.PacketAccept, 5, 1, some 0, true⟩)),
    .io (.post (.msg ping7)), .io (.dispatch (.msg ping7))]

def pinged7 : NetEngine (List HandlerId) :=
  let _ := IntrusiveNode.list
  pingedActions.foldl (next .little) init

theorem pinged7_run : Run (@Permitted _ .list .little) (@init _ .list) pingedActions pinged7 := by
  let _ := IntrusiveNode.list
  have hallowed : Allowed .little (fun _ _ => True) (init : NetEngine (List HandlerId))
      pingedActions :=
    ⟨nofun, by decide +kernel, trivial, trivial,
      nofun, by decide +kernel, ⟨trivial, trivial⟩, trivial,
      nofun, by decide +kernel,
        ⟨by decide +kernel, .inr (by decide +kernel), by rintro n ⟨⟩; decide⟩, trivial,
      nofun, by decide +kernel,
        ⟨⟨by decide, .inr (by decide +kernel)⟩, trivial⟩, trivial,
      by rintro _ ⟨⟩; decide +kernel, by decide +kernel, ⟨trivial, trivial⟩, trivial,
      nofun, by decide +kernel,
        ⟨trivial, 1, by decide +kernel, by decide +kernel, by decide +kernel⟩, trivial,
      by rintro _ ⟨⟩; decide +kernel, by decide +kernel, ⟨trivial, trivial⟩, trivial, trivial⟩
  exact permitted_of_allowed hallowed

/-- The node 7 connects with the node 8, and does not wait long enough. -/
def droppedActions : List NetAction :=
  [.io .create, .setupNode 7 1 80 0 [] 1 (some ⟨.PacketListen, 1, 0, none, true⟩), .io .create,
    .connectNode 8 2 ⟨0, 81⟩ 1 5, .confirm 5 none]

def dropped7 : NetEngine (List HandlerId) :=
  let _ := IntrusiveNode.list
  droppedActions.foldl (next .little) init

theorem dropped7_run : Run (@Permitted _ .list .little) (@init _ .list) droppedActions dropped7 := by
  let _ := IntrusiveNode.list
  have hallowed : Allowed .little (fun _ _ => True) (init : NetEngine (List HandlerId))
      droppedActions :=
    ⟨nofun, by decide +kernel, ⟨trivial, trivial⟩, trivial,
      nofun, by decide +kernel,
        ⟨by decide +kernel, .inr (by decide +kernel), by rintro n ⟨⟩; decide⟩, trivial,
      nofun, by decide +kernel, ⟨trivial, trivial⟩, trivial,
      nofun, by decide +kernel,
        ⟨by decide +kernel, .inr (by decide +kernel)⟩, trivial,
      nofun, by decide +kernel, trivial, trivial, trivial⟩
  exact permitted_of_allowed hallowed

/-- The pool gives the key of the connection that was dropped to one that is accepted. -/
def reusedActions : List NetAction :=
  [.io (.recycle 1), .io (.accept 5 0), .io (.dispatch (.notify ⟨.PacketAccept, 5, 2, some 0, true⟩))]

def reused7 : NetEngine (List HandlerId) :=
  let _ := IntrusiveNode.list
  reusedActions.foldl (next .little) dropped7

theorem reused7_run : Run (@Permitted _ .list .little) dropped7 reusedActions reused7 := by
  let _ := IntrusiveNode.list
  have hallowed : Allowed .little (fun _ _ => True) dropped7 reusedActions :=
    ⟨nofun, by decide +kernel,
        ⟨⟨not_found dropped7_run rfl (by decide +kernel), by decide +kernel⟩, trivial⟩, trivial,
      nofun, by decide +kernel,
        ⟨⟨by decide, .inr (by decide +kernel)⟩, trivial⟩, trivial,
      by rintro _ ⟨⟩; decide +kernel, by decide +kernel, ⟨trivial, trivial⟩, trivial, trivial⟩
  exact permitted_of_allowed hallowed

/-- A pong leaves its connection connecting, a ping leaves it waiting for a ping, and a connection that
was dropped goes on connecting when its uid is used again. -/
theorem phases_overlap :
    (∃ as, Run (@Permitted _ .list .little) (@init _ .list) as answered7) ∧
    (answered7.peersByUid 5 ≠ none ∧ answered7.connectingNodes 5 ≠ none) ∧
    Run (@Permitted _ .list .little) (@init _ .list) pingedActions pinged7 ∧
    (pinged7.peersByUid 5 ≠ none ∧ pinged7.accpetedNodes 5 = true) ∧
    Run (@Permitted _ .list .little) (@init _ .list) (droppedActions ++ reusedActions) reused7 ∧
    (reused7.accpetedNodes 5 = true ∧ reused7.connectingNodes 5 ≠ none) ∧
    ¬answered7.Exclusive ∧ ¬pinged7.Exclusive ∧ ¬reused7.Exclusive := by
  have hanswered : answered7.peersByUid 5 ≠ none ∧ answered7.connectingNodes 5 ≠ none := by
    decide +kernel
  have hpinged : pinged7.peersByUid 5 ≠ none ∧ pinged7.accpetedNodes 5 = true := by decide +kernel
  have hreused : reused7.accpetedNodes 5 = true ∧ reused7.connectingNodes 5 ≠ none := by
    decide +kernel
  refine ⟨⟨_, answered7_run⟩, hanswered, pinged7_run, hpinged, dropped7_run.append reused7_run, hreused,
    fun hex => ?_, fun hex => ?_, fun hex => ?_⟩
  · exact hanswered.2 (hex.peer 5 hanswered.1).2
  · exact Bool.false_ne_true ((hex.peer 5 hpinged.1).1.symm.trans hpinged.2)
  · exact hreused.2 (hex.waits 5 hreused.1)

end NetEngine

end ZlNet.Engine
