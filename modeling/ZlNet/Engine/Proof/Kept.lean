import ZlNet.Engine.Proof.Owners

/-! Whether a request that finds no connection is failed.  Its handler waits behind those that were bound
before, and the timer takes them one after another.  It needs an owner for each: the handler of a
`std::function` has none, and with it the timer uses a handler that was deleted. -/

namespace ZlNet.Engine.IOEngine

open Lib

variable {L μ : Type} [IntrusiveNode L] {σ τ : IOEngine L μ} {h : HandlerId} {id : UInt32}
  {r : Request μ} {kept : Set HandlerId}

/-- Until it is failed the handler waits, and the timer uses no handler that was deleted. -/
def Spared (kept : Set HandlerId) (σ : IOEngine L μ) (h : HandlerId) (id : UInt32) : Prop :=
  ∀ as τ, Run (Kept kept) σ as τ → τ.Failed h ∨ τ.Awaits h id ∧
    ∀ now outside, kept ⊆ outside → ∀ access ∈ (τ.timeoutTurn now outside).1, access.Owned

/-- The handler is failed sooner or later, where someone outside of the engine has those of `kept` as
long as they wait: it was failed as soon as the timer, past the times of all that wait, has made as
many turns as there are of them, and nothing keeps the timer from these. -/
structure WillFail (kept : Set HandlerId) (σ : IOEngine L μ) (h : HandlerId) (id : UInt32) :
    Prop where
  spared : σ.Spared kept h id
  failed : ∀ as τ, Run (Kept kept) σ as τ →
    ∀ limit, (∀ h' ∈ σ.live, (σ.handler h').toMs ≤ limit) → σ.live.length ≤ turns limit as →
      τ.Failed h

theorem Kept.permitted {as : List (Action μ)} (run : Run (Kept kept) σ as τ) :
    Run Permitted σ as τ :=
  run.mono fun _ _ _ hstep => hstep.1

/-- What is made of a packet: it is queued for the network and its handler waits for the answer, or
it is not sent, and its handler waits and will be failed. -/
inductive Handed (kept : Set HandlerId) (σ : IOEngine L μ) (r : Request μ) (τ : IOEngine L μ) : Prop
  | queued {id : UInt32} (havail : σ.isAvailable r.packet.uid = true)
      (hevents : τ.events =
        σ.events ++ [.data r.packet.uid { r.packet with callbackId := id }])
      (hnone : r.callbackHander = none → id = r.packet.callbackId)
      (hhandler : ∀ h, r.callbackHander = some h → τ.Awaits h id)
  | failing (havail : σ.isAvailable r.packet.uid = false) (hevents : τ.events = σ.events)
      (hhandler : ∀ h, r.callbackHander = some h → ∃ id, τ.Awaits h id ∧ τ.WillFail kept h id)


/-! ### Those who are kept -/

theorem Awaits.exists_front (hw : σ.Awaits h id) :
    ∃ front, IntrusiveNode.front σ.callbackTimeOutList = some front := by
  rw [IntrusiveNode.front_eq]
  exact ⟨_, List.head?_eq_some_head (List.ne_nil_of_mem hw.live)⟩

/-- The handler that the timer finds at the front is the one that waits, or is in front of it. -/
theorem front_ahead {front : HandlerId}
    (hfront : IntrusiveNode.front σ.callbackTimeOutList = some front) :
    front ∈ ahead σ.live h ++ [h] := by
  by_cases heq : front = h
  · exact List.mem_append_right _ (List.mem_singleton.mpr heq)
  · rw [ahead_front hfront heq]
    exact List.mem_append_left _ List.mem_cons_self

theorem Awaits.spared (hσ : σ.Reached) (hw : σ.Awaits h id) (huid : (σ.handler h).uid = 0)
    (hkept : ∀ h' ∈ ahead σ.live h ++ [h], h' ∈ kept) : σ.Spared kept h id := by
  intro as τ run
  rcases unsent_run hσ hw huid (Kept.permitted run) with ⟨hfailed, -⟩ | ⟨hwait, -, hahead, -⟩
  · exact .inl hfailed
  · refine .inr ⟨hwait, fun now outside houtside => ?_⟩
    have hτ := hσ.run (Kept.permitted run)
    refine (timeoutTurn_owned hτ.callbacks now outside).mpr fun front hover => houtside (hkept _ ?_)
    exact (hahead.append_right [h]).subset (front_ahead hover.1)

theorem Awaits.willFail (hσ : σ.Reached) (hw : σ.Awaits h id) (huid : (σ.handler h).uid = 0)
    (hkept : ∀ h' ∈ ahead σ.live h ++ [h], h' ∈ kept) : σ.WillFail kept h id where
  spared := hw.spared hσ huid hkept
  failed as τ run limit hlimit hturns := by
    rcases unsent_run hσ hw huid (Kept.permitted run) with ⟨hfailed, -⟩ | ⟨hwait, -, -, hdue⟩
    · exact hfailed
    · obtain ⟨-, hcount⟩ := hdue limit ⟨hlimit h hw.live, fun h' hh' =>
        hlimit h' ((List.takeWhile_sublist _).subset hh')⟩
      have hlt := ahead_length_lt hw.live
      omega

/-- The handler at the front has an owner at its time, or the timer would use it when it is deleted. -/
theorem Spared.front (hσ : σ.Reached) (hw : σ.Awaits h id) (hspared : σ.Spared kept h id)
    {front : HandlerId} (hfront : IntrusiveNode.front σ.callbackTimeOutList = some front) :
    front ∈ kept := by
  rcases hspared [] σ .nil with ⟨packet, -, hanswered⟩ | ⟨-, howned⟩
  · exact absurd hw.live hanswered.live
  · exact (timeoutTurn_owned hσ.callbacks _ kept).mp (howned _ kept subset_rfl) front
      ⟨hfront, le_rfl⟩

/-- The timer takes that handler at its time, and nothing changes for one behind it. -/
theorem Spared.turn (hσ : σ.Reached) (hw : σ.Awaits h id) (hspared : σ.Spared kept h id)
    {front : HandlerId} (hfront : IntrusiveNode.front σ.callbackTimeOutList = some front)
    (hne : front ≠ h) : ∃ τ : IOEngine L μ, τ.Reached ∧ τ.Awaits h id ∧ τ.Spared kept h id ∧
      ahead σ.live h = front :: ahead τ.live h := by
  have hkept := hspared.front hσ hw hfront
  have htable := table_of_front hσ.callbacks hfront
  have htimeout : σ.timeoutFront (σ.handler front).toMs = some (σ.complete (σ.handler front).cbId front
      ⟨(σ.handler front).uid, (σ.handler front).cmd, (σ.handler front).cbId, ErrCode_Timeout,
        none⟩) := by
    simp only [timeoutFront, hfront, lt_irrefl, if_false]
  have hstep := timeout_step htimeout
  refine ⟨_, hσ.step ⟨hstep, trivial⟩, hw.complete_ne hσ.callbacks htable hne _,
    fun as υ run => hspared (.timeout (σ.handler front).toMs :: as) υ (.cons ⟨⟨hstep, trivial⟩, ?_⟩ run),
    ?_⟩
  · rintro _ ⟨⟩
    refine ⟨kept, subset_rfl, (timeoutTurn_owned hσ.callbacks _ kept).mpr fun h' hover => ?_⟩
    obtain rfl := Option.some.inj (hfront.symm.trans hover.1)
    exact hkept
  · rw [ahead_front hfront hne, live_complete hσ.callbacks]

/-- The induction is on the handlers in front, of which the timer takes one after another. -/
theorem Spared.all_kept (hσ : σ.Reached) (hw : σ.Awaits h id) (hspared : σ.Spared kept h id) :
    ∀ h' ∈ ahead σ.live h ++ [h], h' ∈ kept := by
  induction hahead : ahead σ.live h generalizing σ with
  | nil =>
    obtain ⟨front, hfront⟩ := hw.exists_front
    have hmem := front_ahead (h := h) hfront
    rw [hahead, List.nil_append, List.mem_singleton] at hmem
    intro h' hh'
    rw [List.mem_singleton.mp hh', ← hmem]
    exact hspared.front hσ hw hfront
  | cons first rest ih =>
    obtain ⟨front, hfront⟩ := hw.exists_front
    have hne : front ≠ h := by
      rintro rfl
      rw [ahead_of_front hfront] at hahead
      cases hahead
    obtain ⟨τ, hτ, hwait, hspared', hcons⟩ := hspared.turn hσ hw hfront hne
    obtain ⟨rfl, hrest⟩ := List.cons.inj (hahead.symm.trans hcons)
    intro h' hh'
    rcases List.mem_cons.mp hh' with rfl | hh'
    · exact hspared.front hσ hw hfront
    · exact ih hτ hwait hspared' hrest.symm h' hh'

/-! ### Sends -/

/-- A send that does not abort is for a connection or for none, and its handler can be bound. -/
theorem bound_of_send (hcmd : r.packet.cmd ≠ 0) (hsend : σ.send r = .ok τ) :
    (σ.isAvailable r.packet.uid = true ∨ r.packet.uid = 0) ∧
      ∀ h, r.callbackHander = some h → σ.CanBind h := by
  cases havail : σ.isAvailable r.packet.uid with
  | true =>
    refine ⟨.inl rfl, fun h hhandler => ?_⟩
    simp only [send, if_pos hcmd, havail, if_true, hhandler] at hsend
    obtain ⟨⟨id, σ₁⟩, hbind, -⟩ := of_bind_ok hsend
    exact (bindRequest_ok_iff ..).mp ⟨id, σ₁, hbind⟩
  | false =>
    simp only [send, if_pos hcmd, havail, Bool.false_eq_true, if_false] at hsend
    obtain ⟨_, huid, hsend⟩ := of_bind_ok hsend
    refine ⟨.inr (of_require huid), fun h hhandler => ?_⟩
    simp only [hhandler] at hsend
    obtain ⟨⟨id, σ₁⟩, hbind, -⟩ := of_bind_ok hsend
    exact (bindRequest_ok_iff ..).mp ⟨id, σ₁, hbind⟩

/-- A send for a connection, whose handler can be bound, is queued. -/
theorem send_available (hσ : σ.Reached) (hcmd : r.packet.cmd ≠ 0)
    (havail : σ.isAvailable r.packet.uid = true)
    (hbindable : ∀ h, r.callbackHander = some h → σ.CanBind h) :
    ∃ τ, σ.send r = .ok τ ∧ σ.Handed kept r τ := by
  cases hhandler : r.callbackHander with
  | none =>
    refine ⟨σ.pushEvent (.data r.packet.uid r.packet), ?_, ?_⟩
    · simp only [send, if_pos hcmd, havail, if_true, hhandler]
      rfl
    · exact .queued havail rfl (fun _ => rfl) (by simp [hhandler])
  | some h =>
    obtain ⟨id, σ₁, hbind⟩ := (bindRequest_ok_iff r.packet r.clock).mpr (hbindable h hhandler)
    refine ⟨σ₁.pushEvent (.data r.packet.uid { r.packet with callbackId := id }), ?_, ?_⟩
    · simp only [send, if_pos hcmd, havail, if_true, hhandler, hbind, ok_bind]
      rfl
    · refine .queued havail (congrArg (· ++ _) (bindRequest_events hbind).1) (by simp [hhandler]) ?_
      intro h' hh'
      obtain rfl := Option.some.inj (hhandler.symm.trans hh')
      exact (bindRequest_awaits hσ.callbacks hbind).congr rfl

/-- A send for none, whose handler can be bound and is kept, will be failed. -/
theorem send_failing (hσ : σ.Reached) (hcmd : r.packet.cmd ≠ 0)
    (havail : σ.isAvailable r.packet.uid = false) (huid : r.packet.uid = 0)
    (hbindable : ∀ h, r.callbackHander = some h →
      σ.CanBind h ∧ ∀ h' ∈ σ.live ++ [h], h' ∈ kept) :
    ∃ τ, σ.send r = .ok τ ∧ σ.Handed kept r τ := by
  cases hhandler : r.callbackHander with
  | none =>
    refine ⟨σ, ?_, .failing havail rfl (by simp [hhandler])⟩
    simp only [send, if_pos hcmd, havail, Bool.false_eq_true, if_false, hhandler,
      require_of_true huid, ok_bind]
    rfl
  | some h =>
    obtain ⟨hbindable, hkept⟩ := hbindable h hhandler
    obtain ⟨id, σ₁, hbind⟩ := (bindRequest_ok_iff r.packet r.clock).mpr hbindable
    have hsend : σ.send r =
        .ok (σ₁.postPacket (.msg ⟨0, 0, id, ErrCode_CallbackBySendError, none⟩)) := by
      simp only [send, if_pos hcmd, havail, Bool.false_eq_true, if_false, hhandler,
        require_of_true huid, ok_bind, hbind]
      rfl
    obtain ⟨id', hτ, hwait, hzero, -, hahead, hevents, -⟩ :=
      send_unavailable hσ hcmd havail hhandler hsend
    refine ⟨_, hsend, .failing havail hevents fun h' hh' => ?_⟩
    obtain rfl := Option.some.inj (hhandler.symm.trans hh')
    exact ⟨id', hwait, hwait.willFail hτ hzero (hahead ▸ hkept)⟩

/-- In every reachable state, a send with a command does not abort and hands the packet to the
network, or fails its handler, if and only if the connection is available, or the packet is for
none, and the handler can be bound; and, where there is no connection, it is kept by someone outside
of the engine, and so is each handler that waits already. -/
theorem send_handed_iff {as : List (Action μ)} (run : Run Permitted init as σ)
    (hcmd : r.packet.cmd ≠ 0) (kept : Set HandlerId) :
    (∃ τ, σ.send r = .ok τ ∧ σ.Handed kept r τ) ↔
      (σ.isAvailable r.packet.uid = true ∨ r.packet.uid = 0) ∧
        ∀ h, r.callbackHander = some h → σ.CanBind h ∧
          (σ.isAvailable r.packet.uid = false → ∀ h' ∈ σ.live ++ [h], h' ∈ kept) := by
  have hσ := reached_run run
  constructor
  · rintro ⟨τ, hsend, hhanded⟩
    obtain ⟨huid, hbindable⟩ := bound_of_send hcmd hsend
    refine ⟨huid, fun h hhandler => ⟨hbindable h hhandler, fun havail => ?_⟩⟩
    obtain ⟨-, hτ, -, -, -, hahead, -⟩ := send_unavailable hσ hcmd havail hhandler hsend
    cases hhanded with
    | queued hqueued => cases havail.symm.trans hqueued
    | failing _ _ hfailing =>
      obtain ⟨id, hwait, hwill⟩ := hfailing h hhandler
      exact hahead ▸ hwill.spared.all_kept hτ hwait
  · rintro ⟨huid, hbindable⟩
    cases havail : σ.isAvailable r.packet.uid with
    | true => exact send_available hσ hcmd havail fun h hhandler => (hbindable h hhandler).1
    | false =>
      refine send_failing hσ hcmd havail (huid.resolve_left (by simp [havail])) fun h hhandler => ?_
      exact ⟨(hbindable h hhandler).1, (hbindable h hhandler).2 havail⟩

/-- A request of an engine that has no connection yet, whose handler is kept. -/
theorem send_handed_iff_local : ∃ τ : IOEngine (List HandlerId) Unit,
    @send _ _ (@init _ _ .list) .list ⟨some 0, ⟨0, 7, 0, 0, none⟩, 100⟩ = .ok τ ∧
    @Handed _ _ .list {0} (@init _ _ .list) ⟨some 0, ⟨0, 7, 0, 0, none⟩, 100⟩ τ := by
  let _ := IntrusiveNode.list
  apply (send_handed_iff (r := ⟨some 0, ⟨0, 7, 0, 0, none⟩, 100⟩) .nil (by decide) {0}).mpr
  refine ⟨.inr rfl, fun h hhandler => ?_⟩
  obtain rfl := Option.some.inj hhandler
  exact ⟨⟨rfl, by rintro _ ⟨⟩⟩, fun _ h' hh' => List.mem_singleton.mp hh'⟩

/-- A request for a session that the other side has closed: the engine aborts, whoever keeps what. -/
theorem send_aborts : ∃ (as : List (Action Unit)) (σ : IOEngine (List HandlerId) Unit)
    (r : Request Unit), @Run _ _ (@Permitted _ _ .list) (@init _ _ .list) as σ ∧
    r.packet.cmd ≠ 0 ∧
    ∀ kept, ¬∃ τ, @send _ _ σ .list r = .ok τ ∧ @Handed _ _ .list kept σ r τ := by
  let _ := IntrusiveNode.list
  obtain ⟨as, run⟩ := accepted_run
  have h1 := (permitted_run run).snoc
    (show Permitted accepted (.post (.notify ⟨.PacketClose, 2, 1, none, false⟩)) _ from
      ⟨⟨by rintro _ ⟨⟩, rfl⟩, by decide, by decide, by decide⟩)
  have h2 := h1.snoc (show Permitted _ (.dispatch (.notify ⟨.PacketClose, 2, 1, none, false⟩)) _
    from ⟨⟨by rintro _ ⟨⟩; rfl, rfl⟩, trivial⟩)
  refine ⟨_, _, ⟨none, ⟨2, 7, 0, 0, none⟩, 100⟩, h2, by decide, ?_⟩
  rintro _ ⟨τ, hsend, -⟩
  cases hsend

end ZlNet.Engine.IOEngine
