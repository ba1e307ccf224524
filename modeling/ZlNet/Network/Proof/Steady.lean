import ZlNet.Network.Proof.Accounts
import ZlNet.Network.Proof.Told

/-! What the network thread leaves to others.  Events are taken from the queue where they are handled
and nowhere else, keys are never given back, and the only protocol that a step makes is that of a
connection that a listener accepts, with the key and the number that it was answered. -/

namespace ZlNet.Network

open Lib Lib.Word IOObject

/-- The protocol that is told that it was accepted. -/
def acceptedProtocol (call : IOProtocol × Notice) : Option IOProtocol :=
  match call.2 with
  | .onAccept _ => some call.1
  | .onListen _ | .onUnlisten | .onClose | .onConnect _ | .onDisConnect => none

/-- The protocol of a connection that is accepted. -/
def Answers.session (ans : Answers) (id : Nat) : IOProtocol := ⟨id, .TCP, .SESSION, ans.key, 0⟩

namespace CNetwork

/-- From `σ` to `τ` the queue stays, keys are only taken, and `accepted` are told so. -/
structure Steady (accepted : List IOProtocol) (σ τ : CNetwork) : Prop where
  queue : τ.eventQueue = σ.eventQueue
  outstanding : ∀ key ∈ σ.outstanding, key ∈ τ.outstanding
  taken : ∀ p ∈ accepted, p.key ∈ τ.outstanding
  notices : ∃ new, τ.notices = σ.notices ++ new ∧ new.filterMap acceptedProtocol = accepted

/-- Whatever `x` returns, nothing is accepted. -/
def Stays (σ : CNetwork) (x : Except Fault CNetwork) : Prop :=
  Outcome (fun _ => True) (Steady [] σ) x

section

variable {σ τ υ : CNetwork} {id : ObjectId} {o : IOObject} {p : IOProtocol}
  {accepted accepted' : List IOProtocol} {x : Except Fault CNetwork} {ans : Answers}

theorem Steady.refl (σ : CNetwork) : Steady [] σ σ where
  queue := rfl
  outstanding _ h := h
  taken _ h := absurd h List.not_mem_nil
  notices := ⟨[], (List.append_nil _).symm, rfl⟩

theorem Steady.trans (h : Steady accepted σ τ) (h' : Steady accepted' τ υ) :
    Steady (accepted ++ accepted') σ υ where
  queue := h'.queue.trans h.queue
  outstanding key hkey := h'.outstanding key (h.outstanding key hkey)
  taken p hp := by
    rcases List.mem_append.mp hp with hp | hp
    · exact h'.outstanding p.key (h.taken p hp)
    · exact h'.taken p hp
  notices := by
    obtain ⟨new, hnew, haccepted⟩ := h.notices
    obtain ⟨new', hnew', haccepted'⟩ := h'.notices
    refine ⟨new ++ new', by rw [hnew', hnew, List.append_assoc], ?_⟩
    rw [List.filterMap_append, haccepted, haccepted']

/-- What nothing is accepted after. -/
theorem Steady.stays (h : Steady [] σ τ) (hx : τ.Stays x) : σ.Stays x := hx.mono fun _ => h.trans

theorem stays_self : σ.Stays (.ok σ) := Steady.refl σ

theorem Stays.bind {f : CNetwork → Except Fault CNetwork} (h : σ.Stays x)
    (hf : ∀ τ, Steady [] σ τ → τ.Stays (f τ)) : σ.Stays (x >>= f) :=
  Outcome.bind h fun τ hτ => hτ.stays (hf τ hτ)

/-- A computation that goes on after a part that leaves the state alone. -/
theorem stays_bind {α : Type} {y : Except Fault α} {f : α → Except Fault CNetwork}
    (h : ∀ a, y = .ok a → σ.Stays (f a)) : σ.Stays (y >>= f) :=
  Outcome.bind_any h

/-- Objects, their table and their pool are what steps change. -/
theorem steady_of_same (hqueue : τ.eventQueue = σ.eventQueue)
    (hout : τ.outstanding = σ.outstanding) (hnotices : τ.notices = σ.notices) : Steady [] σ τ where
  queue := hqueue
  outstanding _ h := hout ▸ h
  taken _ h := absurd h List.not_mem_nil
  notices := ⟨[], hnotices.trans (List.append_nil _).symm, rfl⟩

theorem steady_put (id : ObjectId) (o : IOObject) : Steady [] σ (σ.put id o) :=
  steady_of_same rfl rfl rfl

theorem steady_create {type : EIOOBJECT_TYPE} {endPoint : CEndPoint} {reused : Option Nat} :
    Steady [] σ (σ.create type p endPoint reused) :=
  steady_of_same rfl rfl rfl

theorem steady_notify {notice : Notice} (h : acceptedProtocol (p, notice) = none) :
    Steady [] σ (σ.notify p notice) where
  queue := rfl
  outstanding _ h := h
  taken _ h := absurd h List.not_mem_nil
  notices := ⟨[(p, notice)], rfl, by simp [h]⟩

/-- A protocol that has its key is told that it was accepted. -/
theorem Steady.welcome (h : Steady [] σ τ) (htaken : p.key ∈ τ.outstanding) (q : IOProtocol) :
    Steady [p] σ (τ.notify p (.onAccept q)) where
  queue := h.queue
  outstanding := h.outstanding
  taken p' hp' := List.mem_singleton.mp hp' ▸ htaken
  notices := by
    obtain ⟨new, hnew, hnone⟩ := h.notices
    refine ⟨new ++ [(p, .onAccept q)], by rw [notify, hnew, List.append_assoc], ?_⟩
    rw [List.filterMap_append, hnone]
    rfl

theorem notifyProtocol_stays {notice : Notice} (h : ∀ p, acceptedProtocol (p, notice) = none) :
    σ.Stays (σ.notifyProtocol o notice) :=
  stays_bind fun p _ => steady_notify (h p)

theorem startDisconnecting_stays : σ.Stays (σ.startDisconnecting id) := by
  apply stays_bind
  intro o _
  dsimp only
  split
  · exact steady_put id _
  · exact stays_bind fun _ _ => steady_put id _

end

variable [KeyPool] {σ τ : CNetwork} {id : ObjectId} {o : IOObject} {p : IOProtocol} {key : UInt32}
  {ans : Answers}

/-! ### Closing -/

theorem removeObject_stays (key : UInt32) : σ.Stays (σ.removeObject key) := by
  simp only [removeObject]
  split
  · exact stays_bind fun _ _ => stays_bind fun _ _ => steady_of_same rfl rfl rfl
  · trivial

theorem removeTcpCon_stays : σ.Stays (σ.removeTcpCon id) := by
  apply stays_bind
  intro o _
  exact (steady_put id _).stays (removeObject_stays o.key)

theorem tcpCloseListen_stays : σ.Stays (σ.tcpCloseListen id) := by
  apply stays_bind
  intro o _
  apply Stays.bind
  · exact notifyProtocol_stays fun _ => rfl
  · intro τ _
    apply stays_bind
    intro o' _
    exact (steady_put id _).stays (removeObject_stays o'.key)

/-- What both ways to close a connection do after telling its protocol. -/
theorem close_tail_stays (force : Bool) (state : EConnectState) :
    σ.Stays (if force then σ.removeTcpCon id
      else if state = .DISCONNECTING then .ok σ else σ.startDisconnecting id) := by
  split
  · exact removeTcpCon_stays
  · split
    · exact stays_self
    · exact startDisconnecting_stays

theorem tcpCloseConnection_stays (force : Bool) : σ.Stays (σ.tcpCloseConnection id force) := by
  simp only [tcpCloseConnection]
  apply stays_bind
  intro o _
  refine stays_bind fun _ _ => stays_bind fun _ _ => ?_
  split
  · apply Stays.bind
    · exact notifyProtocol_stays fun _ => rfl
    · exact fun _ _ => close_tail_stays force o.state
  · exact close_tail_stays force o.state

theorem tcpCloseConnector_stays (force : Bool) : σ.Stays (σ.tcpCloseConnector id force) := by
  simp only [tcpCloseConnector]
  apply stays_bind
  intro o _
  refine stays_bind fun _ _ => ?_
  split
  · apply Stays.bind
    · exact notifyProtocol_stays fun _ => rfl
    · exact fun _ _ => removeTcpCon_stays
  split
  · apply Stays.bind
    · exact notifyProtocol_stays fun _ => rfl
    · exact fun _ _ => close_tail_stays force o.state
  · exact close_tail_stays force o.state

theorem tcpCloseCon_stays (force : Bool) : σ.Stays (σ.tcpCloseCon id force) := by
  apply stays_bind
  intro o _
  split
  · exact tcpCloseConnection_stays force
  · exact tcpCloseConnector_stays force

theorem close_stays (key : UInt32) : σ.Stays (σ._close key) := by
  unfold _close
  split
  · refine stays_bind fun _ _ => stays_bind fun _ _ => ?_
    split
    · refine stays_bind fun _ _ => stays_bind fun _ _ => ?_
      split
      · exact tcpCloseListen_stays
      · exact tcpCloseConnection_stays false
      · exact tcpCloseConnector_stays false
      · trivial
    · exact stays_self
    · trivial
  · exact stays_self

/-! ### Connections -/

omit [KeyPool] in
theorem onNewConnection_stays : σ.Stays (σ.onNewConnection id) :=
  stays_bind fun _ _ => steady_put id _

theorem handleTcpConRead_stays : σ.Stays (σ.handleTcpConRead id ans) := by
  apply stays_bind
  intro con _
  refine stays_bind fun _ _ => stays_bind fun _ _ => ?_
  split
  · exact tcpCloseCon_stays true
  · apply stays_bind
    intro inputBuffer _
    dsimp only
    split
    · exact steady_put id _
    · exact (steady_put id _).stays (tcpCloseCon_stays true)
  · exact stays_self

omit [KeyPool] in
theorem handleTcpConWrite_stays : σ.Stays (σ.handleTcpConWrite id ans) := by
  simp only [handleTcpConWrite]
  apply stays_bind
  intro con _
  generalize toInt32 con.outBuffer.size = size
  refine stays_bind fun _ _ => stays_bind fun _ _ => stays_bind fun _ _ => stays_bind fun _ _ => ?_
  split
  · exact stays_bind fun _ _ => steady_put id _
  · split
    · exact stays_bind fun _ _ => steady_put id _
    · exact steady_put id _

theorem tcpSend_stays : σ.Stays (σ.tcpSend id ans) := by
  apply stays_bind
  intro con _
  apply stays_bind
  intro _ _
  split
  · exact stays_self
  split
  · exact tcpCloseCon_stays true
  split
  · trivial
  dsimp only
  split
  · exact stays_self
  apply stays_bind
  intro endPoint _
  split
  · exact stays_bind fun _ _ => steady_put id _
  · exact steady_put id _

/-! ### New objects -/

theorem addObject_stays : σ.Stays (σ.addObject id) :=
  stays_bind fun _ _ => stays_bind fun _ _ => steady_of_same rfl rfl rfl

theorem tcpListen_stays (port : UInt16) : σ.Stays (σ.tcpListen port p ans) := by
  have htell (τ : CNetwork) (b : Bool) : τ.Stays (.ok (τ.notify p (.onListen b))) :=
    steady_notify rfl
  simp only [tcpListen]
  split
  · exact htell σ false
  apply steady_create.stays
  apply stays_bind
  intro o _
  apply (steady_put σ.created _).stays
  apply stays_bind
  intro endPoint _
  split
  · exact htell _ false
  split
  · exact htell _ false
  apply (steady_put σ.created _).stays
  exact addObject_stays.bind fun τ _ => htell τ true

theorem tcpConnect_stays (address : CAddress) : σ.Stays (σ.tcpConnect address p ans) := by
  simp only [tcpConnect]
  apply steady_create.stays
  apply stays_bind
  intro o _
  apply (steady_put σ.created _).stays
  exact addObject_stays.bind fun τ _ => steady_put σ.created _

/-! ### Connecting -/

omit [KeyPool] in
theorem onTcpConnectError_stays : σ.Stays (σ.onTcpConnectError id) := by
  refine stays_bind fun o _ => stays_bind fun _ _ => ?_
  apply Stays.bind
  · exact notifyProtocol_stays fun _ => rfl
  · exact fun _ _ => steady_put id _

omit [KeyPool] in
theorem handleTcpConnectWrite_stays : σ.Stays (σ.handleTcpConnectWrite id ans) := by
  simp only [handleTcpConnectWrite]
  apply stays_bind
  intro o _
  split
  · trivial
  refine stays_bind fun _ _ => stays_bind fun endPoint _ => ?_
  split
  · exact onTcpConnectError_stays
  apply stays_bind
  intro self _
  split
  · exact onTcpConnectError_stays
  apply (steady_put id _).stays
  apply Stays.bind
  · exact notifyProtocol_stays fun _ => rfl
  · exact fun _ _ => onNewConnection_stays

/-! ### Timers -/

theorem fire_stays (timer : Timer) : σ.Stays (σ.fire id timer ans) := by
  have hdone (timer : Timer) : σ.Stays (σ.timerDone id timer) :=
    stays_bind fun _ _ => steady_put id _
  cases timer with
  | onTimer =>
    refine stays_bind fun o _ => stays_bind fun _ _ => ?_
    split
    · exact stays_self
    · exact close_stays o.key
  | forceClose =>
    refine (hdone _).bind fun τ _ => stays_bind fun o _ => ?_
    split
    · exact stays_self
    · exact stays_bind fun _ _ => removeTcpCon_stays
  | reconnect address =>
    refine (hdone _).bind fun τ _ => stays_bind fun o _ => ?_
    split
    · exact stays_self
    split
    · trivial
    · exact stays_bind fun _ _ => steady_put id _

/-! ### The poller -/

/-- A connection that a listener accepts gets the key and the number that were answered. -/
def Welcomes (σ : CNetwork) (ans : Answers) (τ : CNetwork) : Prop :=
  Steady [] σ τ ∨ ∃ id, ans.created = some id ∧ ans.key ≠ 0 ∧ Steady [ans.session id] σ τ

theorem handleTcpAccept_welcomes :
    Outcome (fun _ => True) (σ.Welcomes ans) (σ.handleTcpAccept id ans) := by
  simp only [handleTcpAccept]
  apply Outcome.bind_any
  intro listener _
  refine Outcome.bind_any fun _ _ => Outcome.bind_any fun _ _ => ?_
  split
  · exact .inl (.refl σ)
  have hpop : Steady [] σ (σ.popKey ans.key) := by
    unfold popKey
    split
    · exact .refl σ
    · refine ⟨rfl, fun _ => List.mem_cons_of_mem _, ?_, [], (List.append_nil _).symm, rfl⟩
      exact fun _ h => absurd h List.not_mem_nil
  split
  · exact .inl hpop
  next hne =>
  apply Outcome.bind_any
  intro fromProtocol _
  split
  · exact .inl hpop
  next protocolId hcreated =>
  have htaken : ans.key ∈ (σ.popKey ans.key).outstanding := by
    rw [popKey, if_neg hne]
    exact List.mem_cons_self
  have hsession : (⟨protocolId, .TCP, .SESSION, ans.key, 0⟩ : IOProtocol) = ans.session protocolId :=
    rfl
  rw [hsession]
  generalize σ.popKey ans.key = τ at hpop htaken ⊢
  apply Outcome.bind_any
  intro o₁ _
  refine Outcome.bind ((steady_create.trans (steady_put τ.created _)).stays addObject_stays) ?_
  intro τ₁ hτ₁
  apply Outcome.bind_any
  intro o₂ _
  have htold := ((hpop.trans hτ₁).trans (steady_put τ.created o₂.registerReadHandler)).welcome
    (p := ans.session protocolId) (hτ₁.outstanding _ htaken) fromProtocol
  exact onNewConnection_stays.mono fun υ hυ => .inr ⟨protocolId, hcreated, hne, htold.trans hυ⟩

/-- Only a listener's callback makes a protocol. -/
theorem call_stays {callback : Handler} (h : callback ≠ .handleTcpAccept) :
    σ.Stays (σ.call callback id ans) := by
  cases callback with
  | weakupReadHandler => exact stays_bind fun _ _ => stays_bind fun _ _ => stays_self
  | defaultErrorHandle => exact stays_bind fun _ _ => stays_bind fun _ _ => stays_self
  | handleTcpAccept => exact absurd rfl h
  | handleTcpConError =>
    exact stays_bind fun _ _ => stays_bind fun _ _ => tcpCloseCon_stays true
  | handleTcpConRead => exact handleTcpConRead_stays
  | handleTcpConWrite => exact handleTcpConWrite_stays
  | handleTcpConnectError =>
    refine stays_bind fun _ _ => stays_bind fun _ _ => ?_
    split
    · exact onTcpConnectError_stays
    · trivial
  | handleTcpConnectWrite => exact handleTcpConnectWrite_stays

theorem callIf_stays {callback : Option Handler} (h : callback ≠ some .handleTcpAccept) :
    σ.Stays (σ.callIf callback id ans) := by
  cases callback with
  | some callback => exact call_stays fun heq => h (congrArg some heq)
  | none => exact stays_self

theorem callIf_welcomes (callback : Option Handler) :
    Outcome (fun _ => True) (σ.Welcomes ans) (σ.callIf callback id ans) := by
  by_cases heq : callback = some .handleTcpAccept
  · rw [heq]
    exact handleTcpAccept_welcomes
  · exact (callIf_stays heq).mono fun _ => .inl

omit [KeyPool] in
theorem Welcomes.stays {υ : CNetwork} (h : σ.Welcomes ans τ) (hυ : Steady [] τ υ) :
    σ.Welcomes ans υ := by
  rcases h with h | ⟨id, hid, hne, h⟩
  · exact .inl (h.trans hυ)
  · exact .inr ⟨id, hid, hne, h.trans hυ⟩

theorem poll_welcomes (h : σ.Inv) (hfree : σ.Free ans.key) (event : Record) :
    Outcome (fun _ => True) (σ.Welcomes ans) (σ.poll key event ans) := by
  unfold poll
  split
  · exact .inl (.refl σ)
  next id hslot =>
  obtain ⟨o, hin, -⟩ := h.inTable hslot
  have hcallback := accept_callback (h.settled hin)
  simp only [get_eq hin.heap, ok_bind]
  split
  · exact .inl (.refl σ)
  split
  · split
    · next callback herror =>
      exact (call_stays fun heq => hcallback.1 (heq ▸ herror)).mono fun _ => .inl
    · trivial
  have hrest (τ : CNetwork) (hτ : σ.Leads τ) : τ.Stays (do
      let o ← τ.get id
      if (event.writable || event.hup) && o.hasWriting then τ.callIf o.writeCallback id ans
      else .ok τ) := by
    obtain ⟨o', hheap⟩ := Option.isSome_iff_exists.mp (hτ.keeps id (by simp [hin.heap]))
    simp only [get_eq hheap, ok_bind]
    split
    · next hwrite =>
      have hwrite := (Bool.and_eq_true_iff.mp hwrite).2
      have hslot' := (hτ.inv.held id o' hheap).2.2.2.resolve_left (events_ne_zero hwrite)
      exact callIf_stays ((accept_callback (hτ.inv.settled ⟨hheap, hslot'⟩)).2.1 hwrite)
    · exact stays_self
  split
  · next hread =>
    have hread := (Bool.and_eq_true_iff.mp hread).2
    have hgoes : Outcome Foreign (Goes true (fun _ _ => False) σ) (σ.callIf o.readCallback id ans) :=
      readCallback_goes h hin hfree hread
    have hwelcomes : Outcome (fun _ => True) (σ.Welcomes ans) (σ.callIf o.readCallback id ans) :=
      callIf_welcomes o.readCallback
    cases hcall : σ.callIf o.readCallback id ans with
    | error f => trivial
    | ok τ =>
      rw [hcall] at hgoes hwelcomes
      exact (hrest τ (hgoes.leads h)).mono fun _ hυ => Welcomes.stays hwelcomes hυ
  · exact (hrest σ h.refl).mono fun _ => .inl

/-! ### Events -/

theorem dispatchProcess_stays (event : IOEvent) : σ.Stays (σ.dispatchProcess event ans) := by
  cases event with
  | listen port p =>
    simp only [dispatchProcess, processListen]
    split
    · exact tcpListen_stays port
    · exact stays_self
    · trivial
  | connect address p =>
    simp only [dispatchProcess, processConnect]
    split
    · exact tcpConnect_stays address
    · exact stays_self
    · trivial
  | data key =>
    simp only [dispatchProcess, processDataEvent]
    split
    · refine stays_bind fun _ _ => stays_bind fun _ _ => ?_
      split
      · exact tcpSend_stays
      · exact stays_self
      · trivial
    · exact stays_self
  | close key => exact close_stays key
  | clear group =>
    apply stays_bind
    intro objs _
    apply Outcome.foldlM objs (.refl σ)
    intro τ hτ id _
    exact hτ.stays (stays_bind fun o _ => close_stays o.key)

/-- Handling an event takes it out of the queue. -/
theorem dispatch_stays : { σ with eventQueue := σ.eventQueue.tail }.Stays (σ.dispatch ans) := by
  unfold dispatch
  split
  · next event rest hqueue =>
    have htail : σ.eventQueue.tail = rest := by rw [hqueue, List.tail_cons]
    rw [htail]
    exact dispatchProcess_stays event
  · next hqueue =>
    exact steady_of_same (by simp [hqueue]) rfl rfl

/-! ### Steps -/

/-- The events that are left once a step has taken the one that it handles. -/
def rest (σ : CNetwork) : Action → List IOEvent
  | .dispatch _ => σ.eventQueue.tail
  | .poll _ _ _ | .fire _ _ _ | .listen _ _ _ _ _ | .connect _ _ _ _ _ | .push _ | .pushKey _
  | .recycle _ => σ.eventQueue

/-- The protocols that a step makes. -/
inductive Made : Action → List IOProtocol → Prop
  | none (a : Action) : Made a []
  | session {key : UInt32} {event : Record} {ans : Answers} {id : Nat}
      (hid : ans.created = some id) (hne : ans.key ≠ 0) :
      Made (.poll key event ans) [ans.session id]

/-- What a step of the network thread leaves to others, or the last owner of an object going. -/
theorem exec_steady (h : σ.Inv) {a : Action} (hpre : σ.Pre a)
    (ha : Action.Runs a ∨ ∃ object, a = .recycle object) (hexec : σ.exec a = .ok τ) :
    ∃ accepted, Made a accepted ∧ Steady accepted { σ with eventQueue := σ.rest a } τ := by
  rcases ha with hruns | ⟨object, rfl⟩
  · cases a with
    | dispatch ans =>
      have hstays : { σ with eventQueue := σ.eventQueue.tail }.Stays (σ.dispatch ans) := dispatch_stays
      rw [show σ.dispatch ans = .ok τ from hexec] at hstays
      exact ⟨[], .none _, hstays⟩
    | poll key event ans =>
      have hwelcomes : Outcome (fun _ => True) (σ.Welcomes ans) (σ.poll key event ans) :=
        poll_welcomes h hpre.1 event
      rw [show σ.poll key event ans = .ok τ from hexec] at hwelcomes
      rcases hwelcomes with hsteady | ⟨id, hid, hne, hsteady⟩
      · exact ⟨[], .none _, hsteady⟩
      · exact ⟨_, .session hid hne, hsteady⟩
    | fire con timer ans =>
      have hstays : σ.Stays (σ.fire con timer ans) := fire_stays timer
      rw [show σ.fire con timer ans = .ok τ from hexec] at hstays
      exact ⟨[], .none _, hstays⟩
    | listen port id protocolType group key => exact hruns.elim
    | connect address id protocolType group key => exact hruns.elim
    | push event => exact hruns.elim
    | pushKey key => exact hruns.elim
    | recycle object => exact hruns.elim
  · obtain rfl := Except.ok.inj hexec
    refine ⟨[], .none _, ?_⟩
    unfold recycle
    split
    · exact steady_of_same rfl rfl rfl
    · exact .refl σ

/-- What a step tells whom, and which protocols it makes. -/
structure Report (σ : CNetwork) (a : Action) (new : List (IOProtocol × Notice))
    (accepted : List IOProtocol) (τ : CNetwork) : Prop where
  notices : τ.notices = σ.notices ++ new
  sessions : new.filterMap acceptedProtocol = accepted
  made : Made a accepted
  steady : Steady accepted { σ with eventQueue := σ.rest a } τ
  about : ∀ call ∈ new, acceptedProtocol call = none → σ.Known call.1
  known : ∀ p, τ.Known p → σ.Known p ∨ p ∈ accepted

theorem step_report (h : σ.Inv) {a : Action} (hstep : σ.Step a τ)
    (ha : Action.Runs a ∨ ∃ object, a = .recycle object) :
    ∃ new accepted, Report σ a new accepted τ := by
  obtain ⟨hpre, hexec⟩ := hstep
  have hpublishes : ¬a.Publishes := by
    rcases ha with hruns | ⟨object, rfl⟩
    · cases a with
      | listen => exact hruns.elim
      | connect => exact hruns.elim
      | push | pushKey | recycle | dispatch | poll | fire => exact id
    · exact id
  obtain ⟨new, hnew, habout, hknown⟩ := exec_tidings h hpre hpublishes hexec
  obtain ⟨accepted, hmade, hsteady⟩ := exec_steady h hpre ha hexec
  obtain ⟨new', hnew', haccepted⟩ := hsteady.notices
  obtain rfl : new' = new := List.append_cancel_left (hnew'.symm.trans hnew)
  refine ⟨new', accepted, hnew, haccepted, hmade, hsteady, ?_, ?_⟩
  · rintro ⟨p, notice⟩ hcall hnone
    have habout := habout _ hcall
    cases notice with
    | onAccept q => cases hnone
    | onListen | onUnlisten | onClose | onConnect | onDisConnect => exact known_of_concerns habout
  · intro p hp
    rcases hknown p hp with hold | ⟨q, hcall⟩
    · exact .inl hold
    · exact .inr (haccepted ▸ List.mem_filterMap.mpr ⟨_, hcall, rfl⟩)

end CNetwork

end ZlNet.Network
