import ZlNet.Network.Proof.Send

/-! What the network thread tells protocols.  A step tells the protocol of the event that it handles
and those of the objects that it handles, or the protocol of a connection that one of these accepts. -/

namespace ZlNet.Network

def IOEvent.protocol : IOEvent → Option IOProtocol
  | .listen _ protocol | .connect _ protocol => some protocol
  | .data _ | .close _ | .clear _ => none

namespace CNetwork

open Lib Lib.Word IOObject

/-- The object `id` has the protocol `p`. -/
def Holds (σ : CNetwork) (id : ObjectId) (p : IOProtocol) : Prop :=
  ∃ o, σ.heap id = some o ∧ o.protocol = some p

/-- A call that tells one of the protocols `P` of itself, or of a connection that it accepted. -/
def About (P : IOProtocol → Prop) (call : IOProtocol × Notice) : Prop :=
  match call.2 with
  | .onAccept fromProtocol => P fromProtocol
  | .onListen _ | .onUnlisten | .onClose | .onConnect _ | .onDisConnect => P call.1

/-- The numbers from `created` on are not in use. -/
def Room (σ : CNetwork) : Prop := ∀ id, σ.created ≤ id → σ.heap id = none

/-- From `σ` to `τ` protocols are told `new`, which is about `P`.  The objects there were keep their
protocols, and the protocols of new ones are among `Q` or are told that they were accepted. -/
structure Told (P Q : IOProtocol → Prop) (new : List (IOProtocol × Notice)) (σ τ : CNetwork) :
    Prop where
  notices : τ.notices = σ.notices ++ new
  about : ∀ call ∈ new, About P call
  queue : ∀ e ∈ τ.eventQueue, e ∈ σ.eventQueue
  keeps : ∀ id o, σ.heap id = some o → ∃ o', τ.heap id = some o' ∧ o'.protocol = o.protocol
  room : σ.Room → τ.Room
  holds : ∀ id p, τ.Holds id p → (∃ id, σ.Holds id p) ∨ Q p ∨ ∃ q, (p, .onAccept q) ∈ new

/-- The object `id` is there, and its protocol is among `P`. -/
def Has (σ : CNetwork) (P : IOProtocol → Prop) (id : ObjectId) : Prop :=
  ∃ o, σ.heap id = some o ∧ ∀ p, o.protocol = some p → P p

/-- Whatever `x` returns, the protocols that it tells are `P`, and it takes in `Q`. -/
def Tells (σ : CNetwork) (P Q : IOProtocol → Prop) (x : Except Fault CNetwork) : Prop :=
  Outcome (fun _ => True) (fun τ => ∃ new, Told P Q new σ τ) x

theorem About.mono {P P' : IOProtocol → Prop} {call : IOProtocol × Notice} (h : ∀ p, P p → P' p)
    (habout : About P call) : About P' call := by
  obtain ⟨p, notice⟩ := call
  cases notice with
  | onAccept q => exact h q habout
  | onListen success => exact h p habout
  | onUnlisten => exact h p habout
  | onClose => exact h p habout
  | onConnect success => exact h p habout
  | onDisConnect => exact h p habout

section

variable {σ τ υ : CNetwork} {P Q : IOProtocol → Prop} {id : ObjectId} {o o' : IOObject}
  {p : IOProtocol} {new new' : List (IOProtocol × Notice)} {x : Except Fault CNetwork}

theorem Told.refl (P Q : IOProtocol → Prop) (σ : CNetwork) : Told P Q [] σ σ where
  notices := (List.append_nil _).symm
  about _ h := absurd h List.not_mem_nil
  queue _ he := he
  keeps _ o h := ⟨o, h, rfl⟩
  room h := h
  holds id _ h := .inl ⟨id, h⟩

theorem Told.trans (h : Told P Q new σ τ) (h' : Told P Q new' τ υ) :
    Told P Q (new ++ new') σ υ where
  notices := by rw [h'.notices, h.notices, List.append_assoc]
  about call hcall := (List.mem_append.mp hcall).elim (h.about call) (h'.about call)
  queue e he := h.queue e (h'.queue e he)
  keeps id o ho := by
    obtain ⟨o₁, h₁, hp₁⟩ := h.keeps id o ho
    obtain ⟨o₂, h₂, hp₂⟩ := h'.keeps id o₁ h₁
    exact ⟨o₂, h₂, hp₂.trans hp₁⟩
  room hroom := h'.room (h.room hroom)
  holds id p hp := by
    rcases h'.holds id p hp with ⟨id₁, hp₁⟩ | hq | ⟨q, hq⟩
    · rcases h.holds id₁ p hp₁ with hold | hq | ⟨q, hq⟩
      · exact .inl hold
      · exact .inr (.inl hq)
      · exact .inr (.inr ⟨q, List.mem_append_left _ hq⟩)
    · exact .inr (.inl hq)
    · exact .inr (.inr ⟨q, List.mem_append_right _ hq⟩)

/-- An object that is there keeps its protocol. -/
theorem Told.has (h : Told P Q new σ τ) (hhas : σ.Has P id) : τ.Has P id := by
  obtain ⟨o, hheap, hP⟩ := hhas
  obtain ⟨o', hheap', hp⟩ := h.keeps id o hheap
  exact ⟨o', hheap', fun p hp' => hP p (hp ▸ hp')⟩

theorem Told.tells (h : Told P Q new σ τ) (hx : τ.Tells P Q x) : σ.Tells P Q x :=
  hx.mono fun _ ⟨_, h'⟩ => ⟨_, h.trans h'⟩

theorem tells_self : σ.Tells P Q (.ok σ) := ⟨_, .refl P Q σ⟩

theorem Tells.bind {f : CNetwork → Except Fault CNetwork} (h : σ.Tells P Q x)
    (hf : ∀ new τ, Told P Q new σ τ → τ.Tells P Q (f τ)) : σ.Tells P Q (x >>= f) :=
  Outcome.bind h fun τ ⟨new, hnew⟩ => hnew.tells (hf new τ hnew)

/-- A computation that goes on after a part that leaves the state alone. -/
theorem tells_bind {α : Type} {y : Except Fault α} {f : α → Except Fault CNetwork}
    (h : ∀ a, y = .ok a → σ.Tells P Q (f a)) : σ.Tells P Q (y >>= f) :=
  Outcome.bind_any h

theorem told_put (hheap : σ.heap id = some o) (hp : o'.protocol = o.protocol) :
    Told P Q [] σ (σ.put id o') where
  notices := (List.append_nil _).symm
  about _ h := absurd h List.not_mem_nil
  queue _ he := he
  keeps id₁ o₁ h₁ := by
    by_cases heq : id₁ = id
    · subst heq
      obtain rfl := Option.some.inj (hheap.symm.trans h₁)
      exact ⟨o', σ.put_heap_self id₁ o', hp⟩
    · exact ⟨o₁, (σ.put_heap_ne o' heq).trans h₁, rfl⟩
  room hroom id₁ hle := by
    have hne : id₁ ≠ id := by
      rintro rfl
      rw [hroom id₁ hle] at hheap
      cases hheap
    exact (σ.put_heap_ne o' hne).trans (hroom id₁ hle)
  holds id₁ p h₁ := by
    obtain ⟨o₁, h₁, hp₁⟩ := h₁
    by_cases heq : id₁ = id
    · subst heq
      obtain rfl := Option.some.inj ((σ.put_heap_self id₁ o').symm.trans h₁)
      exact .inl ⟨id₁, o, hheap, hp ▸ hp₁⟩
    · exact .inl ⟨id₁, o₁, (σ.put_heap_ne o' heq).symm.trans h₁, hp₁⟩

theorem told_notify {notice : Notice} (h : About P (p, notice)) :
    Told P Q [(p, notice)] σ (σ.notify p notice) where
  notices := rfl
  about _ hcall := List.mem_singleton.mp hcall ▸ h
  queue _ he := he
  keeps _ o ho := ⟨o, ho, rfl⟩
  room h := h
  holds id _ hp := .inl ⟨id, hp⟩

/-- What has the same objects and tells nothing. -/
theorem told_of_heap (hheap : τ.heap = σ.heap) (hcreated : τ.created = σ.created)
    (hnotices : τ.notices = σ.notices) (hqueue : ∀ e ∈ τ.eventQueue, e ∈ σ.eventQueue) : Told P Q [] σ τ where
  notices := hnotices.trans (List.append_nil _).symm
  about _ h := absurd h List.not_mem_nil
  queue := hqueue
  keeps id o ho := ⟨o, hheap ▸ ho, rfl⟩
  room h id hle := hheap ▸ h id (hcreated ▸ hle)
  holds id p hp := .inl ⟨id, by rwa [Holds, ← hheap]⟩

/-- A new object, for a protocol that is taken in. -/
theorem told_create (hroom : σ.Room) (type : EIOOBJECT_TYPE)
    (endPoint : CEndPoint) (reused : Option Nat) (hq : Q p) :
    Told P Q [] σ (σ.create type p endPoint reused) where
  notices := (List.append_nil _).symm
  about _ h := absurd h List.not_mem_nil
  queue _ he := he
  keeps id o ho := by
    have hne : id ≠ σ.created := by
      rintro rfl
      rw [hroom _ (Nat.le_refl _)] at ho
      cases ho
    exact ⟨o, (σ.put_heap_ne _ hne).trans ho, rfl⟩
  room h id hle := (σ.put_heap_ne _ (Nat.ne_of_gt hle)).trans (h id (Nat.le_of_succ_le hle))
  holds id p' hp' := by
    obtain ⟨o, ho, hp'⟩ := hp'
    by_cases heq : id = σ.created
    · subst heq
      obtain rfl := Option.some.inj ((σ.put_heap_self σ.created _).symm.trans ho)
      exact .inr (.inl (Option.some.inj hp' ▸ hq))
    · exact .inl ⟨id, o, (σ.put_heap_ne _ heq).symm.trans ho, hp'⟩

theorem notifyProtocol_tells {notice : Notice} (hP : ∀ p, o.protocol = some p → P p)
    (habout : ∀ p, P p → About P (p, notice)) : σ.Tells P Q (σ.notifyProtocol o notice) := by
  apply tells_bind
  intro p hp
  cases hprotocol : o.protocol with
  | none => simp [hprotocol, nonNull] at hp
  | some p' =>
    obtain rfl : p' = p := by simpa [hprotocol] using hp
    exact ⟨_, told_notify (habout p' (hP p' hprotocol))⟩

theorem startDisconnecting_tells : σ.Tells P Q (σ.startDisconnecting id) := by
  apply tells_bind
  intro o hget
  have hheap := heap_of_get hget
  simp only
  split
  · exact ⟨_, told_put hheap rfl⟩
  · exact tells_bind fun _ _ => ⟨_, told_put hheap rfl⟩

end

variable [KeyPool] {σ τ : CNetwork} {P Q : IOProtocol → Prop} {id : ObjectId} {o : IOObject}
  {p : IOProtocol} {new : List (IOProtocol × Notice)} {x : Except Fault CNetwork} {key : UInt32}
  {ans : Answers}

/-! ### Closing -/

theorem removeObject_tells (key : UInt32) : σ.Tells P Q (σ.removeObject key) := by
  simp only [removeObject]
  split
  · exact tells_bind fun _ _ => tells_bind fun _ _ =>
      ⟨_, told_of_heap rfl rfl rfl fun _ he => he⟩
  · trivial

theorem removeTcpCon_tells : σ.Tells P Q (σ.removeTcpCon id) := by
  apply tells_bind
  intro o hget
  have hput : Told P Q [] σ (σ.put id { o with state := .DISCONNECTED }.deregisterObject) :=
    told_put (heap_of_get hget) rfl
  exact hput.tells (removeObject_tells o.key)

theorem removeTcpListen_tells : σ.Tells P Q (σ.removeTcpListen id) := by
  apply tells_bind
  intro o hget
  have hput : Told P Q [] σ (σ.put id o.deregisterObject) := told_put (heap_of_get hget) rfl
  exact hput.tells (removeObject_tells o.key)

theorem tcpCloseListen_tells (h : σ.Has P id) : σ.Tells P Q (σ.tcpCloseListen id) := by
  obtain ⟨o, hheap, hP⟩ := h
  simp only [tcpCloseListen, get_eq hheap, ok_bind]
  apply Tells.bind
  · exact notifyProtocol_tells hP fun _ hp => hp
  · exact fun _ _ _ => removeTcpListen_tells

/-- What both ways to close a connection do after telling its protocol. -/
theorem close_tail_tells (force : Bool) (state : EConnectState) :
    σ.Tells P Q (if force then σ.removeTcpCon id
      else if state = .DISCONNECTING then .ok σ else σ.startDisconnecting id) := by
  split
  · exact removeTcpCon_tells
  · split
    · exact tells_self
    · exact startDisconnecting_tells

theorem tcpCloseConnection_tells (h : σ.Has P id) (force : Bool) :
    σ.Tells P Q (σ.tcpCloseConnection id force) := by
  obtain ⟨o, hheap, hP⟩ := h
  simp only [tcpCloseConnection, get_eq hheap, ok_bind]
  refine tells_bind fun _ _ => tells_bind fun _ _ => ?_
  split
  · apply Tells.bind
    · exact notifyProtocol_tells hP fun _ hp => hp
    · exact fun _ _ _ => close_tail_tells force o.state
  · exact close_tail_tells force o.state

theorem tcpCloseConnector_tells (h : σ.Has P id) (force : Bool) :
    σ.Tells P Q (σ.tcpCloseConnector id force) := by
  obtain ⟨o, hheap, hP⟩ := h
  simp only [tcpCloseConnector, get_eq hheap, ok_bind]
  refine tells_bind fun _ _ => ?_
  split
  · apply Tells.bind
    · exact notifyProtocol_tells hP fun _ hp => hp
    · exact fun _ _ _ => removeTcpCon_tells
  split
  · apply Tells.bind
    · exact notifyProtocol_tells hP fun _ hp => hp
    · exact fun _ _ _ => close_tail_tells force o.state
  · exact close_tail_tells force o.state

theorem tcpCloseCon_tells (h : σ.Has P id) (force : Bool) :
    σ.Tells P Q (σ.tcpCloseCon id force) := by
  apply tells_bind
  intro o _
  split
  · exact tcpCloseConnection_tells h force
  · exact tcpCloseConnector_tells h force

theorem tcpClose_tells (h : ∀ id, σ.getObject key = some id → σ.Has P id) (force : Bool) :
    σ.Tells P Q (σ.tcpClose key force) := by
  apply tells_bind
  intro object hobject
  have hhas : σ.Has P object := by
    cases hget : σ.getObject key with
    | none => simp [hget, nonNull] at hobject
    | some id =>
      obtain rfl : id = object := by simpa [hget] using hobject
      exact h id hget
  apply tells_bind
  intro o _
  split
  · exact tcpCloseListen_tells hhas
  · exact tcpCloseConnection_tells hhas force
  · exact tcpCloseConnector_tells hhas force
  · trivial

theorem close_tells (h : ∀ id, σ.getObject key = some id → σ.Has P id) :
    σ.Tells P Q (σ._close key) := by
  unfold _close
  split
  · refine tells_bind fun _ _ => tells_bind fun _ _ => ?_
    split
    · exact tcpClose_tells h false
    · exact tells_self
    · trivial
  · exact tells_self

/-! ### Connections -/

omit [KeyPool] in
theorem onNewConnection_tells : σ.Tells P Q (σ.onNewConnection id) := by
  apply tells_bind
  intro o hget
  exact ⟨_, told_put (heap_of_get hget) rfl⟩

theorem handleTcpConError_tells (h : σ.Has P id) : σ.Tells P Q (σ.handleTcpConError id) :=
  tells_bind fun _ _ => tells_bind fun _ _ => tcpCloseCon_tells h true

theorem handleTcpConRead_tells (h : σ.Has P id) : σ.Tells P Q (σ.handleTcpConRead id ans) := by
  apply tells_bind
  intro con hcon
  refine tells_bind fun _ _ => tells_bind fun _ _ => ?_
  split
  · exact tcpCloseCon_tells h true
  · apply tells_bind
    intro inputBuffer _
    have hput : Told P Q [] σ (σ.put id { con with inputBuffer := (ans.onUnserialize inputBuffer).2 }) :=
      told_put (heap_of_connection hcon) rfl
    dsimp only
    split
    · exact ⟨_, hput⟩
    · exact hput.tells (tcpCloseCon_tells (hput.has h) true)
  · exact tells_self

omit [KeyPool] in
theorem handleTcpConWrite_tells : σ.Tells P Q (σ.handleTcpConWrite id ans) := by
  simp only [handleTcpConWrite]
  apply tells_bind
  intro con hcon
  have hheap := heap_of_connection hcon
  generalize toInt32 con.outBuffer.size = size
  refine tells_bind fun _ _ => tells_bind fun _ _ => tells_bind fun _ _ => tells_bind fun _ _ => ?_
  split
  · apply tells_bind
    intro outBuffer _
    exact ⟨_, told_put hheap (by rw [deregisterWriteHandler_protocol])⟩
  · split
    · exact tells_bind fun _ _ => ⟨_, told_put hheap rfl⟩
    · exact ⟨_, told_put hheap rfl⟩

theorem tcpSend_tells (h : σ.Has P id) : σ.Tells P Q (σ.tcpSend id ans) := by
  apply tells_bind
  intro con hget
  have hheap := heap_of_get hget
  apply tells_bind
  intro _ _
  split
  · exact tells_self
  split
  · exact tcpCloseCon_tells h true
  split
  · trivial
  dsimp only
  split
  · exact tells_self
  apply tells_bind
  intro endPoint _
  split
  · apply tells_bind
    intro outBuffer _
    split
    · exact ⟨_, told_put hheap rfl⟩
    · exact ⟨_, told_put hheap (by rw [deregisterWriteHandler_protocol])⟩
  · exact ⟨_, told_put hheap rfl⟩

/-! ### New objects -/

theorem told_addObject (h : σ.addObject id = .ok τ) : Told P Q [] σ τ := by
  obtain ⟨o, -, h⟩ := of_bind_ok h
  obtain ⟨-, -, h⟩ := of_bind_ok h
  obtain rfl := Except.ok.inj h
  exact told_of_heap rfl rfl rfl fun _ he => he

theorem tcpListen_tells (hroom : σ.Room) (hp : P p) (hq : Q p) (port : UInt16) :
    σ.Tells P Q (σ.tcpListen port p ans) := by
  have htell (τ : CNetwork) (b : Bool) : τ.Tells P Q (.ok (τ.notify p (.onListen b))) :=
    ⟨_, told_notify hp⟩
  simp only [tcpListen]
  split
  · exact htell σ false
  apply (told_create hroom .LISTENER ⟨ans.socket, ⟨INADDR_ANY, port⟩, []⟩ ans.reused hq).tells
  generalize σ.create .LISTENER p ⟨ans.socket, ⟨INADDR_ANY, port⟩, []⟩ ans.reused = τ
  generalize σ.created = listener
  apply tells_bind
  intro o hget
  let o₁ : IOObject := { o with
    errorCallback := some .defaultErrorHandle, readCallback := some .handleTcpAccept }
  have hput : Told P Q [] τ (τ.put listener o₁) := told_put (heap_of_get hget) rfl
  apply hput.tells
  apply tells_bind
  intro endPoint _
  split
  · exact htell _ false
  split
  · exact htell _ false
  have hput : Told P Q [] (τ.put listener o₁) ((τ.put listener o₁).put listener o₁.registerReadHandler) :=
    told_put (τ.put_heap_self listener o₁) (registerReadHandler_protocol o₁)
  apply hput.tells
  apply tells_bind
  intro τ hadd
  exact (told_addObject hadd).tells (htell τ true)

omit [KeyPool] in
/-- A protocol that is told that it was accepted need not be among those taken in. -/
theorem Told.accepted {q : IOProtocol} (h : Told P (fun p' => Q p' ∨ p' = p) new σ τ)
    (hmem : (p, .onAccept q) ∈ new) : Told P Q new σ τ where
  __ := h
  holds id p' hp' := by
    rcases h.holds id p' hp' with hold | (hq | rfl) | hnew
    · exact .inl hold
    · exact .inr (.inl hq)
    · exact .inr (.inr ⟨q, hmem⟩)
    · exact .inr (.inr hnew)

theorem handleTcpAccept_tells (hroom : σ.Room) (h : σ.Has P id) :
    σ.Tells P Q (σ.handleTcpAccept id ans) := by
  obtain ⟨o, hheap, hP⟩ := h
  simp only [handleTcpAccept, get_eq hheap, ok_bind]
  refine tells_bind fun _ _ => tells_bind fun _ _ => ?_
  split
  · exact tells_self
  next socket address _ =>
  have hpop : Told P Q [] σ (σ.popKey ans.key) := by
    unfold popKey
    split
    · exact .refl P Q σ
    · exact told_of_heap rfl rfl rfl fun _ he => he
  split
  · exact ⟨_, hpop⟩
  apply tells_bind
  intro fromProtocol hfrom
  split
  · exact ⟨_, hpop⟩
  next protocolId _ =>
  let protocol : IOProtocol := ⟨protocolId, .TCP, .SESSION, ans.key, 0⟩
  have hP := hP fromProtocol (by
    cases hprotocol : o.protocol with
    | none => simp [hprotocol, nonNull] at hfrom
    | some q => simpa [hprotocol] using hfrom)
  apply hpop.tells
  have hroom := hpop.room hroom
  generalize σ.popKey ans.key = τ at *
  have hcreate : Told P (fun p => Q p ∨ p = protocol) [] τ
      (τ.create .SESSION protocol ⟨socket, address, []⟩ ans.reused) :=
    told_create hroom _ _ _ (.inr rfl)
  apply tells_bind
  intro o₁ hget₁
  have hconnected := hcreate.trans (told_put (heap_of_get hget₁) o₁.setConnected_protocol)
  apply tells_bind
  intro τ₁ hadd
  apply tells_bind
  intro o₂ hget₂
  have hregistered := (hconnected.trans (told_addObject hadd)).trans
    (told_put (heap_of_get hget₂) (registerReadHandler_protocol o₂))
  apply tells_bind
  intro o₃ hget₃
  have htell : About P (protocol, .onAccept fromProtocol) := hP
  have htold := (hregistered.trans (told_notify htell)).trans
    (told_put (heap_of_get hget₃) (startTimer_protocol o₃ .onTimer))
  exact ⟨_, htold.accepted (q := fromProtocol)
    (List.mem_append_left _ (List.mem_append_right _ (List.mem_singleton_self _)))⟩

theorem tcpConnect_tells (hroom : σ.Room) (hq : Q p) (address : CAddress) :
    σ.Tells P Q (σ.tcpConnect address p ans) := by
  simp only [tcpConnect]
  apply (told_create hroom .CONNECTOR ⟨ans.socket, address, []⟩ ans.reused hq).tells
  generalize σ.create .CONNECTOR p ⟨ans.socket, address, []⟩ ans.reused = τ
  generalize σ.created = connect
  apply tells_bind
  intro o hget
  let o₁ : IOObject := { o with
    errorCallback := some .handleTcpConnectError, writeCallback := some .handleTcpConnectWrite }
  have hput : Told P Q [] τ (τ.put connect o₁) := told_put (heap_of_get hget) rfl
  apply hput.tells
  apply tells_bind
  intro τ₁ hadd
  have hadded : Told P Q [] (τ.put connect o₁) τ₁ := told_addObject hadd
  obtain ⟨o₂, hheap, hp⟩ := hadded.keeps connect o₁ (τ.put_heap_self connect o₁)
  exact hadded.tells ⟨_, told_put hheap ((registerWriteHandler_protocol _).trans hp.symm)⟩

/-! ### Connecting -/

omit [KeyPool] in
theorem onTcpConnectError_tells (h : σ.Has P id) : σ.Tells P Q (σ.onTcpConnectError id) := by
  obtain ⟨o, hheap, hP⟩ := h
  simp only [onTcpConnectError, get_eq hheap, ok_bind]
  apply tells_bind
  intro endPoint _
  apply Tells.bind
  · exact notifyProtocol_tells hP fun _ hp => hp
  · intro new τ htold
    obtain ⟨o', hheap', hp⟩ := htold.keeps id o hheap
    exact ⟨_, told_put hheap' hp.symm⟩

omit [KeyPool] in
theorem handleTcpConnectError_tells (h : σ.Has P id) :
    σ.Tells P Q (σ.handleTcpConnectError id) := by
  refine tells_bind fun o _ => tells_bind fun _ _ => ?_
  split
  · exact onTcpConnectError_tells h
  · trivial

omit [KeyPool] in
theorem handleTcpConnectWrite_tells (h : σ.Has P id) :
    σ.Tells P Q (σ.handleTcpConnectWrite id ans) := by
  have ⟨o, hheap, hP⟩ := h
  simp only [handleTcpConnectWrite, get_eq hheap, ok_bind]
  split
  · trivial
  refine tells_bind fun _ _ => tells_bind fun endPoint _ => ?_
  split
  · exact onTcpConnectError_tells h
  apply tells_bind
  intro self _
  split
  · exact onTcpConnectError_tells h
  have hput : Told P Q [] σ (σ.put id o.deregisterObject.setConnected.registerReadHandler) :=
    told_put hheap (registerReadHandler_protocol _)
  apply hput.tells
  apply Tells.bind
  · exact notifyProtocol_tells hP fun _ hp => hp
  · exact fun _ _ _ => onNewConnection_tells

/-! ### Timers -/

omit [KeyPool] in
theorem timerDone_tells (timer : Timer) : σ.Tells P Q (σ.timerDone id timer) := by
  apply tells_bind
  intro o hget
  exact ⟨_, told_put (heap_of_get hget) rfl⟩

theorem forceClose_tells : σ.Tells P Q (σ.forceClose id) := by
  apply tells_bind
  intro o _
  split
  · exact tells_self
  · exact tells_bind fun _ _ => removeTcpCon_tells

theorem reconnect_tells (address : CAddress) : σ.Tells P Q (σ.reconnect id address ans) := by
  apply tells_bind
  intro o hget
  split
  · exact tells_self
  split
  · trivial
  apply tells_bind
  intro _ _
  exact ⟨_, told_put (heap_of_get hget) (registerWriteHandler_protocol _)⟩

/-- What is found under the key of an object is the object. -/
theorem Inv.has_of_getObject (h : σ.Inv) (hheap : σ.heap id = some o) (hhas : σ.Has P id)
    (object : ObjectId) (hget : σ.getObject o.key = some object) : σ.Has P object := by
  obtain ⟨o', hin, hkey⟩ := h.inTable_of_getObject hget
  exact h.unique object id o' o hin.heap hheap hkey ▸ hhas

theorem onTimer_tells (hinv : σ.Inv) (h : σ.Has P id) : σ.Tells P Q (σ.onTimer id ans) := by
  apply tells_bind
  intro o hget
  apply tells_bind
  intro _ _
  split
  · exact tells_self
  · exact close_tells (hinv.has_of_getObject (heap_of_get hget) h)

theorem fire_tells (hinv : σ.Inv) (h : σ.Has P id) (timer : Timer) :
    σ.Tells P Q (σ.fire id timer ans) := by
  cases timer with
  | onTimer => exact onTimer_tells hinv h
  | forceClose => exact (timerDone_tells _).bind fun _ _ _ => forceClose_tells
  | reconnect address => exact (timerDone_tells _).bind fun _ _ _ => reconnect_tells address

/-! ### The poller -/

theorem call_tells (hroom : σ.Room) (h : σ.Has P id) (callback : Handler) :
    σ.Tells P Q (σ.call callback id ans) := by
  cases callback with
  | weakupReadHandler => exact tells_bind fun _ _ => tells_bind fun _ _ => tells_self
  | defaultErrorHandle => exact tells_bind fun _ _ => tells_bind fun _ _ => tells_self
  | handleTcpAccept => exact handleTcpAccept_tells hroom h
  | handleTcpConError => exact handleTcpConError_tells h
  | handleTcpConRead => exact handleTcpConRead_tells h
  | handleTcpConWrite => exact handleTcpConWrite_tells
  | handleTcpConnectError => exact handleTcpConnectError_tells h
  | handleTcpConnectWrite => exact handleTcpConnectWrite_tells h

theorem callIf_tells (hroom : σ.Room) (h : σ.Has P id)
    (callback : Option Handler) : σ.Tells P Q (σ.callIf callback id ans) := by
  cases callback with
  | some callback => exact call_tells hroom h callback
  | none => exact tells_self

/-- What a record of a key runs is for the object that is found under it. -/
theorem poll_tells (hroom : σ.Room) (h : ∀ id, σ.getObject key = some id → σ.Has P id)
    (event : Record) : σ.Tells P Q (σ.poll key event ans) := by
  unfold poll
  split
  · exact tells_self
  next id hslot =>
  apply tells_bind
  intro o hget
  split
  · exact tells_self
  next hkey =>
  have hhas : σ.Has P id := by
    apply h
    have hkey : o.key = key := not_not.mp hkey
    simp [getObject, hslot, heap_of_get hget, hkey]
  split
  · split
    · exact call_tells hroom hhas _
    · trivial
  have hrest (τ : CNetwork) (hroom : τ.Room) (hhas : τ.Has P id) : τ.Tells P Q (do
      let o ← τ.get id
      if (event.writable || event.hup) && o.hasWriting then τ.callIf o.writeCallback id ans
      else .ok τ) := by
    apply tells_bind
    intro o _
    split
    · exact callIf_tells hroom hhas _
    · exact tells_self
  split
  · apply Tells.bind
    · exact callIf_tells hroom hhas _
    · exact fun _ τ htold => hrest τ (htold.room hroom) (htold.has hhas)
  · exact hrest σ hroom hhas

/-! ### Events -/

theorem processDataEvent_tells (h : ∀ id, σ.getObject key = some id → σ.Has P id) :
    σ.Tells P Q (σ.processDataEvent key ans) := by
  unfold processDataEvent
  split
  · next id hget =>
    refine tells_bind fun _ _ => tells_bind fun _ _ => ?_
    split
    · exact tcpSend_tells (h id hget)
    · exact tells_self
    · trivial
  · exact tells_self

theorem clear_tells (hinv : σ.Inv) {group : Int}
    (h : ∀ objs, σ.getGroupObject group = .ok objs → ∀ id ∈ objs, σ.Has P id) :
    σ.Tells P Q (σ._clear group) := by
  apply tells_bind
  intro objs hobjs
  have hfold : Outcome (fun _ => True) (fun τ => τ.Inv ∧ ∃ new, Told P Q new σ τ)
      (objs.foldlM (fun σ object => do
        let o ← σ.get object
        σ._close o.key) σ) := by
    apply Outcome.foldlM objs ⟨hinv, _, .refl P Q σ⟩
    rintro τ ⟨hτ, new, htold⟩ id hid
    have hhas : τ.Has P id := htold.has (h objs hobjs id hid)
    have ⟨o, hheap, _⟩ := hhas
    rw [get_eq hheap, ok_bind]
    have hgoes : Outcome Foreign (Goes false (fun _ _ => False) τ) (τ._close o.key) :=
      close_goes hτ o.key
    have htells := htold.tells (close_tells (hτ.has_of_getObject hheap hhas))
    cases hclose : τ._close o.key with
    | error f => trivial
    | ok υ =>
      rw [hclose] at hgoes htells
      exact ⟨hgoes.inv hτ, htells⟩
  exact hfold.mono fun _ hτ => hτ.2

/-! ### Steps -/

/-- The object that is found under a key has the protocol `p`. -/
def Reaches (σ : CNetwork) (key : UInt32) (p : IOProtocol) : Prop :=
  ∃ id, σ.getObject key = some id ∧ σ.Holds id p

/-- What the network thread does with an event can be about the protocol `p`.  A connector is only
taken in with its event. -/
def EventConcerns (σ : CNetwork) (p : IOProtocol) : IOEvent → Prop
  | .listen _ protocol => protocol = p
  | .connect _ _ => False
  | .data key | .close key => σ.Reaches key p
  | .clear group => ∃ objs, σ.getGroupObject group = .ok objs ∧ ∃ id ∈ objs, σ.Holds id p

/-- A step of the network thread can be about the protocol `p`. -/
def Concerns (σ : CNetwork) (a : Action) (p : IOProtocol) : Prop :=
  match a with
  | .dispatch _ => ∃ event, σ.eventQueue.head? = some event ∧ σ.EventConcerns p event
  | .poll key _ _ => σ.Reaches key p
  | .fire con _ _ => σ.Holds con p
  | .listen _ _ _ _ _ | .connect _ _ _ _ _ | .push _ | .pushKey _ | .recycle _ => False

/-- The network thread has the protocol `p`, or an event is queued that brings it. -/
def Known (σ : CNetwork) (p : IOProtocol) : Prop :=
  (∃ id, σ.Holds id p) ∨ ∃ event ∈ σ.eventQueue, event.protocol = some p

theorem known_of_concerns {a : Action} (h : σ.Concerns a p) : σ.Known p := by
  cases a with
  | dispatch ans =>
    obtain ⟨event, hhead, h⟩ := h
    cases event with
    | listen port protocol => exact .inr ⟨_, List.mem_of_head? hhead, congrArg some h⟩
    | connect address protocol => exact h.elim
    | data key => exact .inl (h.imp fun _ => And.right)
    | close key => exact .inl (h.imp fun _ => And.right)
    | clear group =>
      obtain ⟨objs, -, id, -, hholds⟩ := h
      exact .inl ⟨id, hholds⟩
  | poll key event ans => exact .inl (h.imp fun _ => And.right)
  | fire con timer ans => exact .inl ⟨con, h⟩
  | listen port id protocolType group key => exact h.elim
  | connect address id protocolType group key => exact h.elim
  | push event => exact h.elim
  | pushKey key => exact h.elim
  | recycle object => exact h.elim

theorem Inv.room (h : σ.Inv) : σ.Room := by
  intro id hle
  cases hheap : σ.heap id with
  | none => rfl
  | some o => exact absurd (h.held id o hheap).1 (Nat.not_lt.mpr hle)

omit [KeyPool] in
theorem has_of_heap (hheap : σ.heap id = some o) (h : ∀ p, σ.Holds id p → P p) : σ.Has P id :=
  ⟨o, hheap, fun p hp => h p ⟨o, hheap, hp⟩⟩

theorem Inv.has_of_reaches (h : σ.Inv) (hP : ∀ p, σ.Reaches key p → P p) (id : ObjectId)
    (hget : σ.getObject key = some id) : σ.Has P id := by
  obtain ⟨o, hin, -⟩ := h.inTable_of_getObject hget
  exact has_of_heap hin.heap fun p hp => hP p ⟨id, hget, hp⟩

theorem dispatchProcess_tells (h : σ.Inv) {event : IOEvent}
    (hP : ∀ p, σ.EventConcerns p event → P p) (hQ : ∀ p, event.protocol = some p → Q p) :
    σ.Tells P Q (σ.dispatchProcess event ans) := by
  cases event with
  | listen port protocol =>
    simp only [dispatchProcess, processListen]
    split
    · exact tcpListen_tells h.room (hP _ rfl) (hQ _ rfl) port
    · exact tells_self
    · trivial
  | connect address protocol =>
    simp only [dispatchProcess, processConnect]
    split
    · exact tcpConnect_tells h.room (hQ _ rfl) address
    · exact tells_self
    · trivial
  | data key => exact processDataEvent_tells (h.has_of_reaches hP)
  | close key => exact close_tells (h.has_of_reaches hP)
  | clear group =>
    apply clear_tells h
    intro objs hobjs id hid
    have hall := getGroupObject_outcome h group
    rw [hobjs] at hall
    obtain ⟨o, hheap⟩ := Option.isSome_iff_exists.mp (hall id hid)
    exact has_of_heap hheap fun p hp => hP p ⟨objs, hobjs, id, hid, hp⟩

/-- What protocols are told between `σ` and `τ` is about `P`, and those that are known in `τ` were known
or are told that they were accepted. -/
def Tidings (P : IOProtocol → Prop) (σ τ : CNetwork) : Prop :=
  ∃ new, τ.notices = σ.notices ++ new ∧ (∀ call ∈ new, About P call) ∧
    ∀ p, τ.Known p → σ.Known p ∨ ∃ q, (p, .onAccept q) ∈ new

omit [KeyPool] in
theorem Told.tidings (h : Told P Q new σ τ) (hknown : ∀ p, Q p → σ.Known p) : Tidings P σ τ := by
  refine ⟨new, h.notices, h.about, ?_⟩
  rintro p (⟨id, hid⟩ | ⟨event, hmem, hevent⟩)
  · rcases h.holds id p hid with hold | hq | hnew
    · exact .inl (.inl hold)
    · exact .inl (hknown p hq)
    · exact .inr hnew
  · exact .inl (.inr ⟨event, h.queue event hmem, hevent⟩)

omit [KeyPool] in
/-- Nothing is told, and no protocol becomes known. -/
theorem tidings_of_known (hnotices : τ.notices = σ.notices) (hknown : ∀ p, τ.Known p → σ.Known p) :
    Tidings P σ τ :=
  ⟨[], hnotices.trans (List.append_nil _).symm, fun _ h => absurd h List.not_mem_nil,
    fun p hp => .inl (hknown p hp)⟩

omit [KeyPool] in
theorem known_pushEvent {event : IOEvent} (hevent : event.protocolKey = none)
    (h : (σ.pushEvent event).Known p) : σ.Known p := by
  rcases h with hholds | ⟨e, he, hp⟩
  · exact .inl hholds
  · rcases List.mem_append.mp he with he | he
    · exact .inr ⟨e, he, hp⟩
    · obtain rfl := List.mem_singleton.mp he
      cases e with
      | listen port protocol => cases hevent
      | connect address protocol => cases hevent
      | data key => cases hp
      | close key => cases hp
      | clear group => cases hp

omit [KeyPool] in
theorem known_recycle (h : (σ.recycle id).Known p) : σ.Known p := by
  cases hheap : σ.heap id with
  | none => simpa [recycle, hheap] using h
  | some o =>
    simp only [recycle, hheap] at h
    rcases h with ⟨id', o', ho', hp⟩ | hqueue
    · dsimp only at ho'
      rw [Function.update_apply] at ho'
      split at ho'
      · cases ho'
      · exact .inl ⟨id', o', ho', hp⟩
    · exact .inr hqueue

omit [KeyPool] in
theorem told_rest {rest : List IOEvent} (h : ∀ e ∈ rest, e ∈ σ.eventQueue) :
    Told P Q [] σ { σ with eventQueue := rest } :=
  told_of_heap rfl rfl rfl h

theorem dispatch_tells (h : σ.Inv) (ans : Answers) :
    σ.Tells (σ.Concerns (.dispatch ans))
      (fun p => ∃ event ∈ σ.eventQueue, event.protocol = some p) (σ.dispatch ans) := by
  unfold dispatch
  split
  · next event rest hqueue =>
    have hrest : ∀ e ∈ rest, e ∈ σ.eventQueue := fun e he => hqueue ▸ List.mem_cons_of_mem event he
    apply (told_rest hrest).tells
    apply dispatchProcess_tells (h.popEvent hqueue).1.inv
    · intro p hp
      have hp : σ.EventConcerns p event := by cases event <;> exact hp
      exact ⟨event, by rw [hqueue, List.head?_cons], hp⟩
    · exact fun p hp => ⟨event, hqueue ▸ List.mem_cons_self, hp⟩
  · exact tells_self

theorem exec_tidings {a : Action} (h : σ.Inv) (hpre : σ.Pre a) (ha : ¬a.Publishes)
    (hexec : σ.exec a = .ok τ) : Tidings (σ.Concerns a) σ τ := by
  cases a with
  | listen port id protocolType group key => exact (ha trivial).elim
  | connect address id protocolType group key => exact (ha trivial).elim
  | push event =>
    obtain rfl := Except.ok.inj hexec
    exact tidings_of_known rfl fun _ => known_pushEvent hpre
  | pushKey key =>
    obtain rfl := Except.ok.inj hexec
    exact tidings_of_known rfl fun _ hp => hp
  | recycle object =>
    obtain rfl := Except.ok.inj hexec
    refine tidings_of_known ?_ fun _ => known_recycle
    unfold recycle
    split
    · rfl
    · rfl
  | dispatch ans =>
    have htells := dispatch_tells h ans
    rw [show σ.dispatch ans = .ok τ from hexec] at htells
    obtain ⟨new, htold⟩ := htells
    exact htold.tidings fun p hp => .inr hp
  | poll key event ans =>
    have htells : σ.Tells (σ.Reaches key) (fun _ => False) (σ.poll key event ans) :=
      poll_tells h.room (h.has_of_reaches fun _ hp => hp) event
    rw [show σ.poll key event ans = .ok τ from hexec] at htells
    obtain ⟨new, htold⟩ := htells
    exact htold.tidings fun p hp => hp.elim
  | fire con timer ans =>
    obtain ⟨o, hheap, -⟩ := hpre
    have htells : σ.Tells (σ.Holds con) (fun _ => False) (σ.fire con timer ans) :=
      fire_tells h (has_of_heap hheap fun _ hp => hp) timer
    rw [show σ.fire con timer ans = .ok τ from hexec] at htells
    obtain ⟨new, htold⟩ := htells
    exact htold.tidings fun p hp => hp.elim

end CNetwork

end ZlNet.Network
