import ZlNet.Network.Proof.Send

/-! What a function of the network thread takes and what it gives back: the keys that it takes and
the protocols that it tells that they were accepted, the sockets of connectors, and the timers of
those that wait before they connect again. -/

namespace ZlNet.Network

open Lib Lib.Word IOObject

/-- The key of a protocol that is told that it was accepted. -/
def acceptedKey (call : IOProtocol × Notice) : Option UInt32 :=
  match call.2 with
  | .onAccept _ => some call.1.key
  | .onListen _ | .onUnlisten | .onClose | .onConnect _ | .onDisConnect => none

/-- A connection was accepted and a key taken for it, but no protocol was made that could have it. -/
def Answers.Leaks (ans : Answers) : Prop :=
  ans.accepted ≠ none ∧ ans.key ≠ 0 ∧ ans.created = none

namespace IOObject

/-- The object keeps its type and its protocol, gets no socket but one of `S`, and does not start to
wait. -/
structure Revised (S : Int → Prop) (o o' : IOObject) : Prop where
  type : o'.type = o.type
  protocol : o'.protocol = o.protocol
  socket : ∀ e', o'.endPoint = some e' →
    S e'.socket ∨ ∃ e, o.endPoint = some e ∧ e.socket = e'.socket
  timers : ∀ a, .reconnect a ∈ o'.timers → .reconnect a ∈ o.timers

variable {S : Int → Prop} {o o' : IOObject}

theorem Revised.of_same (htype : o'.type = o.type) (hprotocol : o'.protocol = o.protocol)
    (hend : o'.endPoint = o.endPoint) (htimers : o'.timers = o.timers) : Revised S o o' where
  type := htype
  protocol := hprotocol
  socket e' he' := .inr ⟨e', hend ▸ he', rfl⟩
  timers _ ha := htimers ▸ ha

theorem Revised.updateObject (h : Revised S o o') (events : Nat) :
    Revised S o (o'.updateObject events) := by
  unfold IOObject.updateObject
  split
  · exact ⟨h.type, h.protocol, h.socket, h.timers⟩
  · exact ⟨h.type, h.protocol, h.socket, h.timers⟩

/-- An object that writes to its socket, and perhaps shuts it. -/
theorem Revised.of_socket {e e' : CEndPoint} (htype : o'.type = o.type)
    (hprotocol : o'.protocol = o.protocol) (hend : o.endPoint = some e)
    (hend' : o'.endPoint = some e') (hsocket : e'.socket = e.socket) (htimers : o'.timers = o.timers) :
    Revised S o o' where
  type := htype
  protocol := hprotocol
  socket e₁ he₁ := .inr ⟨e, hend, by rw [← Option.some.inj (hend'.symm.trans he₁), hsocket]⟩
  timers _ ha := htimers ▸ ha

/-- An object that starts a timer other than that for connecting again. -/
theorem Revised.startTimer (h : Revised S o o') {timer : Timer}
    (htimer : ∀ a, timer ≠ .reconnect a) : Revised S o (o'.startTimer timer) where
  type := h.type
  protocol := h.protocol
  socket := h.socket
  timers a ha := by
    rcases List.mem_append.mp ha with ha | ha
    · exact h.timers a ha
    · exact absurd (List.mem_singleton.mp ha).symm (htimer a)

end IOObject

namespace CNetwork

/-- From `σ` to `τ` the keys that are taken are those of protocols that are told that they were
accepted, unless `L`; every connector has the socket that it had or one of `S`; and one that waits
to connect again did so before, or its protocol was told that it failed. -/
structure Accounts (S : Int → Prop) (L : Prop) (σ τ : CNetwork) : Prop where
  keys : ∃ new, τ.notices = σ.notices ++ new ∧
    (¬L → τ.outstanding.Perm (new.filterMap acceptedKey ++ σ.outstanding))
  sockets : ∀ id o' e', τ.heap id = some o' → o'.type = .CONNECTOR → o'.endPoint = some e' →
    S e'.socket ∨ ∃ o e, σ.heap id = some o ∧ o.type = .CONNECTOR ∧ o.endPoint = some e ∧
      e.socket = e'.socket
  waiting : ∀ id o' a, τ.heap id = some o' → .reconnect a ∈ o'.timers →
    (∃ o, σ.heap id = some o ∧ o.protocol = o'.protocol ∧ .reconnect a ∈ o.timers) ∨
      ∃ p, o'.protocol = some p ∧ (p, .onConnect false) ∈ τ.notices
  clean : (∀ o ∈ σ.pool, o.timers = []) → ∀ o ∈ τ.pool, o.timers = []

/-- Whatever `x` returns, it accounts for what it takes. -/
def Balances (σ : CNetwork) (S : Int → Prop) (L : Prop) (x : Except Fault CNetwork) : Prop :=
  Outcome (fun _ => True) (Accounts S L σ) x

section

variable {σ τ υ : CNetwork} {S : Int → Prop} {L : Prop} {id : ObjectId} {o o' : IOObject}
  {p : IOProtocol} {x : Except Fault CNetwork}

theorem Accounts.refl (S : Int → Prop) (L : Prop) (σ : CNetwork) : Accounts S L σ σ where
  keys := ⟨[], (List.append_nil _).symm, fun _ => .refl _⟩
  sockets _ o' e' ho' htype he' := .inr ⟨o', e', ho', htype, he', rfl⟩
  waiting _ o' _ ho' ha := .inl ⟨o', ho', rfl, ha⟩
  clean h := h

theorem Accounts.trans (h : Accounts S L σ τ) (h' : Accounts S L τ υ) : Accounts S L σ υ where
  keys := by
    obtain ⟨new, hnew, hkeys⟩ := h.keys
    obtain ⟨new', hnew', hkeys'⟩ := h'.keys
    refine ⟨new ++ new', by rw [hnew', hnew, List.append_assoc], fun hL => ?_⟩
    have hperm := (hkeys' hL).trans ((hkeys hL).append_left _)
    rw [← List.append_assoc] at hperm
    rw [List.filterMap_append]
    exact hperm.trans (List.perm_append_comm.append_right _)
  sockets id o₂ e₂ ho₂ htype₂ he₂ := by
    rcases h'.sockets id o₂ e₂ ho₂ htype₂ he₂ with hS | ⟨o₁, e₁, ho₁, htype₁, he₁, heq₁⟩
    · exact .inl hS
    · rw [← heq₁]
      exact h.sockets id o₁ e₁ ho₁ htype₁ he₁
  waiting id o₂ a ho₂ ha₂ := by
    rcases h'.waiting id o₂ a ho₂ ha₂ with ⟨o₁, ho₁, hp₁, ha₁⟩ | htold
    · rcases h.waiting id o₁ a ho₁ ha₁ with ⟨o, ho, hp, ha⟩ | ⟨p, hp, htold⟩
      · exact .inl ⟨o, ho, hp.trans hp₁, ha⟩
      · obtain ⟨new', hnew', -⟩ := h'.keys
        exact .inr ⟨p, hp₁ ▸ hp, hnew' ▸ List.mem_append_left _ htold⟩
    · exact .inr htold
  clean hpool := h'.clean (h.clean hpool)

theorem Accounts.mono {L' : Prop} (h : Accounts S L σ τ) (hL : L → L') : Accounts S L' σ τ where
  keys := by
    obtain ⟨new, hnew, hkeys⟩ := h.keys
    exact ⟨new, hnew, fun hL' => hkeys (mt hL hL')⟩
  sockets := h.sockets
  waiting := h.waiting
  clean := h.clean

theorem Accounts.balances (h : Accounts S L σ τ) (hx : τ.Balances S L x) : σ.Balances S L x :=
  hx.mono fun _ => h.trans

theorem balances_self : σ.Balances S L (.ok σ) := Accounts.refl S L σ

theorem Balances.bind {f : CNetwork → Except Fault CNetwork} (h : σ.Balances S L x)
    (hf : ∀ τ, Accounts S L σ τ → τ.Balances S L (f τ)) : σ.Balances S L (x >>= f) :=
  Outcome.bind h fun τ hτ => hτ.balances (hf τ hτ)

/-- A computation that goes on after a part that leaves the state alone. -/
theorem balances_bind {α : Type} {y : Except Fault α} {f : α → Except Fault CNetwork}
    (h : ∀ a, y = .ok a → σ.Balances S L (f a)) : σ.Balances S L (y >>= f) :=
  Outcome.bind_any h

theorem accounts_put (hheap : σ.heap id = some o) (h : Revised S o o') :
    Accounts S L σ (σ.put id o') where
  keys := ⟨[], (List.append_nil _).symm, fun _ => .refl _⟩
  sockets id₁ o₁ e₁ ho₁ htype₁ he₁ := by
    by_cases heq : id₁ = id
    · subst heq
      obtain rfl := Option.some.inj ((σ.put_heap_self id₁ o').symm.trans ho₁)
      refine (h.socket e₁ he₁).imp_right ?_
      rintro ⟨e, he, hsocket⟩
      exact ⟨o, e, hheap, h.type ▸ htype₁, he, hsocket⟩
    · exact .inr ⟨o₁, e₁, (σ.put_heap_ne o' heq).symm.trans ho₁, htype₁, he₁, rfl⟩
  waiting id₁ o₁ a ho₁ ha := by
    by_cases heq : id₁ = id
    · subst heq
      obtain rfl := Option.some.inj ((σ.put_heap_self id₁ o').symm.trans ho₁)
      exact .inl ⟨o, hheap, h.protocol.symm, h.timers a ha⟩
    · exact .inl ⟨o₁, (σ.put_heap_ne o' heq).symm.trans ho₁, rfl, ha⟩
  clean h := h

/-- What has the same objects takes no keys. -/
theorem accounts_of_heap (hheap : τ.heap = σ.heap) (hpool : τ.pool = σ.pool)
    (hnotices : τ.notices = σ.notices) (hkeys : ¬L → τ.outstanding = σ.outstanding) :
    Accounts S L σ τ where
  keys := ⟨[], hnotices.trans (List.append_nil _).symm, fun hL => .of_eq (hkeys hL)⟩
  sockets _ o' e' ho' htype he' := .inr ⟨o', e', hheap ▸ ho', htype, he', rfl⟩
  waiting _ o' _ ho' ha := .inl ⟨o', hheap ▸ ho', rfl, ha⟩
  clean h := hpool ▸ h

theorem accounts_notify {notice : Notice} (h : acceptedKey (p, notice) = none) :
    Accounts S L σ (σ.notify p notice) where
  keys := ⟨[(p, notice)], rfl, fun _ => by simp [h, notify]⟩
  sockets _ o' e' ho' htype he' := .inr ⟨o', e', ho', htype, he', rfl⟩
  waiting _ o' _ ho' ha := .inl ⟨o', ho', rfl, ha⟩
  clean h := h

/-- An object that waits to connect again, once its protocol has been told that it failed. -/
theorem accounts_fails (hp : o'.protocol = some p) (hend : o'.endPoint = none) :
    Accounts S L σ ((σ.notify p (.onConnect false)).put id o') where
  keys := ⟨[(p, .onConnect false)], rfl, fun _ => .refl _⟩
  sockets id₁ o₁ e₁ ho₁ htype₁ he₁ := by
    by_cases heq : id₁ = id
    · subst heq
      obtain rfl := Option.some.inj ((put_heap_self _ id₁ o').symm.trans ho₁)
      rw [hend] at he₁
      cases he₁
    · exact .inr ⟨o₁, e₁, (put_heap_ne _ o' heq).symm.trans ho₁, htype₁, he₁, rfl⟩
  waiting id₁ o₁ a ho₁ ha := by
    by_cases heq : id₁ = id
    · subst heq
      obtain rfl := Option.some.inj ((put_heap_self _ id₁ o').symm.trans ho₁)
      exact .inr ⟨p, hp, List.mem_append_right _ (List.mem_singleton_self _)⟩
    · exact .inl ⟨o₁, (put_heap_ne _ o' heq).symm.trans ho₁, rfl, ha⟩
  clean h := h

/-- The object that the pool gives is of the type that is asked for, and the pool keeps none that it
did not have. -/
theorem fromPool_type (type : EIOOBJECT_TYPE) (reused : Option Nat) :
    (σ.fromPool type reused).1.type = type ∧
      ((σ.fromPool type reused).1.timers = [] ∨ (σ.fromPool type reused).1 ∈ σ.pool) ∧
      ∀ o ∈ (σ.fromPool type reused).2, o ∈ σ.pool := by
  unfold fromPool
  split
  · next o hsome =>
    obtain ⟨i, -, hi⟩ := Option.bind_eq_some_iff.mp hsome
    split
    · next htype => exact ⟨htype, .inr (List.mem_of_getElem? hi), fun _ => List.mem_of_mem_erase⟩
    · exact ⟨rfl, .inl rfl, fun _ ho => ho⟩
  · exact ⟨rfl, .inl rfl, fun _ ho => ho⟩

theorem accounts_create (hclean : ∀ o ∈ σ.pool, o.timers = []) {type : EIOOBJECT_TYPE}
    {endPoint : CEndPoint} {reused : Option Nat} (hS : type = .CONNECTOR → S endPoint.socket) :
    Accounts S L σ (σ.create type p endPoint reused) := by
  obtain ⟨htype, htimers, hsub⟩ := fromPool_type (σ := σ) type reused
  have htimers : (σ.fromPool type reused).1.timers = [] := htimers.elim id fun h => hclean _ h
  refine ⟨⟨[], (List.append_nil _).symm, fun _ => .refl _⟩, fun id₁ o₁ e₁ ho₁ htype₁ he₁ => ?_,
    fun id₁ o₁ a ho₁ ha => ?_, fun _ o ho => hclean o (hsub o ho)⟩
  · by_cases heq : id₁ = σ.created
    · subst heq
      obtain rfl := Option.some.inj ((σ.put_heap_self σ.created _).symm.trans ho₁)
      obtain rfl := Option.some.inj he₁
      exact .inl (hS (htype.symm.trans htype₁))
    · exact .inr ⟨o₁, e₁, (σ.put_heap_ne _ heq).symm.trans ho₁, htype₁, he₁, rfl⟩
  · by_cases heq : id₁ = σ.created
    · subst heq
      obtain rfl := Option.some.inj ((σ.put_heap_self σ.created _).symm.trans ho₁)
      have ha : Timer.reconnect a ∈ (σ.fromPool type reused).1.timers := ha
      rw [htimers] at ha
      cases ha
    · exact .inl ⟨o₁, (σ.put_heap_ne _ heq).symm.trans ho₁, rfl, ha⟩

theorem notifyProtocol_balances {notice : Notice} (h : ∀ p, acceptedKey (p, notice) = none) :
    σ.Balances S L (σ.notifyProtocol o notice) :=
  balances_bind fun p _ => accounts_notify (h p)

theorem startDisconnecting_balances : σ.Balances S L (σ.startDisconnecting id) := by
  apply balances_bind
  intro o hget
  have hheap := heap_of_get hget
  dsimp only
  split
  · refine accounts_put hheap (.startTimer ?_ (by simp))
    exact .of_same rfl rfl rfl rfl
  · apply balances_bind
    intro endPoint hend
    refine accounts_put hheap (.startTimer ?_ (by simp))
    exact .of_socket rfl rfl (of_nonNull hend) rfl rfl rfl

end

variable [KeyPool] {σ τ : CNetwork} {S : Int → Prop} {L : Prop} {id : ObjectId} {o : IOObject}
  {p : IOProtocol} {key : UInt32} {ans : Answers}

/-! ### Closing -/

theorem removeObject_balances (key : UInt32) : σ.Balances S L (σ.removeObject key) := by
  simp only [removeObject]
  split
  · exact balances_bind fun _ _ => balances_bind fun _ _ =>
      accounts_of_heap rfl rfl rfl fun _ => rfl
  · trivial

theorem removeTcpCon_balances : σ.Balances S L (σ.removeTcpCon id) := by
  apply balances_bind
  intro o hget
  have hput : Accounts S L σ (σ.put id { o with state := .DISCONNECTED }.deregisterObject) :=
    accounts_put (heap_of_get hget) (.of_same rfl rfl rfl rfl)
  exact hput.balances (removeObject_balances o.key)

theorem removeTcpListen_balances : σ.Balances S L (σ.removeTcpListen id) := by
  apply balances_bind
  intro o hget
  have hput : Accounts S L σ (σ.put id o.deregisterObject) :=
    accounts_put (heap_of_get hget) (.of_same rfl rfl rfl rfl)
  exact hput.balances (removeObject_balances o.key)

theorem tcpCloseListen_balances : σ.Balances S L (σ.tcpCloseListen id) := by
  apply balances_bind
  intro o _
  apply Balances.bind
  · exact notifyProtocol_balances fun _ => rfl
  · exact fun _ _ => removeTcpListen_balances

/-- What both ways to close a connection do after telling its protocol. -/
theorem close_tail_balances (force : Bool) (state : EConnectState) :
    σ.Balances S L (if force then σ.removeTcpCon id
      else if state = .DISCONNECTING then .ok σ else σ.startDisconnecting id) := by
  split
  · exact removeTcpCon_balances
  · split
    · exact balances_self
    · exact startDisconnecting_balances

theorem tcpCloseConnection_balances (force : Bool) :
    σ.Balances S L (σ.tcpCloseConnection id force) := by
  simp only [tcpCloseConnection]
  apply balances_bind
  intro o _
  refine balances_bind fun _ _ => balances_bind fun _ _ => ?_
  split
  · apply Balances.bind
    · exact notifyProtocol_balances fun _ => rfl
    · exact fun _ _ => close_tail_balances force o.state
  · exact close_tail_balances force o.state

theorem tcpCloseConnector_balances (force : Bool) :
    σ.Balances S L (σ.tcpCloseConnector id force) := by
  simp only [tcpCloseConnector]
  apply balances_bind
  intro o _
  refine balances_bind fun _ _ => ?_
  split
  · apply Balances.bind
    · exact notifyProtocol_balances fun _ => rfl
    · exact fun _ _ => removeTcpCon_balances
  split
  · apply Balances.bind
    · exact notifyProtocol_balances fun _ => rfl
    · exact fun _ _ => close_tail_balances force o.state
  · exact close_tail_balances force o.state

theorem tcpCloseCon_balances (force : Bool) : σ.Balances S L (σ.tcpCloseCon id force) := by
  apply balances_bind
  intro o _
  split
  · exact tcpCloseConnection_balances force
  · exact tcpCloseConnector_balances force

theorem tcpClose_balances (force : Bool) : σ.Balances S L (σ.tcpClose key force) := by
  refine balances_bind fun object _ => balances_bind fun o _ => ?_
  split
  · exact tcpCloseListen_balances
  · exact tcpCloseConnection_balances force
  · exact tcpCloseConnector_balances force
  · trivial

theorem close_balances (key : UInt32) : σ.Balances S L (σ._close key) := by
  unfold _close
  split
  · refine balances_bind fun _ _ => balances_bind fun _ _ => ?_
    split
    · exact tcpClose_balances false
    · exact balances_self
    · trivial
  · exact balances_self

/-! ### Connections -/

omit [KeyPool] in
theorem onNewConnection_balances : σ.Balances S L (σ.onNewConnection id) := by
  apply balances_bind
  intro o hget
  refine accounts_put (heap_of_get hget) (.startTimer ?_ (by simp))
  exact .of_same rfl rfl rfl rfl

theorem handleTcpConError_balances : σ.Balances S L (σ.handleTcpConError id) :=
  balances_bind fun _ _ => balances_bind fun _ _ => tcpCloseCon_balances true

theorem handleTcpConRead_balances : σ.Balances S L (σ.handleTcpConRead id ans) := by
  apply balances_bind
  intro con hcon
  refine balances_bind fun _ _ => balances_bind fun _ _ => ?_
  split
  · exact tcpCloseCon_balances true
  · apply balances_bind
    intro inputBuffer _
    have hput : Accounts S L σ
        (σ.put id { con with inputBuffer := (ans.onUnserialize inputBuffer).2 }) :=
      accounts_put (heap_of_connection hcon) (.of_same rfl rfl rfl rfl)
    dsimp only
    split
    · exact hput
    · exact hput.balances (tcpCloseCon_balances true)
  · exact balances_self

omit [KeyPool] in
theorem handleTcpConWrite_balances : σ.Balances S L (σ.handleTcpConWrite id ans) := by
  simp only [handleTcpConWrite]
  apply balances_bind
  intro con hcon
  have hheap := heap_of_connection hcon
  generalize toInt32 con.outBuffer.size = size
  refine balances_bind fun _ _ => balances_bind fun _ _ => balances_bind fun _ _ => ?_
  apply balances_bind
  intro endPoint hend
  have hend := of_nonNull hend
  split
  · apply balances_bind
    intro outBuffer _
    refine accounts_put hheap (.updateObject ?_ _)
    refine .of_socket rfl rfl hend rfl ?_ rfl
    split <;> rfl
  · split
    · exact balances_bind fun _ _ => accounts_put hheap (.of_socket rfl rfl hend rfl rfl rfl)
    · exact accounts_put hheap (.of_socket rfl rfl hend rfl rfl rfl)

theorem tcpSend_balances : σ.Balances S L (σ.tcpSend id ans) := by
  apply balances_bind
  intro con hget
  have hheap := heap_of_get hget
  apply balances_bind
  intro _ _
  split
  · exact balances_self
  split
  · exact tcpCloseCon_balances true
  split
  · trivial
  dsimp only
  split
  · exact balances_self
  apply balances_bind
  intro endPoint hend
  have hend := of_nonNull hend
  split
  · apply balances_bind
    intro outBuffer _
    split
    · exact accounts_put hheap (.of_socket rfl rfl hend rfl rfl rfl)
    · refine accounts_put hheap (.updateObject ?_ _)
      exact .of_socket rfl rfl hend rfl rfl rfl
  · exact accounts_put hheap (.of_socket rfl rfl hend rfl rfl rfl)

/-! ### New objects -/

theorem accounts_addObject (h : σ.addObject id = .ok τ) : Accounts S L σ τ := by
  obtain ⟨o, -, h⟩ := of_bind_ok h
  obtain ⟨-, -, h⟩ := of_bind_ok h
  obtain rfl := Except.ok.inj h
  exact accounts_of_heap rfl rfl rfl fun _ => rfl

/-- What is in the heap stays there when an object is put in the table. -/
theorem heap_addObject (h : σ.addObject id = .ok τ) : τ.heap = σ.heap := by
  obtain ⟨o, -, h⟩ := of_bind_ok h
  obtain ⟨-, -, h⟩ := of_bind_ok h
  obtain rfl := Except.ok.inj h
  rfl

theorem tcpListen_balances (hclean : ∀ o ∈ σ.pool, o.timers = []) (port : UInt16) :
    σ.Balances S L (σ.tcpListen port p ans) := by
  have htell (τ : CNetwork) (b : Bool) : τ.Balances S L (.ok (τ.notify p (.onListen b))) :=
    accounts_notify rfl
  simp only [tcpListen]
  split
  · exact htell σ false
  have hcreate : Accounts S L σ
      (σ.create .LISTENER p ⟨ans.socket, ⟨INADDR_ANY, port⟩, []⟩ ans.reused) :=
    accounts_create hclean (by simp)
  apply hcreate.balances
  generalize σ.create .LISTENER p ⟨ans.socket, ⟨INADDR_ANY, port⟩, []⟩ ans.reused = τ
  generalize σ.created = listener
  apply balances_bind
  intro o hget
  let o₁ : IOObject := { o with
    errorCallback := some .defaultErrorHandle, readCallback := some .handleTcpAccept }
  have hput : Accounts S L τ (τ.put listener o₁) :=
    accounts_put (heap_of_get hget) (.of_same rfl rfl rfl rfl)
  apply hput.balances
  apply balances_bind
  intro endPoint _
  split
  · exact htell _ false
  split
  · exact htell _ false
  have hput : Accounts S L (τ.put listener o₁)
      ((τ.put listener o₁).put listener o₁.registerReadHandler) :=
    accounts_put (τ.put_heap_self listener o₁) (.updateObject (.of_same rfl rfl rfl rfl) _)
  apply hput.balances
  apply balances_bind
  intro τ hadd
  exact (accounts_addObject hadd).balances (htell τ true)

theorem tcpConnect_balances (hclean : ∀ o ∈ σ.pool, o.timers = []) (hS : S ans.socket)
    (address : CAddress) : σ.Balances S L (σ.tcpConnect address p ans) := by
  simp only [tcpConnect]
  have hcreate : Accounts S L σ (σ.create .CONNECTOR p ⟨ans.socket, address, []⟩ ans.reused) :=
    accounts_create hclean fun _ => hS
  apply hcreate.balances
  generalize σ.create .CONNECTOR p ⟨ans.socket, address, []⟩ ans.reused = τ
  generalize σ.created = connect
  apply balances_bind
  intro o hget
  let o₁ : IOObject := { o with
    errorCallback := some .handleTcpConnectError, writeCallback := some .handleTcpConnectWrite }
  have hput : Accounts S L τ (τ.put connect o₁) :=
    accounts_put (heap_of_get hget) (.of_same rfl rfl rfl rfl)
  apply hput.balances
  apply balances_bind
  intro τ₁ hadd
  have hheap : τ₁.heap connect = some o₁ := by
    rw [heap_addObject hadd]
    exact τ.put_heap_self connect o₁
  apply (accounts_addObject hadd).balances
  refine accounts_put hheap (.updateObject ?_ _)
  exact .of_same rfl rfl rfl rfl

omit [KeyPool] in
/-- A key is taken, and then the protocol that has it is told that it was accepted. -/
theorem Accounts.accepted {q : IOProtocol} (h : Accounts S L (σ.popKey p.key) τ) (hne : p.key ≠ 0) :
    Accounts S L σ (τ.notify p (.onAccept q)) := by
  have hpop : σ.popKey p.key = { σ with outstanding := p.key :: σ.outstanding } := by
    rw [popKey, if_neg hne]
  rw [hpop] at h
  obtain ⟨new, hnew, hkeys⟩ := h.keys
  refine ⟨⟨new ++ [(p, .onAccept q)], ?_, fun hL => ?_⟩, h.sockets, fun id o a ho ha => ?_, h.clean⟩
  · rw [notify, hnew, List.append_assoc]
  · simpa [acceptedKey, notify] using hkeys hL
  · refine (h.waiting id o a ho ha).imp_right ?_
    rintro ⟨p', hp', htold⟩
    exact ⟨p', hp', List.mem_append_left _ htold⟩

/-- A connection that is accepted and has no protocol made for it is what keeps a key. -/
theorem handleTcpAccept_balances (hclean : ∀ o ∈ σ.pool, o.timers = []) :
    σ.Balances S ans.Leaks (σ.handleTcpAccept id ans) := by
  simp only [handleTcpAccept]
  apply balances_bind
  intro listener _
  refine balances_bind fun _ _ => balances_bind fun _ _ => ?_
  split
  · exact balances_self
  next socket address haccepted =>
  split
  · next hzero =>
    rw [popKey, if_pos hzero]
    exact balances_self
  next hne =>
  apply balances_bind
  intro fromProtocol _
  split
  · next hcreated =>
    have hleaks : ans.Leaks := ⟨by simp [haccepted], hne, hcreated⟩
    rw [popKey, if_neg hne]
    exact accounts_of_heap rfl rfl rfl fun hL => absurd hleaks hL
  next protocolId _ =>
  obtain ⟨protocol, hprotocol⟩ : ∃ q : IOProtocol, q = ⟨protocolId, .TCP, .SESSION, ans.key, 0⟩ :=
    ⟨_, rfl⟩
  have hkey : protocol.key = ans.key := by rw [hprotocol]
  rw [← hprotocol, ← hkey]
  have hcreate : Accounts S ans.Leaks (σ.popKey protocol.key)
      ((σ.popKey protocol.key).create .SESSION protocol ⟨socket, address, []⟩ ans.reused) := by
    refine accounts_create ?_ (by simp)
    rwa [popKey, if_neg (hkey ▸ hne)]
  apply balances_bind
  intro o₁ hget₁
  have hconnect : Revised S o₁ o₁.setConnected := .of_same rfl rfl rfl rfl
  have hconnected := hcreate.trans (accounts_put (heap_of_get hget₁) hconnect)
  apply balances_bind
  intro τ₁ hadd
  apply balances_bind
  intro o₂ hget₂
  have hread : Revised S o₂ o₂.registerReadHandler :=
    .updateObject (.of_same rfl rfl rfl rfl) _
  have hregistered := (hconnected.trans (accounts_addObject hadd)).trans
    (accounts_put (heap_of_get hget₂) hread)
  exact (hregistered.accepted (hkey ▸ hne)).balances onNewConnection_balances

/-! ### Connecting -/

omit [KeyPool] in
theorem onTcpConnectError_balances : σ.Balances S L (σ.onTcpConnectError id) := by
  simp only [onTcpConnectError]
  apply balances_bind
  intro o hget
  apply balances_bind
  intro endPoint _
  simp only [notifyProtocol, bind_assoc]
  apply balances_bind
  intro p hp
  exact accounts_fails (of_nonNull hp) rfl

omit [KeyPool] in
theorem handleTcpConnectError_balances : σ.Balances S L (σ.handleTcpConnectError id) := by
  refine balances_bind fun o _ => balances_bind fun _ _ => ?_
  split
  · exact onTcpConnectError_balances
  · trivial

omit [KeyPool] in
theorem handleTcpConnectWrite_balances : σ.Balances S L (σ.handleTcpConnectWrite id ans) := by
  simp only [handleTcpConnectWrite]
  apply balances_bind
  intro o hget
  split
  · trivial
  refine balances_bind fun _ _ => balances_bind fun endPoint _ => ?_
  split
  · exact onTcpConnectError_balances
  apply balances_bind
  intro self _
  split
  · exact onTcpConnectError_balances
  have hconnected : Revised S o o.deregisterObject.setConnected := .of_same rfl rfl rfl rfl
  apply (accounts_put (heap_of_get hget) (hconnected.updateObject _)).balances
  apply Balances.bind
  · exact notifyProtocol_balances fun _ => rfl
  · exact fun _ _ => onNewConnection_balances

/-! ### Timers -/

omit [KeyPool] in
theorem accounts_timerDone {timer : Timer} (h : σ.timerDone id timer = .ok τ) :
    Accounts S L σ τ := by
  obtain ⟨o, hget, h⟩ := of_bind_ok h
  obtain rfl := Except.ok.inj h
  refine accounts_put (heap_of_get hget) ⟨rfl, rfl, fun e' he' => .inr ⟨e', he', rfl⟩, ?_⟩
  exact fun a => List.mem_of_mem_erase

theorem onTimer_balances : σ.Balances S L (σ.onTimer id ans) := by
  refine balances_bind fun o _ => balances_bind fun _ _ => ?_
  split
  · exact balances_self
  · exact close_balances o.key

theorem forceClose_balances : σ.Balances S L (σ.forceClose id) := by
  apply balances_bind
  intro o _
  split
  · exact balances_self
  · exact balances_bind fun _ _ => removeTcpCon_balances

/-- A connector that is still in the table gets a new socket. -/
theorem reconnect_balances {address : CAddress}
    (hS : ∀ o, σ.heap id = some o → σ.getObject o.key ≠ none → S ans.socket) :
    σ.Balances S L (σ.reconnect id address ans) := by
  apply balances_bind
  intro o hget
  have hheap := heap_of_get hget
  split
  · exact balances_self
  next hfound =>
  split
  · trivial
  apply balances_bind
  intro _ _
  refine accounts_put hheap (.updateObject ?_ _)
  refine ⟨rfl, rfl, fun e' he' => .inl ?_, fun _ ha => ha⟩
  obtain rfl := Option.some.inj he'
  exact hS o hheap hfound

/-! ### Steps -/

/-- An attempt to connect for the protocol `p`: the first, and each that a connector of the table
makes when it has waited. -/
inductive Attempts (σ : CNetwork) : Action → IOProtocol → Answers → Prop
  | first {address : CAddress} {p : IOProtocol} {rest : List IOEvent} {ans : Answers}
      (hqueue : σ.eventQueue = .connect address p :: rest) (htcp : p.protocolType = .TCP) :
      Attempts σ (.dispatch ans) p ans
  | again {con : ObjectId} {o : IOObject} {p : IOProtocol} {address : CAddress} {ans : Answers}
      (hin : σ.InTable con o) (hp : o.protocol = some p) (htimer : .reconnect address ∈ o.timers) :
      Attempts σ (.fire con (.reconnect address) ans) p ans

/-- The record is one of a listener that is to accept a connection. -/
def Accepts (σ : CNetwork) (key : UInt32) (event : Record) : Prop :=
  event.err = false ∧ (event.readable || event.hup) = true ∧
    ∃ id o, σ.InTable id o ∧ o.key = key ∧ o.Listening

/-- The step takes a key for a connection that then has no protocol. -/
def Leaks (σ : CNetwork) (a : Action) : Prop :=
  match a with
  | .poll key event ans => σ.Accepts key event ∧ ans.Leaks
  | .listen _ _ _ _ _ | .connect _ _ _ _ _ | .push _ | .pushKey _ | .recycle _ | .dispatch _
  | .fire _ _ _ => False

/-- The only callback that takes a key is the one of a listener. -/
theorem call_balances (hclean : ∀ o ∈ σ.pool, o.timers = []) (callback : Handler)
    (hL : callback = .handleTcpAccept → ans.Leaks → L) :
    σ.Balances S L (σ.call callback id ans) := by
  cases callback with
  | weakupReadHandler => exact balances_bind fun _ _ => balances_bind fun _ _ => balances_self
  | defaultErrorHandle => exact balances_bind fun _ _ => balances_bind fun _ _ => balances_self
  | handleTcpAccept => exact (handleTcpAccept_balances hclean).mono fun _ h => h.mono (hL rfl)
  | handleTcpConError => exact handleTcpConError_balances
  | handleTcpConRead => exact handleTcpConRead_balances
  | handleTcpConWrite => exact handleTcpConWrite_balances
  | handleTcpConnectError => exact handleTcpConnectError_balances
  | handleTcpConnectWrite => exact handleTcpConnectWrite_balances

theorem callIf_balances (hclean : ∀ o ∈ σ.pool, o.timers = []) (callback : Option Handler)
    (hL : callback = some .handleTcpAccept → ans.Leaks → L) :
    σ.Balances S L (σ.callIf callback id ans) := by
  cases callback with
  | some callback => exact call_balances hclean callback fun h => hL (congrArg some h)
  | none => exact balances_self

omit [KeyPool] in
/-- A listener accepts where it reads, and only there. -/
theorem accept_callback (h : o.Settled) :
    o.errorCallback ≠ some .handleTcpAccept ∧
      (o.hasWriting = true → o.writeCallback ≠ some .handleTcpAccept) ∧
      (o.readCallback = some .handleTcpAccept → o.hasReading = true → o.Listening) := by
  cases h with
  | listening hl => simp [hl.errorCallback, hl.hasWriting, hl]
  | established hest => simp [hest.errorCallback, hest.writeCallback, hest.readCallback]
  | attempting ha => simp [ha.errorCallback, ha.writeCallback, ha.hasReading]

theorem poll_balances (h : σ.Inv) (hfree : σ.Free ans.key) (event : Record) :
    σ.Balances S (σ.Leaks (.poll key event ans)) (σ.poll key event ans) := by
  have hclean (τ : CNetwork) (hτ : τ.Inv) (o : IOObject) (ho : o ∈ τ.pool) : o.timers = [] :=
    (hτ.clean o ho).2
  unfold poll
  split
  · exact balances_self
  next id hslot =>
  obtain ⟨o, hin, -⟩ := h.inTable hslot
  have hcallback := accept_callback (h.settled hin)
  simp only [get_eq hin.heap, ok_bind]
  split
  · exact balances_self
  next hkey =>
  obtain rfl : o.key = key := by simpa using hkey
  split
  · split
    · next callback herror =>
      exact call_balances (hclean σ h) callback fun heq => absurd (heq ▸ herror) hcallback.1
    · trivial
  next herr =>
  have herr : event.err = false := by simpa using herr
  have hrest (τ : CNetwork) (hτ : σ.Leads τ) :
      τ.Balances S (σ.Leaks (.poll o.key event ans)) (do
        let o ← τ.get id
        if (event.writable || event.hup) && o.hasWriting then τ.callIf o.writeCallback id ans
        else .ok τ) := by
    obtain ⟨o', hheap⟩ := Option.isSome_iff_exists.mp (hτ.keeps id (by simp [hin.heap]))
    simp only [get_eq hheap, ok_bind]
    split
    · next hwrite =>
      have hwrite := (Bool.and_eq_true_iff.mp hwrite).2
      have hslot' := (hτ.inv.held id o' hheap).2.2.2.resolve_left (events_ne_zero hwrite)
      have hsettled := hτ.inv.settled ⟨hheap, hslot'⟩
      exact callIf_balances (hclean τ hτ.inv) _ fun heq =>
        absurd heq ((accept_callback hsettled).2.1 hwrite)
    · exact balances_self
  split
  · next hread =>
    obtain ⟨hreads, hread⟩ := Bool.and_eq_true_iff.mp hread
    have hbalances : σ.Balances S (σ.Leaks (.poll o.key event ans))
        (σ.callIf o.readCallback id ans) :=
      callIf_balances (hclean σ h) _ fun heq hleaks =>
        ⟨⟨herr, hreads, id, o, hin, rfl, hcallback.2.2 heq hread⟩, hleaks⟩
    have hgoes : Outcome Foreign (Goes true (fun _ _ => False) σ) (σ.callIf o.readCallback id ans) :=
      readCallback_goes h hin hfree hread
    cases hcall : σ.callIf o.readCallback id ans with
    | error f => trivial
    | ok τ =>
      rw [hcall] at hbalances hgoes
      exact Accounts.balances hbalances (hrest τ (hgoes.leads h))
  · exact hrest σ h.refl

theorem processDataEvent_balances : σ.Balances S L (σ.processDataEvent key ans) := by
  unfold processDataEvent
  split
  · refine balances_bind fun _ _ => balances_bind fun _ _ => ?_
    split
    · exact tcpSend_balances
    · exact balances_self
    · trivial
  · exact balances_self

theorem clear_balances (group : Int) : σ.Balances S L (σ._clear group) := by
  apply balances_bind
  intro objs _
  apply Outcome.foldlM objs (.refl S L σ)
  intro τ hτ id _
  exact hτ.balances (balances_bind fun o _ => close_balances o.key)

theorem dispatch_balances (hclean : ∀ o ∈ σ.pool, o.timers = [])
    (hS : ∀ p, σ.Attempts (.dispatch ans) p ans → S ans.socket) :
    σ.Balances S L (σ.dispatch ans) := by
  unfold dispatch
  split
  · next event rest hqueue =>
    have hpop : Accounts S L σ { σ with eventQueue := rest } :=
      accounts_of_heap rfl rfl rfl fun _ => rfl
    apply hpop.balances
    cases event with
    | listen port p =>
      simp only [dispatchProcess, processListen]
      split
      · apply tcpListen_balances
        exact hclean
      · exact balances_self
      · trivial
    | connect address p =>
      simp only [dispatchProcess, processConnect]
      split
      · next htcp =>
        apply tcpConnect_balances
        · exact hclean
        · exact hS p (.first hqueue htcp)
      · exact balances_self
      · trivial
    | data key => exact processDataEvent_balances
    | close key => exact close_balances key
    | clear group => exact clear_balances group
  · exact balances_self

theorem fire_balances (h : σ.Inv) (hheap : σ.heap id = some o) {timer : Timer}
    (htimer : timer ∈ o.timers) (hS : ∀ p, σ.Attempts (.fire id timer ans) p ans → S ans.socket) :
    σ.Balances S L (σ.fire id timer ans) := by
  cases timer with
  | onTimer => exact onTimer_balances
  | forceClose =>
    exact balances_bind fun τ hτ => (accounts_timerDone hτ).balances forceClose_balances
  | reconnect address =>
    have htimerDone : Accounts S L σ (σ.put id { o with timers := o.timers.erase (.reconnect address) }) :=
      accounts_timerDone (timerDone_eq hheap _)
    simp only [fire, timerDone_eq hheap, ok_bind]
    apply htimerDone.balances
    apply reconnect_balances
    intro o₁ ho₁ hfound
    obtain rfl := Option.some.inj ((σ.put_heap_self id _).symm.trans ho₁)
    by_cases hslot : σ.objects (KeyPool.index o.key) = some id
    · obtain ⟨p, hp, -⟩ := h.held_protocol hheap
      exact hS p (.again ⟨hheap, hslot⟩ hp htimer)
    · have habsent : Goes false (fun _ _ => False) σ _ ∧ _ :=
        timerDone_absent h hheap hslot (.reconnect address)
      exact absurd habsent.2 hfound

/-- A step of the network thread accounts for what it takes, unless it takes a key for a connection
that has no protocol. -/
theorem exec_balances {a : Action} (h : σ.Inv) (hpre : σ.Pre a) (hruns : Action.Runs a)
    (hS : ∀ p ans, σ.Attempts a p ans → S ans.socket) :
    σ.Balances S (σ.Leaks a) (σ.exec a) := by
  cases a with
  | dispatch ans => exact dispatch_balances (fun o ho => (h.clean o ho).2) fun p => hS p ans
  | poll key event ans => exact poll_balances h hpre.1 event
  | fire con timer ans =>
    obtain ⟨o, hheap, htimer⟩ := hpre
    exact fire_balances h hheap htimer fun p => hS p ans
  | listen port id protocolType group key => exact hruns.elim
  | connect address id protocolType group key => exact hruns.elim
  | push event => exact hruns.elim
  | pushKey key => exact hruns.elim
  | recycle object => exact hruns.elim

end CNetwork

end ZlNet.Network
