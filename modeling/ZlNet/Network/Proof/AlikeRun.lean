import ZlNet.Network.Proof.Alike
import ZlNet.Network.Proof.Loop

/-! Steps of two network threads that nobody can tell apart, and their runs.  The answers to the two
may tell them to take different objects from their pools. -/

namespace ZlNet.Network

open Lib Lib.Word IOObject

/-- The same action, with another choice of an object from the pool. -/
def Action.reusing (reused : Option Nat) : Action → Action
  | .dispatch ans => .dispatch { ans with reused }
  | .poll key event ans => .poll key event { ans with reused }
  | .fire con timer ans => .fire con timer { ans with reused }
  | .listen port id protocolType group key => .listen port id protocolType group key
  | .connect address id protocolType group key => .connect address id protocolType group key
  | .push event => .push event
  | .pushKey key => .pushKey key
  | .recycle object => .recycle object

theorem Action.eq_reusing {a b : Action} (h : a.reusing none = b.reusing none) :
    ∃ reused, b = a.reusing reused := by
  have hboth (c : Action) (r r' : Option Nat) : (c.reusing r).reusing r' = c.reusing r' := by
    cases c <;> rfl
  obtain ⟨reused, hb⟩ : ∃ reused, b = b.reusing reused := by
    cases b with
    | dispatch ans => exact ⟨ans.reused, rfl⟩
    | poll key event ans => exact ⟨ans.reused, rfl⟩
    | fire con timer ans => exact ⟨ans.reused, rfl⟩
    | listen port id protocolType group key => exact ⟨none, rfl⟩
    | connect address id protocolType group key => exact ⟨none, rfl⟩
    | push event => exact ⟨none, rfl⟩
    | pushKey key => exact ⟨none, rfl⟩
    | recycle object => exact ⟨none, rfl⟩
  exact ⟨reused, by rw [hb, ← hboth b none reused, ← h, hboth]⟩

namespace IOObject

variable {o o' : IOObject}

/-- The read callback of an object that is registered for reading is the same. -/
theorem Twin.read_eq (h : Twin o o') (hsettled : o.Settled) (hread : o.hasReading = true) :
    o'.readCallback = o.readCallback := by
  refine h.read.resolve_right ?_
  rintro ⟨htype, hstate⟩
  cases hsettled with
  | listening hl => simp [hl.type] at htype
  | established hest => rcases hest.state_cases with h | h <;> simp [h] at hstate
  | attempting ha => simp [ha.hasReading] at hread

/-- The write callback of an object that is registered for writing is the same. -/
theorem Twin.write_eq (h : Twin o o') (hsettled : o.Settled) (hwrite : o.hasWriting = true) :
    o'.writeCallback = o.writeCallback := by
  refine h.write.resolve_right fun htype => ?_
  cases hsettled with
  | listening hl => simp [hl.hasWriting] at hwrite
  | established hest => simpa [isConnection, htype] using hest.type
  | attempting ha => simp [ha.type] at htype

/-- An object that is registered for writing does not accept. -/
theorem Settled.writes (h : o.Settled) (hwrite : o.hasWriting = true) :
    o.writeCallback ≠ some .handleTcpAccept := by
  cases h with
  | listening hl => simp [hl.hasWriting] at hwrite
  | established hest => simp [hest.writeCallback]
  | attempting ha => simp [ha.writeCallback]

end IOObject

/-- The event does not find the object that only one of two has. -/
def IOEvent.Avoids (extra : Option (ObjectId × IOObject)) : IOEvent → Prop
  | .data key | .close key => ∀ x ∈ extra, key ≠ x.2.key
  | .clear _ => extra = none
  | .listen _ _ | .connect _ _ => True

namespace CNetwork

variable [KeyPool] {σ σ' τ τ' : CNetwork} {id : ObjectId} {o o' : IOObject} {key : UInt32}
  {extra : Option (ObjectId × IOObject)} {ans : Answers} {p : IOProtocol} {reused : Option Nat}
  {event : Record}

/-! ### The poller -/

/-- A key that the key pool gives is beside. -/
theorem Alike.beside_of_free (h : Alike extra σ σ') (hfree : σ.Free key) (hne : key ≠ 0) :
    Beside extra key := by
  intro x hx heq
  obtain ⟨-, -, -, -, -, htaken⟩ := h.alone x hx
  exact hfree.resolve_left hne x.2.key htaken heq.symm

theorem Alike.call (h : Alike extra σ σ') (hid : Own extra id) (callback : Handler)
    (hkey : callback = .handleTcpAccept → ans.key ≠ 0 → Beside extra ans.key) :
    Both (Alike extra) (σ.call callback id ans) (σ'.call callback id { ans with reused }) := by
  cases callback with
  | weakupReadHandler => exact h.weakupReadHandler hid
  | defaultErrorHandle => exact h.defaultErrorHandle hid
  | handleTcpAccept => exact h.handleTcpAccept hid (hkey rfl) reused
  | handleTcpConError => exact h.handleTcpConError hid
  | handleTcpConRead => exact h.handleTcpConRead hid
  | handleTcpConWrite => exact h.handleTcpConWrite hid
  | handleTcpConnectError => exact h.handleTcpConnectError hid
  | handleTcpConnectWrite => exact h.handleTcpConnectWrite hid

theorem Alike.callIf (h : Alike extra σ σ') (hid : Own extra id) (callback : Option Handler)
    (hkey : callback = some .handleTcpAccept → ans.key ≠ 0 → Beside extra ans.key) :
    Both (Alike extra) (σ.callIf callback id ans) (σ'.callIf callback id { ans with reused }) := by
  cases callback with
  | some callback => exact h.call hid callback fun heq => hkey (congrArg some heq)
  | none => exact h

/-- A record for another slot than that of the object that only one of two has. -/
theorem Alike.poll (h : Alike extra σ σ') (hinv : σ.Inv) (hpre : σ.Pre (.poll key event ans))
    (hkey : Beside extra key) :
    Both (Alike extra) (σ.poll key event ans) (σ'.poll key event { ans with reused }) := by
  unfold CNetwork.poll
  rw [h.slot hkey]
  split
  · exact h
  next id hslot =>
  have hid := h.own _ _ hslot
  obtain ⟨o₀, hin, -⟩ := hinv.inTable hslot
  have hsettled := hinv.settled hin
  apply h.bind_get hid
  intro o r w hheap htwin
  obtain rfl := Option.some.inj (hin.heap.symm.trans hheap)
  refine Both.ite (fun _ => h) fun hne => Both.ite (fun _ => ?_) fun _ => ?_
  · dsimp only
    cases o₀.errorCallback with
    | some callback => exact h.call hid callback fun _ => h.beside_of_free hpre.1
    | none => exact rfl
  have hrest (τ τ' : CNetwork) (h : Alike extra τ τ' ∧ τ.Inv) :
      Both (Alike extra)
        (do
          let o ← τ.get id
          if (event.writable || event.hup) && o.hasWriting then τ.callIf o.writeCallback id ans
          else return τ)
        (do
          let o ← τ'.get id
          if (event.writable || event.hup) && o.hasWriting then
            τ'.callIf o.writeCallback id { ans with reused }
          else return τ') := by
    obtain ⟨h, hinv⟩ := h
    apply h.bind_get hid
    intro o r w hheap htwin
    refine Both.ite (fun hwrite => ?_) fun _ => h
    have hwrite := (Bool.and_eq_true_iff.mp hwrite).2
    have hslot := (hinv.held id o hheap).2.2.2.resolve_left (events_ne_zero hwrite)
    have hsettled := hinv.settled ⟨hheap, hslot⟩
    rw [show w = o.writeCallback from htwin.write_eq hsettled hwrite]
    exact h.callIf hid _ fun haccept => absurd haccept (hsettled.writes hwrite)
  refine Both.ite (fun hread => ?_) fun _ => hrest σ σ' ⟨h, hinv⟩
  have hread := (Bool.and_eq_true_iff.mp hread).2
  have hgoes := readCallback_goes (P := fun _ _ => True) hinv hin hpre.1 hread
  rw [show r = o₀.readCallback from htwin.read_eq hsettled hread]
  refine Both.bind (Both.and ?_ (hgoes.mono fun τ hτ => (hτ.leads hinv).inv)) hrest
  exact h.callIf hid _ fun _ => h.beside_of_free hpre.1

/-! ### Events -/

theorem Alike.processDataEvent (h : Alike extra σ σ') (hkey : ∀ x ∈ extra, key ≠ x.2.key) :
    Both (Alike extra) (σ.processDataEvent key ans) (σ'.processDataEvent key ans) := by
  simp only [CNetwork.processDataEvent, h.getObject hkey]
  split
  · next object hget =>
    have hid := h.own_of_getObject hget
    apply h.bind_get hid
    intro o r w _ _
    refine Both.bind_same fun p _ => ?_
    cases p.protocolType with
    | TCP => exact h.tcpSend hid
    | KCP => exact h
    | UDP => exact rfl
  · exact h

theorem Alike.processListen (h : Alike extra σ σ') (hkey : Beside extra p.key) (port : UInt16) :
    Both (Alike extra) (σ.processListen port p ans)
      (σ'.processListen port p { ans with reused }) := by
  unfold CNetwork.processListen
  cases p.protocolType with
  | TCP => exact h.tcpListen hkey port reused
  | KCP => exact h
  | UDP => exact rfl

theorem Alike.processConnect (h : Alike extra σ σ') (hkey : Beside extra p.key)
    (address : CAddress) :
    Both (Alike extra) (σ.processConnect address p ans)
      (σ'.processConnect address p { ans with reused }) := by
  unfold CNetwork.processConnect
  cases p.protocolType with
  | TCP => exact h.tcpConnect hkey address reused
  | KCP => exact h
  | UDP => exact rfl

theorem Alike.getGroupObject (h : Alike none σ σ') (group : Int) :
    Both Eq (σ.getGroupObject group) (σ'.getGroupObject group) := by
  apply Both.foldlM _ rfl
  rintro objs _ rfl i _
  rw [h.objects i (by simp)]
  split
  · apply h.bind_get (by simp [Own])
    intro o r w _ _
    exact Both.ite (fun _ => rfl) fun _ => Both.bind_same fun p _ => Both.ite (fun _ => rfl) fun _ => rfl
  · exact rfl

theorem Alike._clear (h : Alike none σ σ') (group : Int) :
    Both (Alike none) (σ._clear group) (σ'._clear group) := by
  apply (h.getGroupObject group).bind
  rintro objs _ rfl
  apply Both.foldlM objs h
  intro τ τ' h id _
  apply h.bind_get (by simp [Own])
  intro o r w _ _
  exact h._close (by simp)

theorem Alike.popEvent (h : Alike extra σ σ') {event : IOEvent} {rest : List IOEvent}
    (hqueue : σ.eventQueue = event :: rest) :
    Alike extra { σ with eventQueue := rest } { σ' with eventQueue := rest } :=
  { h with
    eventQueue := rfl
    queued := fun e he => h.queued e (hqueue ▸ List.mem_cons_of_mem event he) }

theorem Alike.dispatch (h : Alike extra σ σ')
    (havoids : ∀ event ∈ σ.eventQueue.head?, event.Avoids extra) :
    Both (Alike extra) (σ.dispatch ans) (σ'.dispatch { ans with reused }) := by
  unfold CNetwork.dispatch
  rw [h.eventQueue]
  split
  · next event rest hqueue =>
    have hqueued := h.queued event (hqueue ▸ List.mem_cons_self)
    have havoids := havoids event (hqueue ▸ rfl)
    have hpop := h.popEvent hqueue
    cases event with
    | listen port p => exact hpop.processListen (hqueued _ rfl) port
    | connect address p => exact hpop.processConnect (hqueued _ rfl) address
    | data key => exact hpop.processDataEvent havoids
    | close key => exact hpop._close havoids
    | clear group =>
      obtain rfl : extra = none := havoids
      exact hpop._clear group
  · exact h

theorem Alike.fire (h : Alike extra σ σ') (hid : Own extra id) (timer : Timer) :
    Both (Alike extra) (σ.fire id timer ans) (σ'.fire id timer { ans with reused }) := by
  cases timer with
  | onTimer => exact h.onTimer hid
  | forceClose => exact (h.timerDone hid _).bind fun τ τ' h => h.forceClose hid
  | reconnect address => exact (h.timerDone hid _).bind fun τ τ' h => h.reconnect hid address

/-! ### The other threads -/

/-- The objects of the one are not the object that only the other has. -/
theorem Alike.own_of_heap (h : Alike extra σ σ') (hheap : σ.heap id = some o) : Own extra id := by
  rintro x hx rfl
  obtain ⟨hnone, -⟩ := h.alone x hx
  rw [hnone] at hheap
  cases hheap

/-- Every object of the one has a twin in the other. -/
theorem Alike.twin (h : Alike extra σ σ') (hheap : σ.heap id = some o) :
    ∃ o', σ'.heap id = some o' ∧ Twin o o' := by
  rcases h.heap_cases (h.own_of_heap hheap) with ⟨hnone, -⟩ | ⟨o₁, o', hheap₁, hheap', htwin⟩
  · rw [hnone] at hheap
    cases hheap
  · obtain rfl := Option.some.inj (hheap.symm.trans hheap₁)
    exact ⟨o', hheap', htwin⟩

theorem Alike.pushEvent (h : Alike extra σ σ') {event : IOEvent}
    (hkey : ∀ k, event.protocolKey = some k → Beside extra k) :
    Alike extra (σ.pushEvent event) (σ'.pushEvent event) where
  __ := h
  eventQueue := congrArg (· ++ [event]) h.eventQueue
  queued e he k hk := by
    rcases List.mem_append.mp he with he | he
    · exact h.queued e he k hk
    · obtain rfl := List.mem_singleton.mp he
      exact hkey k hk

theorem Alike.pushKey (h : Alike extra σ σ') (hkey : ∀ x ∈ extra, key ≠ x.2.key) :
    Alike extra (σ.pushKey key) (σ'.pushKey key) where
  __ := h
  outstanding := congrArg (List.erase · key) h.outstanding
  alone x hx := by
    obtain ⟨hheap, hslot, hheap', hslot', hmade, htaken⟩ := h.alone x hx
    exact ⟨hheap, hslot, hheap', hslot', hmade,
      (List.mem_erase_of_ne (hkey x hx).symm).mpr htaken⟩

theorem Alike.recycle (h : Alike extra σ σ') (hid : Own extra id) :
    Alike extra (σ.recycle id) (σ'.recycle id) := by
  unfold CNetwork.recycle
  rcases h.heap_cases hid with ⟨hnone, hnone'⟩ | ⟨o, o', hheap, hheap', -⟩
  · rw [hnone, hnone']
    exact h
  · rw [hheap, hheap']
    refine { h with heap := ?_, beside := ?_, alone := ?_, pool := ?_, pool' := ?_ }
    · intro id₁ hid₁
      simp only [Function.update_apply]
      split
      · exact .none
      · exact h.heap id₁ hid₁
    · intro id₁ o₁ h₁
      simp only [Function.update_apply] at h₁
      split at h₁
      · cases h₁
      · exact h.beside id₁ o₁ h₁
    · intro x hx
      obtain ⟨hheap, hslot, hheap', hrest⟩ := h.alone x hx
      have hne : x.1 ≠ id := (hid x hx).symm
      exact ⟨(Function.update_of_ne hne ..).trans hheap, hslot,
        (Function.update_of_ne hne ..).trans hheap', hrest⟩
    · intro o₁ ho₁
      rcases List.mem_cons.mp ho₁ with rfl | ho₁
      · exact recycled_onRecycle o
      · exact h.pool o₁ ho₁
    · intro o₁ ho₁
      rcases List.mem_cons.mp ho₁ with rfl | ho₁
      · exact recycled_onRecycle o'
      · exact h.pool' o₁ ho₁

/-! ### Steps -/

/-- The action does not find the object that only one of two has, nor its key. -/
def Avoids (extra : Option (ObjectId × IOObject)) (σ : CNetwork) : Action → Prop
  | .dispatch _ => ∀ event ∈ σ.eventQueue.head?, event.Avoids extra
  | .poll key _ _ => Beside extra key
  | .pushKey key => ∀ x ∈ extra, key ≠ x.2.key
  | .recycle object => Own extra object
  | .fire _ _ _ | .listen _ _ _ _ _ | .connect _ _ _ _ _ | .push _ => True

theorem Alike.exec (h : Alike extra σ σ') (hinv : σ.Inv) {a : Action} (hpre : σ.Pre a)
    (havoids : σ.Avoids extra a) (reused : Option Nat) :
    Both (Alike extra) (σ.exec a) (σ'.exec (a.reusing reused)) := by
  cases a with
  | listen port id protocolType group key =>
    refine (?_ : Alike extra (σ.listen ..) (σ'.listen ..))
    unfold CNetwork.listen
    split
    · exact h
    next hne =>
    refine (h.popKey key).pushEvent fun k hk => ?_
    obtain rfl := Option.some.inj hk
    exact h.beside_of_free hpre hne
  | connect address id protocolType group key =>
    refine (?_ : Alike extra (σ.connect ..) (σ'.connect ..))
    unfold CNetwork.connect
    split
    · exact h
    next hne =>
    refine (h.popKey key).pushEvent fun k hk => ?_
    obtain rfl := Option.some.inj hk
    exact h.beside_of_free hpre hne
  | push event => exact h.pushEvent (by simp [show event.protocolKey = none from hpre])
  | pushKey key => exact h.pushKey havoids
  | recycle object => exact h.recycle havoids
  | dispatch ans => exact h.dispatch havoids
  | poll key event ans => exact h.poll hinv hpre havoids
  | fire con timer ans =>
    obtain ⟨o, hheap, -⟩ := hpre
    exact h.fire (h.own_of_heap hheap) timer

theorem Alike.found (h : Alike extra σ σ') {P : IOObject → Prop}
    (hP : ∀ o o', Twin o o' → P o' → P o) (hfound : σ'.Found key P) : σ.Found key P := by
  intro o ho
  obtain ⟨id, hget, hheap⟩ := Option.bind_eq_some_iff.mp ho
  have hkey : ∀ x ∈ extra, key ≠ x.2.key := by
    rintro x hx rfl
    obtain ⟨-, hslot, -⟩ := h.alone x hx
    simp [CNetwork.getObject, hslot] at hget
  obtain ⟨o', hheap', htwin⟩ := h.twin hheap
  refine hP o o' htwin (hfound o' ?_)
  rw [h.getObject hkey, hget]
  exact hheap'

/-- What is kept to for the one is kept to for the other, if the object that only one of two has
sets no timers. -/
theorem Alike.pre (h : Alike extra σ σ') (hquiet : ∀ x ∈ extra, x.2.timers = []) {a : Action}
    (hpre : σ'.Pre (a.reusing reused)) : σ.Pre a := by
  have hfree {key : UInt32} (hfree : σ'.Free key) : σ.Free key := by
    unfold Free at *
    rwa [h.outstanding] at hfree
  cases a with
  | listen port id protocolType group key => exact hfree hpre
  | connect address id protocolType group key => exact hfree hpre
  | push event => exact hpre
  | pushKey key =>
    obtain ⟨hunused, hqueue⟩ := hpre
    refine ⟨fun id o hheap => ?_, h.eventQueue ▸ hqueue⟩
    obtain ⟨o', hheap', htwin⟩ := h.twin hheap
    rw [← show o'.key = o.key by rw [htwin.same]]
    exact hunused id o' hheap'
  | recycle object =>
    intro i hslot
    refine hpre i ((h.objects i ?_).trans hslot)
    rintro x hx rfl
    obtain ⟨-, hnone, -⟩ := h.alone x hx
    rw [hnone] at hslot
    cases hslot
  | dispatch ans =>
    obtain ⟨hfits, hdata⟩ := hpre
    refine ⟨hfits, fun key hkey => h.found ?_ (hdata key (h.eventQueue ▸ hkey))⟩
    intro o o' htwin hcon
    rw [htwin.same] at hcon
    exact hcon
  | poll key event ans =>
    refine ⟨hfree hpre.1, h.found ?_ hpre.2⟩
    intro o o' htwin hevents
    rw [htwin.same] at hevents
    exact hevents
  | fire con timer ans =>
    obtain ⟨o', hheap', htimer⟩ := hpre
    have hid : Own extra con := by
      rintro x hx rfl
      obtain ⟨-, -, hx', -⟩ := h.alone x hx
      obtain rfl := Option.some.inj (hheap'.symm.trans hx')
      simp [hquiet x hx] at htimer
    rcases h.heap_cases hid with ⟨-, hnone'⟩ | ⟨o, o₁, hheap, hheap₁, htwin⟩
    · rw [hnone'] at hheap'
      cases hheap'
    · obtain rfl := Option.some.inj (hheap'.symm.trans hheap₁)
      rw [htwin.same] at htimer
      exact ⟨o, hheap, htimer⟩

/-- A step of the one with the object that only one of two has is a step of the other. -/
theorem Alike.step (h : Alike extra σ σ') (hinv : σ.Inv) (hquiet : ∀ x ∈ extra, x.2.timers = [])
    {a : Action} (hstep : σ'.Step (a.reusing reused) τ') (havoids : σ.Avoids extra a) :
    ∃ τ, σ.Step a τ ∧ Alike extra τ τ' ∧ τ.Inv := by
  have hpre := h.pre hquiet hstep.1
  obtain ⟨τ, hexec, halike⟩ := (h.exec hinv hpre havoids reused).of_ok hstep.2
  have hinv' := exec_outcome hinv hpre
  rw [hexec] at hinv'
  exact ⟨τ, ⟨hpre, hexec⟩, halike, hinv'⟩

end CNetwork

end ZlNet.Network
