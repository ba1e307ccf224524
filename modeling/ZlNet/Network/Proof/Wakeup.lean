import ZlNet.Network.Proof.Reuse
import ZlNet.Network.Wakeup

/-! What becomes of the walks over the whole object table once the wake-up object is in it.  Without
this object the network thread would go through the same run, so its steps keep the invariant of the
other objects; and every walk fails when it comes to the wake-up object. -/

namespace ZlNet.Network

open Lib IOObject

/-- The wake-up object as `init` leaves it. -/
structure IOObject.Wakeup (o : IOObject) : Prop where
  type : o.type = .WAKEUP
  group : o.group = 0
  protocol : o.protocol = none
  errorCallback : o.errorCallback = none
  readCallback : o.readCallback = some .weakupReadHandler
  events : o.events = READ_EVENT
  endPoint : o.endPoint.isSome
  timers : o.timers = []

namespace CNetwork

section

variable [KeyPool] {σ σ' τ τ' : CNetwork} {id : ObjectId} {o : IOObject} {key : UInt32}
  {ans : Answers} {socket : Int}

/-- The network thread without its wake-up object, which is `o`. -/
structure Awaits (id : ObjectId) (o : IOObject) (σ σ' : CNetwork) : Prop where
  alike : Alike (some (id, o)) σ σ'
  inv : σ.Inv
  wakeup : o.Wakeup

theorem Awaits.heap (h : Awaits id o σ σ') : σ'.heap id = some o := (h.alike.alone _ rfl).2.2.1

theorem Awaits.slot (h : Awaits id o σ σ') : σ'.objects (KeyPool.index o.key) = some id :=
  (h.alike.alone _ rfl).2.2.2.1

theorem Awaits.getObject (h : Awaits id o σ σ') : σ'.getObject o.key = some id :=
  getObject_eq ⟨h.heap, h.slot⟩

/-! ### Walks -/

theorem Awaits._close (h : Awaits id o σ σ') : σ'._close o.key = .error .nullPointer := by
  simp only [CNetwork._close, h.getObject, get_eq h.heap, ok_bind, h.wakeup.protocol]
  rfl

theorem Awaits.processDataEvent (h : Awaits id o σ σ') :
    σ'.processDataEvent o.key ans = .error .nullPointer := by
  simp only [CNetwork.processDataEvent, h.getObject, get_eq h.heap, ok_bind, h.wakeup.protocol]
  rfl

omit [KeyPool] in
/-- Only null pointers end a walk. -/
theorem get_outcome (σ : CNetwork) (id : ObjectId) :
    Outcome (· = .nullPointer) (fun o => σ.heap id = some o) (σ.get id) := by
  unfold CNetwork.get nonNull
  cases σ.heap id with
  | some o => exact rfl
  | none => exact rfl

omit [KeyPool] in
theorem nonNull_outcome {α : Type} (p : Option α) :
    Outcome (· = .nullPointer) (fun a => p = some a) (nonNull p) := by
  cases p with
  | some a => exact rfl
  | none => exact rfl

theorem index_mem (key : UInt32) : KeyPool.index key ∈ List.range KeyPool.key_maxnum :=
  List.mem_range.mpr (KeyPool.index_lt key)

/-- The objects of a group cannot be collected, unless it is 0, and then the wake-up object is one
of them. -/
theorem Awaits.getGroupObject (h : Awaits id o σ σ') (group : Int) :
    Outcome (· = .nullPointer) (fun objs => group = 0 ∧ id ∈ objs) (σ'.getGroupObject group) := by
  apply Outcome.foldlM_reaches (fun _ => True) _ (index_mem o.key) trivial
  · intro objs _ i _
    split
    · refine (get_outcome ..).bind fun o₁ _ => ?_
      split
      · trivial
      · refine (nonNull_outcome _).bind fun p _ => ?_
        split <;> trivial
    · trivial
  · intro objs _
    simp only [h.slot, get_eq h.heap, ok_bind, h.wakeup.group, h.wakeup.protocol]
    split
    · next hgroup => exact ⟨by omega, by simp⟩
    · exact rfl
  · rintro objs ⟨rfl, hmem⟩ i _
    split
    · refine (get_outcome ..).bind fun o₁ _ => ?_
      rw [if_pos (.inl rfl)]
      exact ⟨rfl, List.mem_append_left _ hmem⟩
    · exact ⟨rfl, hmem⟩

/-- The close of any key keeps it so, or ends the walk. -/
theorem Awaits.close_outcome (h : Awaits id o σ σ') (key : UInt32) :
    Outcome (· = .nullPointer) (fun τ' => ∃ τ, Awaits id o τ τ') (σ'._close key) := by
  by_cases hkey : key = o.key
  · rw [hkey, h._close]
    exact rfl
  · have hclose : Outcome (· = .nullPointer) Inv (σ._close key) :=
      (close_goes (P := fun _ _ => True) h.inv key).mono fun τ hgoes => hgoes.inv h.inv
    have hboth := (h.alike._close (by simpa using hkey)).outcome hclose
    exact hboth.mono fun τ' ⟨τ, halike, hinv⟩ => ⟨τ, halike, hinv, h.wakeup⟩

theorem Awaits._clear (h : Awaits id o σ σ') (group : Int) :
    σ'._clear group = .error .nullPointer := by
  refine Outcome.eq_error ((h.getGroupObject group).bind fun objs hobjs => ?_)
  apply Outcome.foldlM_reaches (fun τ' => ∃ τ, Awaits id o τ τ') objs hobjs.2 ⟨σ, h⟩
  · rintro τ' ⟨τ, hτ⟩ id₁ _
    exact (get_outcome ..).bind fun o₁ _ => hτ.close_outcome o₁.key
  · rintro τ' ⟨τ, hτ⟩
    rw [get_eq hτ.heap, ok_bind, hτ._close]
    exact rfl
  · exact fun _ hfalse => hfalse.elim

theorem Awaits.onTimer1000ms (h : Awaits id o σ σ') :
    σ'.onTimer1000ms = .error .nullPointer := by
  apply Outcome.eq_error
  apply Outcome.foldlM_reaches (fun _ => True) _ (index_mem o.key) trivial
  · intro logged _ i _
    split
    · trivial
    refine (get_outcome ..).bind fun o₁ hheap => ?_
    split
    · trivial
    rw [connection, get_eq hheap, ok_bind]
    split <;> trivial
  · intro logged _
    have hconnection : o.isConnection = false := by simp [isConnection, h.wakeup.type]
    simp only [h.slot, connection, get_eq h.heap, ok_bind, h.wakeup.type, hconnection]
    exact rfl
  · exact fun _ hfalse => hfalse.elim

theorem Awaits.isEmpty (h : Awaits id o σ σ') : σ'.isEmpty = false := by
  rw [CNetwork.isEmpty, List.all_eq_false]
  exact ⟨_, index_mem o.key, by simp [h.slot]⟩

/-! ### Runs -/

/-- A record for the wake-up object changes nothing, or is of an error, for which it has no callback. -/
theorem Awaits.poll (h : Awaits id o σ σ') (hindex : KeyPool.index key = KeyPool.index o.key)
    (event : Record) (ans : Answers) :
    Outcome (fun f => f = .assertion .poll ∧ key = o.key ∧ event.err = true) (fun τ' => τ' = σ')
      (σ'.poll key event ans) := by
  have hwriting : o.hasWriting = false := by
    rw [hasWriting, h.wakeup.events]
    decide
  obtain ⟨endPoint, hend⟩ := Option.isSome_iff_exists.mp h.wakeup.endPoint
  have hread : σ'.callIf o.readCallback id ans = .ok σ' := by
    simp only [h.wakeup.readCallback, callIf, call, weakupReadHandler, get_eq h.heap, ok_bind, hend,
      nonNull_some]
    rfl
  have hrest : (do
      let o ← σ'.get id
      if (event.writable || event.hup) && o.hasWriting then σ'.callIf o.writeCallback id ans
      else return σ') = .ok σ' := by
    simp only [get_eq h.heap, ok_bind, hwriting, Bool.and_false, Bool.false_eq_true, if_false]
    rfl
  simp only [CNetwork.poll, hindex, h.slot, get_eq h.heap, ok_bind, h.wakeup.errorCallback]
  split
  · exact rfl
  next hkey =>
  split
  · next herr => exact ⟨rfl, (Classical.not_not.mp hkey).symm, herr⟩
  split
  · rw [hread, ok_bind, hrest]
    exact rfl
  · rw [pure_bind, hrest]
    exact rfl

theorem Awaits.popEvent (h : Awaits id o σ σ') {event : IOEvent} {rest : List IOEvent}
    (hqueue : σ.eventQueue = event :: rest) :
    Awaits id o { σ with eventQueue := rest } { σ' with eventQueue := rest } :=
  ⟨h.alike.popEvent hqueue, (h.inv.popEvent hqueue).1.inv, h.wakeup⟩

/-- No clear is handled. -/
theorem Awaits.dispatch_clear (h : Awaits id o σ σ') {group : Int}
    (hhead : σ'.eventQueue.head? = some (.clear group)) : σ'.dispatch ans = .error .nullPointer := by
  obtain ⟨rest, hqueue⟩ := List.head?_eq_some_iff.mp hhead
  rw [CNetwork.dispatch, hqueue]
  exact (h.popEvent (h.alike.eventQueue ▸ hqueue))._clear group

/-- A step is one that the network thread without the wake-up object takes, or a record for it. -/
theorem Awaits.avoids (h : Awaits id o σ σ') {a : Action} (hstep : σ'.Step a τ') :
    σ.Avoids (some (id, o)) a ∨ τ' = σ' := by
  obtain ⟨hpre, hexec⟩ := hstep
  cases a with
  | listen port id protocolType group key => exact .inl trivial
  | connect address id protocolType group key => exact .inl trivial
  | push event => exact .inl trivial
  | fire con timer ans => exact .inl trivial
  | pushKey key =>
    refine .inl fun x hx => ?_
    obtain rfl := Option.some.inj hx
    exact (hpre.1 id o h.heap).symm
  | recycle object =>
    refine .inl fun x hx => ?_
    obtain rfl := Option.some.inj hx
    rintro rfl
    exact hpre _ h.slot
  | poll key event ans =>
    by_cases hindex : KeyPool.index key = KeyPool.index o.key
    · have hpoll := h.poll hindex event ans
      have hexec : σ'.poll key event ans = .ok τ' := hexec
      rw [hexec] at hpoll
      exact .inr hpoll
    · refine .inl fun x hx => ?_
      obtain rfl := Option.some.inj hx
      exact hindex
  | dispatch ans =>
    refine .inl fun event hevent => ?_
    obtain ⟨rest, hqueue⟩ := List.head?_eq_some_iff.mp hevent
    have hpop := h.popEvent hqueue
    have hexec : { σ' with eventQueue := rest }.dispatchProcess event ans = .ok τ' := by
      change σ'.dispatch ans = .ok τ' at hexec
      rwa [CNetwork.dispatch, h.alike.eventQueue, hqueue] at hexec
    cases event with
    | listen port p => trivial
    | connect address p => trivial
    | data key =>
      rintro x hx rfl
      obtain rfl := Option.some.inj hx
      cases hpop.processDataEvent.symm.trans hexec
    | close key =>
      rintro x hx rfl
      obtain rfl := Option.some.inj hx
      cases hpop._close.symm.trans hexec
    | clear group => cases (hpop._clear group).symm.trans hexec

theorem Awaits.quiet (h : Awaits id o σ σ') : ∀ x ∈ some (id, o), x.2.timers = [] := by
  intro x hx
  obtain rfl := Option.some.inj hx
  exact h.wakeup.timers

/-- What is relied on with the wake-up object is relied on without it. -/
theorem Awaits.pre (h : Awaits id o σ σ') {a : Action} (hpre : σ'.Pre a) : σ.Pre a := by
  obtain ⟨reused, ha⟩ := Action.eq_reusing (rfl : a.reusing none = a.reusing none)
  exact h.alike.pre h.quiet (ha ▸ hpre)

theorem Awaits.step (h : Awaits id o σ σ') {a : Action} (hstep : σ'.Step a τ') :
    ∃ τ, Awaits id o τ τ' := by
  rcases h.avoids hstep with havoids | rfl
  · obtain ⟨reused, ha⟩ := Action.eq_reusing (rfl : a.reusing none = a.reusing none)
    rw [ha] at hstep
    obtain ⟨τ, -, halike, hinv⟩ := h.alike.step h.inv h.quiet hstep havoids
    exact ⟨τ, halike, hinv, h.wakeup⟩
  · exact ⟨σ, h⟩

theorem Awaits.run (h : Awaits id o σ σ') {as : List Action} (run : Run Step σ' as τ') :
    ∃ τ, Awaits id o τ τ' :=
  run.invariant (fun τ' => ∃ τ, Awaits id o τ τ') (fun _ _ _ ⟨_, h⟩ hstep => h.step hstep) ⟨σ, h⟩

theorem addObject_eq (hheap : σ.heap id = some o) (hslot : σ.objects (KeyPool.index o.key) = none) :
    σ.addObject id =
      .ok { σ with objects := Function.update σ.objects (KeyPool.index o.key) (some id) } := by
  simp only [addObject, get_eq hheap, ok_bind, require_of_true hslot]
  rfl

/-- The wake-up object that `init` adds. -/
def wakeupObject (key : UInt32) (socket : Int) : IOObject where
  type := .WAKEUP
  key := key
  events := READ_EVENT
  readCallback := some .weakupReadHandler
  endPoint := some ⟨socket, ⟨0, 0⟩, []⟩

/-- The state after the wake-up object has been added with a key. -/
def withWakeup (σ : CNetwork) (key : UInt32) (socket : Int) : CNetwork :=
  { σ.put σ.created (wakeupObject key socket) with
    created := σ.created + 1
    objects := Function.update σ.objects (KeyPool.index key) (some σ.created) }

theorem init_eq (hkey : key ≠ 0) (hsocket : socket ≠ -1)
    (hslot : (σ.popKey key).objects (KeyPool.index key) = none) :
    σ.init key socket = .ok ((σ.popKey key).withWakeup key socket) := by
  simp only [init, if_neg hkey, if_neg hsocket]
  rw [registerReadHandler_eq rfl]
  exact addObject_eq (o := wakeupObject key socket) (put_heap_self ..) hslot

theorem awaits_withWakeup (h : σ.Inv) (hpool : ∀ o ∈ σ.pool, Recycled o) (hfresh : σ.Fresh key)
    (socket : Int) :
    Awaits σ.created (wakeupObject key socket) { σ with created := σ.created + 1 }
      (σ.withWakeup key socket) where
  alike := {
    heap := fun id hid => by
      rw [show (σ.withWakeup key socket).heap id = σ.heap id from put_heap_ne _ _ (hid _ rfl)]
      cases σ.heap id with
      | none => exact .none
      | some o => exact .some (.refl o)
    objects := fun i hi => Function.update_of_ne (hi _ rfl) ..
    own := fun i id hslot x hx => by
      obtain rfl := Option.some.inj hx
      obtain ⟨o, hin, -⟩ := h.inTable hslot
      exact Nat.ne_of_lt (h.held id o hin.heap).1
    beside := fun id o hheap x hx hindex => by
      obtain rfl := Option.some.inj hx
      have hkey := h.slots _ (h.held id o hheap).2.1 _ hfresh.outstanding hindex
      exact hfresh.heap id o hheap hkey
    alone := fun x hx => by
      obtain rfl := Option.some.inj hx
      exact ⟨h.created_free, h.slot_of_fresh hfresh, put_heap_self .., Function.update_self ..,
        Nat.lt_succ_self _, hfresh.outstanding⟩
    created := rfl
    outstanding := rfl
    eventQueue := rfl
    notices := rfl
    queued := fun e he k hk x hx hindex => by
      obtain rfl := Option.some.inj hx
      obtain rfl := h.slots k (h.queued e he k hk).1 _ hfresh.outstanding hindex
      exact hfresh.queue (List.mem_filterMap.mpr ⟨e, he, hk⟩)
    pool := hpool
    pool' := hpool }
  inv := { h with
    held := fun id o hheap => by
      obtain ⟨hlt, hrest⟩ := h.held id o hheap
      exact ⟨Nat.lt_succ_of_lt hlt, hrest⟩ }
  wakeup := ⟨rfl, rfl, rfl, rfl, rfl, rfl, rfl, rfl⟩

/-- However the network thread has got to its state since `init` has added the wake-up object, no
group can be cleared, as the wake-up object has no protocol; the periodic scan takes it for a
connection; and the table is not empty. -/
theorem walks_fail {as bs : List Action} {υ : CNetwork} (hfree : σ.Free key) (hkey : key ≠ 0)
    (hsocket : socket ≠ -1) (before : Run Step empty as σ) (hinit : σ.init key socket = .ok τ)
    (run : Run Step τ bs υ) :
    (∀ group, υ._clear group = .error .nullPointer) ∧ υ.onTimer1000ms = .error .nullPointer ∧
      υ.isEmpty = false := by
  have h := inv_run before
  have hsame : (σ.popKey key).pool = σ.pool := by rw [popKey, if_neg hkey]
  have hpool : ∀ o ∈ (σ.popKey key).pool, Recycled o := hsame ▸ pool_recycled before
  have hpop := (h.popKey hfree).inv
  have hfresh := h.fresh_popKey hfree hkey
  rw [init_eq hkey hsocket (hpop.slot_of_fresh hfresh)] at hinit
  obtain rfl := Except.ok.inj hinit
  obtain ⟨υ', hυ⟩ := (awaits_withWakeup hpop hpool hfresh socket).run run
  exact ⟨hυ._clear, hυ.onTimer1000ms, hυ.isEmpty⟩

end

/-- After `init` and nothing else, all of that is so. -/
theorem wakeup_walked :
    ∃ τ, @init .lowBits empty 1 3 = .ok τ ∧ @_clear .lowBits τ 0 = .error .nullPointer ∧
      @_clear .lowBits τ 7 = .error .nullPointer ∧
      @onTimer1000ms .lowBits τ = .error .nullPointer ∧ @isEmpty .lowBits τ = false := by
  let _ := KeyPool.lowBits
  have hfree : empty.Free 1 := .inr (by rintro _ ⟨⟩)
  have hfresh : (empty.popKey 1).Fresh 1 := inv_empty.fresh_popKey hfree (by decide)
  have h := awaits_withWakeup (inv_empty.popKey hfree).inv (by rintro _ ⟨⟩) hfresh 3
  exact ⟨_, init_eq (by decide) (by decide) rfl, h._clear 0, h._clear 7, h.onTimer1000ms,
    h.isEmpty⟩

/-- A listener is in the table besides the wake-up object. -/
theorem walks_fail_listening :
    ∃ τ bs υ, @init .lowBits empty 1 3 = .ok τ ∧ Run (@Step .lowBits) τ bs υ ∧
      (υ.heap 1).map (·.type) = some .LISTENER ∧ @_clear .lowBits υ 0 = .error .nullPointer := by
  let _ := KeyPool.lowBits
  have hinit : empty.init 1 3 = .ok ((empty.popKey 1).withWakeup 1 3) :=
    init_eq (by decide) (by decide) rfl
  have hfree : ((empty.popKey 1).withWakeup 1 3).Free 2 := by
    refine .inr fun key' hkey' => ?_
    have hkey' : key' ∈ [(1 : UInt32)] := hkey'
    obtain rfl := List.mem_singleton.mp hkey'
    decide
  have h1 := Run.nil.snoc (step_next _ (a := .listen 80 0 .TCP 0 2) hfree rfl)
  have h2 := h1.snoc (step_next _ (a := .dispatch { socket := 4 })
    ⟨by rintro _ ⟨⟩, by rintro _ ⟨⟩⟩ (by decide +kernel))
  have hfails := walks_fail (.inr (by rintro _ ⟨⟩)) (by decide) (by decide) Run.nil hinit h2
  exact ⟨_, _, _, hinit, h2, by decide +kernel, hfails.1 0⟩

end CNetwork

end ZlNet.Network
