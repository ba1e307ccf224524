import ZlNet.Engine.Proof.System
import ZlNet.Network.Proof.Wakeup

/-! Processes with the wake-up object that `CNetwork::init` adds.  Such a process goes through the same
run as one whose network thread does not have this object, as long as no step of it comes across the
object and fails.  So what couples the engine to the network thread holds without it. -/

namespace ZlNet.Engine

open Lib Network Network.CNetwork IOObject

/-- What the network thread is asked for with an event. -/
def Event.asked {μ : Type} (protocol : ProtocolId → Protocol) : Event μ → Network.Action
  | .listen port p => .listen port p .TCP 0 (protocol p).key
  | .connect address p => .connect address p .TCP 0 (protocol p).key
  | .data key _ => .push (.data key)
  | .close key => .push (.close key)

/-- The key that an event is for, if it is for one that there is. -/
def Event.target? {μ : Type} : Event μ → Option UInt32
  | .listen _ _ | .connect _ _ => none
  | .data key _ | .close key => some key

namespace System

variable {L : Type} [KeyPool] {σ σ' τ τ' : System L} {id : ObjectId} {o : IOObject} {key : UInt32}

section

variable {engine : IOEngine L SerializeMessage} {event : Event SerializeMessage}
  {protocol : ProtocolId → Protocol} {net : CNetwork}

theorem exec_asked (net : CNetwork) (event : Event SerializeMessage) :
    net.exec (event.asked protocol) = .ok (event.pushed protocol net) := by
  cases event <;> rfl

/-! ### The key of the wake-up object -/

/-- The key is taken, by no protocol, and no event is for it. -/
structure Reserved (key : UInt32) (σ : System L) : Prop where
  taken : key ∈ σ.net.outstanding
  apart : ∀ p ∈ σ.engine.outstanding, (σ.engine.protocol p).key ≠ key
  queue : ∀ k, .data k ∈ σ.net.eventQueue ∨ .close k ∈ σ.net.eventQueue → k ≠ key

/-- A key that can be given is not one that is taken. -/
theorem Reserved.ne_of_free (h : σ.Reserved key) {key' : UInt32} (hfree : σ.net.Free key')
    (hne : key' ≠ 0) : key' ≠ key := by
  rintro rfl
  exact hfree.resolve_left hne key' h.taken rfl

theorem Reserved.found (h : σ.Reserved key) (hσ : σ.Coupled) {uid : UInt32} {p : ProtocolId}
    (hfound : σ.engine.protocols uid = some p) : uid ≠ key := by
  obtain ⟨hp, hkey⟩ := hσ.sound.entry uid p hfound
  rintro rfl
  exact h.apart p hp hkey

omit [KeyPool] in
/-- An event takes a key, or comes to the end of the event queue. -/
theorem Reserved.pushed (h : σ.Reserved key) (htarget : ∀ k ∈ event.target?, k ≠ key) :
    key ∈ (event.pushed protocol σ.net).outstanding ∧
      ∀ k, .data k ∈ (event.pushed protocol σ.net).eventQueue ∨
        .close k ∈ (event.pushed protocol σ.net).eventQueue → k ≠ key := by
  have hpush {e : IOEvent} (he : ∀ k, e = .data k ∨ e = .close k → k ≠ key) (k : UInt32)
      (hk : .data k ∈ σ.net.eventQueue ++ [e] ∨ .close k ∈ σ.net.eventQueue ++ [e]) : k ≠ key := by
    simp only [List.mem_append, List.mem_singleton] at hk
    rcases hk with (hold | hnew) | (hold | hnew)
    · exact h.queue k (.inl hold)
    · exact he k (.inl hnew.symm)
    · exact h.queue k (.inr hold)
    · exact he k (.inr hnew.symm)
  cases event with
  | listen port p =>
    simp only [Event.pushed, CNetwork.listen]
    split
    · exact ⟨h.taken, h.queue⟩
    · next hne =>
      simp only [popKey, hne, if_false]
      exact ⟨List.mem_cons_of_mem _ h.taken, hpush fun k hk => by simp at hk⟩
  | connect address p =>
    simp only [Event.pushed, CNetwork.connect]
    split
    · exact ⟨h.taken, h.queue⟩
    · next hne =>
      simp only [popKey, hne, if_false]
      exact ⟨List.mem_cons_of_mem _ h.taken, hpush fun k hk => by simp at hk⟩
  | data k _ => exact ⟨h.taken, hpush fun k' hk => by simp at hk; exact hk ▸ htarget k rfl⟩
  | close k => exact ⟨h.taken, hpush fun k' hk => by simp at hk; exact hk ▸ htarget k rfl⟩

/-! ### Steps of the engine -/

variable [IntrusiveNode L] {a : Action SerializeMessage}

/-- The event that a step of the engine queues, if it queues one, and what it relies on. -/
inductive Requests (σ : System L) (engine : IOEngine L SerializeMessage) : Prop
  | quiet (hevents : engine.events = σ.engine.events)
  | event {event : Event SerializeMessage} (hevents : engine.events = σ.engine.events ++ [event])
      (hpre : σ.net.Pre (event.asked engine.protocol))
      (htarget : ∀ k ∈ event.target?, σ.engine.protocols k ≠ none)

theorem exec_requests (hc : σ.Contract (.engine a)) (hexec : σ.engine.exec a = .ok engine) :
    σ.Requests engine := by
  cases IOEngine.exec_emits hc.owns hexec with
  | quiet _ hevents => exact .quiet hevents
  | @listen port p key ha hblank hkey hengine =>
    subst ha
    obtain ⟨hevents, -, hprotocol⟩ := takes_key hengine
    refine .event hevents ?_ (by rintro _ ⟨⟩)
    simp only [Event.asked, hprotocol]
    exact hc.2
  | @connect address p key ha hblank hkey hengine =>
    subst ha
    obtain ⟨hevents, -, hprotocol⟩ := takes_key hengine
    refine .event hevents ?_ (by rintro _ ⟨⟩)
    simp only [Event.asked, hprotocol]
    exact hc.2
  | @data r packet ha havail hout hevents =>
    refine .event hevents rfl ?_
    rintro k ⟨⟩ hnone
    obtain ⟨p, hp, -⟩ := (Option.any_eq_true ..).mp havail
    cases hp.symm.trans hnone
  | @close uid ha hfound hout hevents =>
    refine .event hevents rfl ?_
    rintro k ⟨⟩
    exact hfound

omit [IntrusiveNode L] in
theorem Requests.reserved (hrequests : σ.Requests engine) (h : σ.Reserved key) (hσ : σ.Coupled)
    (hapart : ∀ p ∈ engine.outstanding, (engine.protocol p).key ≠ key) :
    (σ.asks engine).Reserved key := by
  cases hrequests with
  | quiet hevents =>
    rw [asks_quiet hevents]
    exact ⟨h.taken, hapart, h.queue⟩
  | event hevents _ htarget =>
    rw [asks_event hevents]
    obtain ⟨htaken, hqueue⟩ := h.pushed fun k hk => by
      obtain ⟨p, hp⟩ := Option.ne_none_iff_exists'.mp (htarget k hk)
      exact h.found hσ hp
    exact ⟨htaken, hapart, hqueue⟩

theorem Reserved.engine_step (h : σ.Reserved key) (hσ : σ.Coupled) (hc : σ.Contract (.engine a))
    (hexec : σ.engine.exec a = .ok engine) : (σ.asks engine).Reserved key := by
  refine (exec_requests hc hexec).reserved h hσ ?_
  have hchange := IOEngine.step_change hσ.sound (hσ.permitted hc hexec)
  have hold (p : ProtocolId) (hp : p ∈ σ.engine.outstanding) : (engine.protocol p).key ≠ key := by
    have howned := hσ.sound.owned p hp
    rw [show (engine.protocol p).key = (σ.engine.protocol p).key from
      (hchange.keys howned (hσ.sound.made p howned)).1]
    exact h.apart p hp
  have hopened {p : ProtocolId} {type : EIOOBJECT_TYPE} {k : UInt32}
      {event : Event SerializeMessage} (hfree : σ.net.Free k) (hne : k ≠ 0)
      (hengine : engine = σ.engine.takeKey p type k event) :
      ∀ p ∈ engine.outstanding, (engine.protocol p).key ≠ key := by
    obtain ⟨-, hout, hprotocol⟩ := takes_key hengine
    intro q hq
    rcases List.mem_cons.mp (hout ▸ hq) with rfl | hq
    · rw [hprotocol]
      exact h.ne_of_free hfree hne
    · exact hold q hq
  cases IOEngine.exec_emits hc.owns hexec with
  | quiet hout _ => exact fun p hp => hold p (hout ▸ hp)
  | listen ha _ hne hengine =>
    subst ha
    exact hopened hc.2 hne hengine
  | connect ha _ hne hengine =>
    subst ha
    exact hopened hc.2 hne hengine
  | data _ _ hout _ => exact fun p hp => hold p (hout ▸ hp)
  | close _ _ hout _ => exact fun p hp => hold p (hout ▸ hp)

theorem Reserved.confirmed (h : σ.Reserved key) (hσ : σ.Coupled) {uid : UInt32} {confirmed : Bool}
    (hconfirm : σ.engine.confirm uid = .ok (confirmed, engine)) : (σ.asks engine).Reserved key := by
  obtain ⟨as, hrun⟩ := hσ.confirm_run hconfirm
  refine (hrun.invariant (fun σ => σ.Coupled ∧ σ.Reserved key) ?_ ⟨hσ, h⟩).2
  rintro σ a τ ⟨hσ, h⟩ ⟨hserves, -⟩
  refine ⟨(hσ.serves hserves).2.2, ?_⟩
  obtain ⟨e, hfetched, hc, engine, hexec, rfl⟩ := hserves
  rcases hfetched with rfl | ⟨n, hfetches⟩
  · exact h.engine_step hσ hc hexec
  · have hfetched := hσ.fetched hfetches
    have hsame : ({ σ with engine := e } : System L).Reserved key := by
      cases hfetches with
      | mk => exact ⟨h.taken, h.apart, h.queue⟩
    exact hsame.engine_step hfetched hc hexec

theorem confirm_requests {uid : UInt32} {confirmed : Bool}
    (hconfirm : σ.engine.confirm uid = .ok (confirmed, engine)) : σ.Requests engine := by
  rcases IOEngine.confirm_events hconfirm with hevents | ⟨hevents, hfound⟩
  · exact .quiet hevents
  · refine .event hevents rfl ?_
    rintro k ⟨⟩
    exact hfound

end

/-! ### Steps of the network -/

section

variable [IntrusiveNode L] {b : Network.Action}

theorem Reserved.network_step (h : σ.Reserved key) (hσ : σ.Coupled) (hc : σ.Contract (.network b))
    (hexec : σ.network b = .ok τ) : τ.Reserved key := by
  obtain ⟨-, hstep, -, hjoins, -⟩ := hσ.network_step hc hexec
  obtain ⟨new, accepted, hreport⟩ := step_report hσ.inv hstep (hσ.answered_pre hc).2
  refine ⟨hreport.steady.outstanding key h.taken, ?_, fun k hk => h.queue k ?_⟩
  · change ∀ p ∈ τ.engine.connections.outstanding, (τ.engine.connections.protocol p).key ≠ key
    generalize τ.engine.connections = c at hjoins
    cases hjoins with
    | told new => exact h.apart
    | @accepted new q fromProtocol hid hne hfree hcall =>
      intro p hp
      rcases List.mem_cons.mp hp with rfl | hp
      · have hself : (IOEngine.making σ.engine.connections q).protocol σ.engine.created =
            { type := .SESSION, key := q.key } := Connections.own_self
        exact fun heq => h.ne_of_free hfree hne ((congrArg Protocol.key hself).symm.trans heq)
      · have hother : p ≠ σ.engine.created := by
          rintro rfl
          exact absurd (hσ.sound.made _ (hσ.sound.owned _ hp)) (Nat.lt_irrefl _)
        have hsame : (IOEngine.making σ.engine.connections q).protocol p = σ.engine.protocol p :=
          Connections.own_ne hother
        exact fun heq => h.apart p hp ((congrArg Protocol.key hsame).symm.trans heq)
  · obtain ⟨front, hfront⟩ := queue_rest σ.net (σ.answered b)
    have hqueue : σ.net.eventQueue = front ++ τ.net.eventQueue := by
      rw [hreport.steady.queue]
      exact hfront
    rw [hqueue]
    exact hk.imp (List.mem_append_right front) (List.mem_append_right front)

end

/-! ### With and without the wake-up object -/

/-- `σ'` is `σ` with the wake-up object `o`. -/
structure Awake (id : ObjectId) (o : IOObject) (σ σ' : System L) : Prop where
  engine : σ'.engine = σ.engine
  awaits : Awaits id o σ.net σ'.net
  coupled : σ.Coupled
  reserved : σ.Reserved o.key

theorem Awake.answered (h : Awake id o σ σ') (b : Network.Action) :
    σ'.answered b = σ.answered b := by
  cases b <;> simp [System.answered, answers, h.engine]

/-- A key finds nothing, the wake-up object, or an object that both have. -/
theorem Awake.found_cases (h : Awake id o σ σ') (key : UInt32) :
    (σ.net.getObject key = none ∧
      (σ'.net.getObject key = none ∨ key = o.key ∧ σ'.net.getObject key = some id)) ∨
    ∃ id₁ o₁ o₂, σ.net.getObject key = some id₁ ∧ σ'.net.getObject key = some id₁ ∧
      σ.net.InTable id₁ o₁ ∧ σ'.net.heap id₁ = some o₂ ∧ Twin o₁ o₂ := by
  by_cases hkey : key = o.key
  · subst hkey
    obtain ⟨-, hslot, -⟩ := h.awaits.alike.alone _ rfl
    exact .inl ⟨by simp [CNetwork.getObject, hslot], .inr ⟨rfl, h.awaits.getObject⟩⟩
  · have hsame : σ'.net.getObject key = σ.net.getObject key :=
      h.awaits.alike.getObject fun x hx => Option.some.inj hx ▸ hkey
    cases hget : σ.net.getObject key with
    | none => exact .inl ⟨rfl, .inl (hsame.trans hget)⟩
    | some id₁ =>
      obtain ⟨o₁, hin, -⟩ := h.coupled.inv.inTable_of_getObject hget
      obtain ⟨o₂, hheap, htwin⟩ := h.awaits.alike.twin hin.heap
      exact .inr ⟨id₁, o₁, o₂, rfl, hsame.trans hget, hin, hheap, htwin⟩

/-- Every other object is one that both have. -/
theorem Awake.heap_cases (h : Awake id o σ σ') {id₁ : ObjectId} (hne : id₁ ≠ id) :
    σ.net.heap id₁ = none ∧ σ'.net.heap id₁ = none ∨
      ∃ o₁ o₂, σ.net.heap id₁ = some o₁ ∧ σ'.net.heap id₁ = some o₂ ∧ Twin o₁ o₂ :=
  h.awaits.alike.heap_cases fun _ hx => Option.some.inj hx ▸ hne

/-- An object of the table is there with the wake-up object too. -/
theorem Awake.inTable (h : Awake id o σ σ') {id₁ : ObjectId} {o₁ : IOObject}
    (hin : σ.net.InTable id₁ o₁) : ∃ o₂, σ'.net.InTable id₁ o₂ ∧ Twin o₁ o₂ := by
  obtain ⟨o₂, hheap, htwin⟩ := h.awaits.alike.twin hin.heap
  refine ⟨o₂, ⟨hheap, ?_⟩, htwin⟩
  rw [show o₂.key = o₁.key by rw [htwin.same]]
  exact (h.awaits.alike.objects _ (h.awaits.alike.beside _ _ hin.heap)).trans hin.slot

/-- An object of the table that has a protocol is there without the wake-up object too. -/
theorem Awake.inTable_of_protocol (h : Awake id o σ σ') {id₁ : ObjectId} {o₂ : IOObject}
    (hin : σ'.net.InTable id₁ o₂) (hp : o₂.protocol ≠ none) :
    ∃ o₁, σ.net.InTable id₁ o₁ ∧ Twin o₁ o₂ := by
  have hne : id₁ ≠ id := by
    rintro rfl
    obtain rfl := Option.some.inj (h.awaits.heap.symm.trans hin.heap)
    exact hp h.awaits.wakeup.protocol
  rcases h.heap_cases hne with
    ⟨-, hnone⟩ | ⟨o₁, o₃, hheap, hheap', htwin⟩
  · cases hnone.symm.trans hin.heap
  · obtain rfl := Option.some.inj (hin.heap.symm.trans hheap')
    refine ⟨o₁, ⟨hheap, ?_⟩, htwin⟩
    rw [show o₁.key = o₂.key by rw [htwin.same], ← hin.slot]
    refine (h.awaits.alike.objects _ ?_).symm
    rw [show o₂.key = o₁.key by rw [htwin.same]]
    exact h.awaits.alike.beside _ _ hheap

/-- The wake-up object reads nothing. -/
theorem Awake.input (h : Awake id o σ σ') (key : UInt32) (event : Record) (ans : Answers) :
    σ'.input key event ans = σ.input key event ans := by
  rcases h.found_cases key with ⟨hnone, hnone' | ⟨-, hself⟩⟩ |
    ⟨id₁, o₁, o₂, hget, hget', hin, hheap, htwin⟩
  · simp [System.input, hnone, hnone']
  · simp [System.input, hnone, hself, h.awaits.heap, h.awaits.wakeup.readCallback]
  · simp only [System.input, hget, hget', Option.bind_some, hin.heap, hheap]
    have hreading : o₂.hasReading = o₁.hasReading := by rw [htwin.same]; rfl
    have hbuffer : o₂.inputBuffer = o₁.inputBuffer := by rw [htwin.same]
    rw [hreading, hbuffer]
    by_cases hread : o₁.hasReading = true
    · rw [htwin.read_eq (h.coupled.inv.settled hin) hread]
    · simp [hread]

theorem Awake.received (h : Awake id o σ σ') (b : Network.Action) :
    σ'.received b = σ.received b := by
  cases b with
  | poll key event ans => simp only [System.received, h.input]
  | dispatch | fire | listen | connect | push | pushKey | recycle => rfl

/-- What is kept to with the wake-up object is kept to without it. -/
theorem Awake.contract (h : Awake id o σ σ') {a : SystemAction} (hc : σ'.Contract a) :
    σ.Contract a := by
  have hfree {key : UInt32} (hfree : σ'.net.Free key) : σ.net.Free key :=
    h.awaits.pre (a := .listen 0 0 .TCP 0 key) hfree
  have hengine := h.engine
  cases a with
  | engine a =>
    cases a with
    | listen port p key => exact ⟨hengine ▸ hc.1, hfree hc.2⟩
    | connect address p key => exact ⟨hengine ▸ hc.1, hfree hc.2⟩
    | send r =>
      have hc : ∀ p, σ'.engine.protocols r.packet.uid = some p →
        (σ'.engine.protocol p).type ≠ .LISTENER := hc
      rw [hengine] at hc
      exact hc
    | dispatch packet =>
      have hc : σ'.engine.msgqueue.head? = some packet := hc
      rw [hengine] at hc
      exact hc
    | create | close | bindPacketHandler | timeout => trivial
    | accept | post | recycle => exact hc
  | confirmListen uid | confirmConnect uid => trivial
  | network b =>
    cases b with
    | dispatch ans => exact hc
    | poll key event ans => exact h.awaits.pre (a := .poll key event ans) hc
    | fire con timer ans => exact h.awaits.pre (a := .fire con timer ans) hc
    | recycle object => exact h.awaits.pre (a := .recycle object) hc
    | listen | connect | push | pushKey => exact hc
  | clear group => trivial
  | recycle p =>
    obtain ⟨hheld, htable, hnotices, hunknown⟩ := hc
    rw [hengine] at hheld htable hnotices
    refine ⟨hheld, htable, hnotices, fun q hq => hunknown q ?_⟩
    rcases hq with ⟨id₁, o₁, hheap, hprotocol⟩ | ⟨e, he, hprotocol⟩
    · obtain ⟨o₂, hheap', htwin⟩ := h.awaits.alike.twin hheap
      exact .inl ⟨id₁, o₂, hheap', by rw [htwin.same]; exact hprotocol⟩
    · exact .inr ⟨e, h.awaits.alike.eventQueue ▸ he, hprotocol⟩

/-- What a step of the network thread comes across that only one of the two has. -/
inductive Meets (o : IOObject) (σ : System L) : Network.Action → Prop
  | record {key : UInt32} {event : Record} {ans : Answers}
      (hindex : KeyPool.index key = KeyPool.index o.key) : Meets o σ (.poll key event ans)
  | clear {ans : Answers} {group : Int} (hhead : σ.net.eventQueue.head? = some (.clear group)) :
      Meets o σ (.dispatch ans)

theorem Awake.avoids (h : Awake id o σ σ') {b : Network.Action} (hc : σ'.Contract (.network b)) :
    σ.net.Avoids (some (id, o)) (σ.answered b) ∨ Meets o σ b := by
  cases b with
  | dispatch ans =>
    by_cases hclear : ∃ group, σ.net.eventQueue.head? = some (.clear group)
    · obtain ⟨group, hhead⟩ := hclear
      exact .inr (.clear hhead)
    · refine .inl fun event hevent => ?_
      have hmem : event ∈ σ.net.eventQueue := List.mem_of_mem_head? hevent
      cases event with
      | listen port p => trivial
      | connect address p => trivial
      | data k => exact fun x hx => Option.some.inj hx ▸ h.reserved.queue k (.inl hmem)
      | close k => exact fun x hx => Option.some.inj hx ▸ h.reserved.queue k (.inr hmem)
      | clear group => exact absurd ⟨group, hevent⟩ hclear
  | poll key event ans =>
    by_cases hindex : KeyPool.index key = KeyPool.index o.key
    · exact .inr (.record hindex)
    · exact .inl fun x hx => Option.some.inj hx ▸ hindex
  | recycle object =>
    refine .inl fun x hx => ?_
    obtain rfl := Option.some.inj hx
    rintro rfl
    exact hc _ h.awaits.slot
  | fire con timer ans => exact .inl trivial
  | listen | connect | push | pushKey => exact hc.elim

/-- The step relies on what it relies on without the wake-up object. -/
theorem Awake.network_pre (h : Awake id o σ σ') {b : Network.Action}
    (hc : σ'.Contract (.network b)) : σ'.net.Pre (σ'.answered b) := by
  cases b with
  | dispatch ans =>
    refine ⟨hc, fun key hkey o₂ ho₂ => ?_⟩
    rw [h.awaits.alike.eventQueue] at hkey
    rcases h.found_cases key with ⟨-, hnone | ⟨hself, -⟩⟩ |
      ⟨id₁, o₁, o₃, hget, hget', hin, hheap, htwin⟩
    · simp [hnone] at ho₂
    · obtain ⟨event, hevent, hdata⟩ := Option.bind_eq_some_iff.mp hkey
      cases event with
      | data k =>
        obtain rfl := Option.some.inj hdata
        exact absurd hself (h.reserved.queue k (.inl (List.mem_of_mem_head? hevent)))
      | listen | connect | close | clear => cases hdata
    · obtain rfl : o₃ = o₂ := by
        rw [hget'] at ho₂
        exact Option.some.inj (hheap.symm.trans ho₂)
      have hcon := h.coupled.connection hkey o₁ (by rw [hget]; exact hin.heap)
      rw [htwin.same]
      exact hcon
  | poll key event ans => exact hc
  | fire con timer ans => exact hc
  | recycle object => exact hc
  | listen | connect | push | pushKey => exact hc.elim

theorem Awake.exec (h : Awake id o σ σ') {b : Network.Action} (hc : σ'.Contract (.network b))
    (havoids : σ.net.Avoids (some (id, o)) (σ.answered b)) :
    Both (Alike (some (id, o))) (σ.net.exec (σ.answered b)) (σ'.net.exec (σ'.answered b)) := by
  rw [h.answered]
  obtain ⟨reused, hb⟩ :=
    Action.eq_reusing (rfl : (σ.answered b).reusing none = (σ.answered b).reusing none)
  have hboth := h.awaits.alike.exec h.coupled.inv (h.coupled.answered_pre (h.contract hc)).1 havoids
    reused
  rwa [← hb] at hboth

variable [IntrusiveNode L]

/-- With the wake-up object the network thread does what it does without it. -/
theorem Awake.network_step (h : Awake id o σ σ') {b : Network.Action}
    (hc : σ'.Contract (.network b)) (hexec : σ'.network b = .ok τ') :
    ∃ τ, σ.network b = .ok τ ∧ Awake id o τ τ' := by
  have hcontract := h.contract hc
  obtain ⟨net', hnet', hexec⟩ := of_bind_ok hexec
  obtain ⟨packets, hreceived, hexec⟩ := of_bind_ok hexec
  obtain rfl := Except.ok.inj hexec
  rw [h.received] at hreceived
  rcases h.avoids hc with havoids | hmeets
  · obtain ⟨net, hnet, halike⟩ := (h.exec hc havoids).of_ok hnet'
    have hstep : σ.network b = .ok (σ.hears packets net) := by
      simp only [network, hnet, hreceived, ok_bind]
      rfl
    have hcoupled := (h.coupled.network_step hcontract hstep).2.2.2.2
    refine ⟨_, hstep, ?_, ⟨halike, hcoupled.inv, h.awaits.wakeup⟩, hcoupled,
      h.reserved.network_step h.coupled hcontract hstep⟩
    simp only [hears, h.engine, halike.notices, h.awaits.alike.notices]
  · cases hmeets with
    | @record key event ans hindex =>
      have hpoll := h.awaits.poll hindex event (σ'.answers key ans)
      rw [show σ'.net.poll key event (σ'.answers key ans) = .ok net' from hnet'] at hpoll
      obtain rfl : net' = σ'.net := hpoll
      -- without the object the record finds nothing
      obtain ⟨-, hslot, -⟩ := h.awaits.alike.alone _ rfl
      have hslot : σ.net.objects (KeyPool.index key) = none := hindex ▸ hslot
      have hget : σ.net.getObject key = none := by simp [CNetwork.getObject, hslot]
      have hnet : σ.net.exec (σ.answered (.poll key event ans)) = .ok σ.net := by
        change σ.net.poll key event _ = _
        simp only [CNetwork.poll, hslot]
        rfl
      have hnothing : σ.received (.poll key event ans) = .ok [] := by
        simp [System.received, System.input, hget, pure, Except.pure]
      obtain rfl := Except.ok.inj (hnothing.symm.trans hreceived)
      have hhears (ρ : System L) : ρ.hears [] ρ.net = ρ := by simp [hears]
      refine ⟨σ, ?_, by rwa [hhears]⟩
      simp only [network, hnet, hnothing, ok_bind, hhears]
      rfl
    | clear hhead =>
      rw [← h.awaits.alike.eventQueue] at hhead
      cases (h.awaits.dispatch_clear hhead).symm.trans hnet'

omit [IntrusiveNode L] in
/-- With the wake-up object the network thread is asked for the same. -/
theorem Awake.asks (h : Awake id o σ σ') {engine : IOEngine L SerializeMessage}
    (hrequests : σ.Requests engine) (hcoupled : (σ.asks engine).Coupled)
    (hreserved : (σ.asks engine).Reserved o.key) :
    Awake id o (σ.asks engine) (σ'.asks engine) ∧
      ∃ bs, Run CNetwork.Step σ'.net bs (σ'.asks engine).net := by
  cases hrequests with
  | quiet hevents =>
    have hevents' : engine.events = σ'.engine.events := hevents.trans (congrArg _ h.engine.symm)
    rw [asks_quiet hevents] at hcoupled hreserved ⊢
    rw [asks_quiet hevents']
    exact ⟨⟨rfl, h.awaits, hcoupled, hreserved⟩, [], .nil⟩
  | @event event hevents hpre _ =>
    have hevents' : engine.events = σ'.engine.events ++ [event] := by rw [h.engine, hevents]
    rw [asks_event hevents] at hcoupled hreserved ⊢
    rw [asks_event hevents']
    have hpre' : σ'.net.Pre (event.asked engine.protocol) := by
      cases event with
      | listen | connect =>
        simp only [Event.asked, Pre, Free, h.awaits.alike.outstanding]
        exact hpre
      | data | close => rfl
    have hsame : (event.asked engine.protocol).reusing none = event.asked engine.protocol := by
      cases event <;> rfl
    have hboth := h.awaits.alike.exec h.coupled.inv hpre (by cases event <;> trivial) none
    rw [hsame, exec_asked, exec_asked] at hboth
    exact ⟨⟨rfl, ⟨hboth, hcoupled.inv, h.awaits.wakeup⟩, hcoupled, hreserved⟩, _,
      Run.single ⟨hpre', exec_asked ..⟩⟩

/-- A step with the wake-up object is one without it. -/
theorem Awake.step (h : Awake id o σ σ') {a : SystemAction} (hstep : σ'.Step a τ') :
    ∃ τ, σ.Step a τ ∧ Awake id o τ τ' ∧ ∃ bs, Run CNetwork.Step σ'.net bs τ'.net := by
  obtain ⟨hc, hexec⟩ := hstep
  have hcontract := h.contract hc
  cases a with
  | engine a =>
    obtain ⟨engine, hengine, hexec⟩ := of_bind_ok hexec
    obtain rfl := Except.ok.inj hexec
    rw [h.engine] at hengine
    have hasks := h.asks (exec_requests hcontract hengine) (h.coupled.engine_step hcontract hengine).2
      (h.reserved.engine_step h.coupled hcontract hengine)
    refine ⟨_, ⟨hcontract, ?_⟩, hasks⟩
    simp only [System.exec, hengine, ok_bind]
    rfl
  | confirmListen uid | confirmConnect uid =>
    obtain ⟨⟨confirmed, engine⟩, hconfirm, hexec⟩ := of_bind_ok hexec
    obtain rfl := Except.ok.inj hexec
    rw [h.engine] at hconfirm
    have hasks := h.asks (confirm_requests hconfirm) (h.coupled.confirmed hconfirm).2.2
      (h.reserved.confirmed h.coupled hconfirm)
    refine ⟨_, ⟨hcontract, ?_⟩, hasks⟩
    simp only [System.exec, hconfirm, ok_bind]
    rfl
  | network b =>
    obtain ⟨τ, hnetwork, hawake⟩ := h.network_step hc hexec
    refine ⟨τ, ⟨hcontract, hnetwork⟩, hawake, ?_⟩
    obtain ⟨net, hnet, hexec⟩ := of_bind_ok hexec
    obtain ⟨packets, -, hexec⟩ := of_bind_ok hexec
    obtain rfl := Except.ok.inj hexec
    exact ⟨_, Run.single ⟨h.network_pre hc, hnet⟩⟩
  | clear group =>
    obtain rfl := Except.ok.inj hexec
    refine ⟨_, ⟨hcontract, rfl⟩, ?_, [.push (.clear group)], Run.single ⟨rfl, rfl⟩⟩
    have hcoupled := (h.coupled.clear group).2
    refine ⟨h.engine, ⟨h.awaits.alike.pushEvent (by rintro _ ⟨⟩), hcoupled.inv, h.awaits.wakeup⟩,
      hcoupled, h.reserved.taken, h.reserved.apart, fun k hk => h.reserved.queue k ?_⟩
    simpa [CNetwork.pushEvent] using hk
  | recycle p =>
    obtain rfl := Except.ok.inj hexec
    obtain ⟨-, hnet, hcoupled⟩ := h.coupled.recycle hcontract
    have hne : (σ.engine.protocol p).key ≠ o.key := h.reserved.apart p hcontract.1
    have hunused : σ'.net.Unused (σ.engine.protocol p).key := by
      refine ⟨fun id₁ o₂ hheap hkey => ?_, h.awaits.alike.eventQueue ▸ hnet.1.2⟩
      by_cases hself : id₁ = id
      · subst hself
        obtain rfl := Option.some.inj (h.awaits.heap.symm.trans hheap)
        exact hne hkey.symm
      · rcases h.heap_cases hself with
          ⟨-, hnone⟩ | ⟨o₁, o₃, hheap₁, hheap₃, htwin⟩
        · cases hnone.symm.trans hheap
        · obtain rfl := Option.some.inj (hheap.symm.trans hheap₃)
          refine hnet.1.1 id₁ o₁ hheap₁ ?_
          rw [← hkey, htwin.same]
    have hsame : σ'.recycle p = ⟨σ.engine.recycle p, σ'.net.pushKey (σ.engine.protocol p).key⟩ := by
      simp [System.recycle, h.engine]
    rw [hsame]
    refine ⟨_, ⟨hcontract, rfl⟩, ⟨rfl, ⟨?_, hcoupled.inv, h.awaits.wakeup⟩, hcoupled, ?_⟩,
      [.pushKey _], Run.single ⟨hunused, rfl⟩⟩
    · exact h.awaits.alike.pushKey fun x hx => Option.some.inj hx ▸ hne
    · refine ⟨(List.mem_erase_of_ne hne.symm).mpr h.reserved.taken, fun q hq => ?_, h.reserved.queue⟩
      exact h.reserved.apart q (List.mem_of_mem_erase hq)

/-! ### Runs -/

theorem awake_init {socket : Int} (hkey : key ≠ 0) (hsocket : socket ≠ -1)
    (hinit : init key socket = .ok σ') :
    Awake 0 (wakeupObject key socket) (unwoken key) σ' := by
  obtain ⟨net, hnet, hinit⟩ := of_bind_ok hinit
  obtain rfl := Except.ok.inj hinit
  have hfree : empty.Free key := .inr (by rintro _ ⟨⟩)
  have hpop : empty.popKey key = { outstanding := [key] } := by
    rw [popKey, if_neg hkey]
    rfl
  have hfresh := inv_empty.fresh_popKey hfree hkey
  have hinv := (inv_empty.popKey hfree).inv
  rw [hpop] at hfresh hinv
  have hsame : empty.init key socket = .ok _ :=
    init_eq hkey hsocket (by rw [hpop])
  rw [hpop] at hsame
  obtain rfl := Except.ok.inj (hsame.symm.trans hnet)
  refine ⟨rfl, awaits_withWakeup hinv (by rintro _ ⟨⟩) hfresh socket, coupled_unwoken key, ?_, ?_, ?_⟩
  · exact List.mem_singleton_self key
  · rintro p ⟨⟩
  · rintro k (⟨⟨⟩⟩ | ⟨⟨⟩⟩)

/-- A run from the start of a process is one without the wake-up object. -/
theorem awake_run {socket : Int} {σ₀ : System L} {as : List SystemAction} (hkey : key ≠ 0)
    (hsocket : socket ≠ -1) (hinit : init key socket = .ok σ₀) (run : Run Step σ₀ as σ') :
    ∃ σ, Run Step (unwoken key) as σ ∧ Awake 0 (wakeupObject key socket) σ σ' := by
  refine run.simulate (fun σ' σ => Awake 0 (wakeupObject key socket) σ σ') ?_
    (awake_init hkey hsocket hinit)
  intro σ' a τ' σ h hstep
  obtain ⟨τ, hstep, h, -⟩ := h.step hstep
  exact ⟨τ, hstep, h⟩

/-- The network thread comes across the wake-up object, which has no protocol and no error callback. -/
inductive Trips (σ : System L) : Network.Action → Fault → Prop
  | clear {ans : Answers} {group : Int} (hhead : σ.net.eventQueue.head? = some (.clear group)) :
      Trips σ (.dispatch ans) .nullPointer
  | record {key : UInt32} {event : Record} {ans : Answers} {id : ObjectId} {o : IOObject}
      (hget : σ.net.getObject key = some id) (hheap : σ.net.heap id = some o)
      (htype : o.type = .WAKEUP) (herr : event.err = true) :
      Trips σ (.poll key event ans) (.assertion .poll)

omit [IntrusiveNode L] in
/-- A step fails as one without the wake-up object does, or comes across it. -/
theorem Awake.fails (h : Awake id o σ σ') {b : Network.Action} {f : Fault}
    (hc : σ'.Contract (.network b)) (hexec : σ'.network b = .error f) :
    Foreign f ∨ σ'.received b = .error f ∨ σ'.Trips b f := by
  rcases network_error.mp hexec with hfails | ⟨-, hreceived⟩
  · rcases h.avoids hc with havoids | hmeets
    · have hnet := (h.exec hc havoids).of_error hfails
      rw [h.received]
      exact (h.coupled.fails (h.contract hc) (network_error.mpr (.inl hnet))).imp_right .inl
    · refine .inr (.inr ?_)
      cases hmeets with
      | @clear ans group hhead =>
        rw [← h.awaits.alike.eventQueue] at hhead
        obtain rfl := Except.error.inj
          ((h.awaits.dispatch_clear hhead).symm.trans hfails)
        exact .clear hhead
      | @record key event ans hindex =>
        have hpoll := h.awaits.poll hindex event (σ'.answers key ans)
        rw [show σ'.net.poll key event (σ'.answers key ans) = .error f from hfails] at hpoll
        obtain ⟨rfl, rfl, herr⟩ := hpoll
        exact .record h.awaits.getObject h.awaits.heap h.awaits.wakeup.type herr
  · exact .inr (.inl hreceived)

omit [IntrusiveNode L] in
/-- What comes across the wake-up object fails. -/
theorem Awake.trips (h : Awake id o σ σ') {b : Network.Action} {f : Fault} (htrips : σ'.Trips b f) :
    σ'.network b = .error f := by
  refine network_error.mpr (.inl ?_)
  cases htrips with
  | clear hhead => exact h.awaits.dispatch_clear hhead
  | @record key event ans id₁ o₂ hget hheap htype herr =>
    rcases h.found_cases key with ⟨-, hnone | ⟨rfl, hself⟩⟩ |
      ⟨id₂, o₁, o₃, -, hget', hin, hheap', htwin⟩
    · cases hnone.symm.trans hget
    · change σ'.net.poll o.key event _ = _
      simp only [CNetwork.poll, h.awaits.slot, get_eq h.awaits.heap, ok_bind, herr,
        h.awaits.wakeup.errorCallback, ne_eq, not_true_eq_false, if_false, if_true]
      rfl
    · obtain rfl := Option.some.inj (hget'.symm.trans hget)
      obtain rfl := Option.some.inj (hheap'.symm.trans hheap)
      rw [htwin.same] at htype
      have htype : o₁.type = .WAKEUP := htype
      cases h.coupled.inv.settled hin with
      | listening hl => cases htype.symm.trans hl.type
      | established hest =>
        have hcon := hest.type
        simp [isConnection, htype] at hcon
      | attempting ha => cases htype.symm.trans ha.type

/-- In every run of a process each of the two parts makes a run that keeps to what the other relies on.
A step of the network thread fails for what comes from outside: a size past 32 bits, an end point without
names, or a frame that cannot be read; and where it comes across the wake-up object, as every clear does,
and the scan of the buffers would in every state. -/
theorem contracts_kept {socket : Int} {σ₀ : System L} {as : List SystemAction} (hkey : key ≠ 0)
    (hsocket : socket ≠ -1) (hinit : init key socket = .ok σ₀) (run : Run Step σ₀ as σ) :
    (∃ bs, Run IOEngine.Served .init bs σ.engine) ∧
    (∃ bs, Run CNetwork.Step σ₀.net bs σ.net) ∧
    (∀ b f, σ.Contract (.network b) → σ.network b = .error f →
      Foreign f ∨ σ.received b = .error f ∨ σ.Trips b f) ∧
    (∀ b f, σ.Trips b f → σ.network b = .error f) ∧
    σ.net.onTimer1000ms = .error .nullPointer := by
  let R (σ' σ : System L) : Prop := Awake 0 (wakeupObject key socket) σ σ' ∧
    (∃ bs, Run IOEngine.Served .init bs σ'.engine) ∧ ∃ bs, Run CNetwork.Step σ₀.net bs σ'.net
  have hstart : R σ₀ (unwoken key) := by
    have h := awake_init hkey hsocket hinit
    exact ⟨h, ⟨[], h.engine ▸ .nil⟩, [], .nil⟩
  have hsimulates : ∃ τ, Run Step (unwoken key) as τ ∧ R σ τ := by
    refine run.simulate R (fun σ' a τ' σ hR hstep => ?_) hstart
    obtain ⟨h, ⟨as, hengine⟩, bs, hnet⟩ := hR
    obtain ⟨τ, hstep, h', bs', hnet'⟩ := h.step hstep
    obtain ⟨⟨as', hengine'⟩, -, -⟩ := h.coupled.step hstep
    rw [← h.engine, ← h'.engine] at hengine'
    exact ⟨τ, hstep, h', ⟨_, hengine.append hengine'⟩, _, hnet.append hnet'⟩
  obtain ⟨τ, -, h, hengine, hnet⟩ := hsimulates
  exact ⟨hengine, hnet, fun b f hc hexec => h.fails hc hexec, fun b f htrips => h.trips htrips,
    h.awaits.onTimer1000ms⟩

/-- A process with its wake-up object, whose key is 1. -/
def started : System (List HandlerId) :=
  let _ := KeyPool.lowBits
  { engine := @IOEngine.init _ _ .list, net := (empty.popKey 1).withWakeup 1 2 }

omit [KeyPool] [IntrusiveNode L] in
theorem started_init : @init _ .lowBits .list 1 2 = .ok started := by
  let _ := KeyPool.lowBits
  let _ := IntrusiveNode.list
  have hinit : CNetwork.init {} 1 2 = .ok ((empty.popKey 1).withWakeup 1 2) :=
    init_eq (σ := empty) (by decide) (by decide) rfl
  simp only [init, hinit, ok_bind]
  rfl

/-- A protocol is opened as a listener, the engine waits until it listens, and a connection is
accepted. -/
def servingActions : List SystemAction :=
  [.engine .create, .engine (.listen 80 0 5), .network (.dispatch { socket := 3 }),
    .confirmListen 5,
    .network (.poll 5 { readable := true }
      { accepted := some (4, ⟨2, 81⟩), key := 6, created := some 0 })]

/-- A process with a listener and a connection, of which the engine has not heard yet. -/
def serving : System (List HandlerId) :=
  let _ := KeyPool.lowBits
  let _ := IntrusiveNode.list
  let opened := (started.next (.engine .create)).next (.engine (.listen 80 0 5))
  let listening := (opened.next (.network (.dispatch { socket := 3 }))).next (.confirmListen 5)
  listening.next (.network (.poll 5 { readable := true }
    { accepted := some (4, ⟨2, 81⟩), key := 6, created := some 0 }))

omit [KeyPool] [IntrusiveNode L] in
theorem serving_run : Run (@Step _ .lowBits .list) started servingActions serving := by
  let _ := KeyPool.lowBits
  let _ := IntrusiveNode.list
  have h1 := Run.nil.snoc (step_next (σ := started) (a := .engine .create) trivial rfl)
  have h2 := h1.snoc (step_next (a := .engine (.listen 80 0 5))
    ⟨by decide, free_of_outstanding [1] rfl (by simp; decide)⟩ (by decide +kernel))
  have h3 := h2.snoc (step_next (a := .network (.dispatch { socket := 3 })) (by rintro _ ⟨⟩)
    (by decide +kernel))
  have h4 := h3.snoc (step_next (a := .confirmListen 5) trivial (by decide +kernel))
  have h5 := h4.snoc (step_next (a := .network (.poll 5 { readable := true }
      { accepted := some (4, ⟨2, 81⟩), key := 6, created := some 0 }))
    ⟨free_of_outstanding [5, 1] (by decide +kernel) (by simp; decide),
      by unfold Found; decide +kernel⟩
    (by decide +kernel))
  exact h5

omit [KeyPool] [IntrusiveNode L] in
/-- The peer of the connection sends a frame of size 0, and the step that reads it fails. -/
theorem contracts_kept_serving :
    (∃ bs, Run (@IOEngine.Served _ .list _) (@IOEngine.init _ _ .list) bs serving.engine) ∧
    (∃ bs, Run (@CNetwork.Step .lowBits) started.net bs serving.net) ∧
    ∃ b f, @Contract _ .lowBits serving (.network b) ∧ @network _ .lowBits serving b = .error f ∧
      (Foreign f ∨ @received _ .lowBits serving b = .error f ∨ @Trips _ .lowBits serving b f) := by
  let _ := KeyPool.lowBits
  let _ := IntrusiveNode.list
  obtain ⟨hengine, hnet, hfails, -⟩ :=
    contracts_kept (by decide) (by decide) started_init serving_run
  let b : Network.Action := .poll 6 { readable := true } { readv := some [0x81, 0, 0, 0, 0] }
  have hc : serving.Contract (.network b) := ⟨.inl rfl, by unfold Found; decide +kernel⟩
  have hbool : (serving.network b).toBool = false := by decide +kernel
  cases herror : serving.network b with
  | ok τ => simp [herror, Except.toBool] at hbool
  | error f => exact ⟨hengine, hnet, b, f, hc, herror, hfails b f hc herror⟩

end System

end ZlNet.Engine
