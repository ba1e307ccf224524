import ZlNet.Lib.Outcome
import ZlNet.Network.Loop

/-! What is true of the network thread between two steps: the objects of its table are registered
with the poller as their state and their buffers ask for, and no step fails an assertion of the
network thread. -/

namespace ZlNet.Network

open Lib Lib.Word IOObject

/-! ### Objects -/

namespace IOObject

variable {o : IOObject}

theorem registerReadHandler_eq (h : o.events = 0) :
    o.registerReadHandler = { o with events := READ_EVENT } := by
  simp [registerReadHandler, updateObject, h, READ_EVENT]

theorem registerWriteHandler_eq (h : o.events = 0) :
    o.registerWriteHandler = { o with events := WRITE_EVENT } := by
  simp [registerWriteHandler, updateObject, h, WRITE_EVENT]

/-- Deregistering the write handler of an object that reads and writes. -/
theorem deregisterWriteHandler_of_writing (h : o.events = READ_EVENT ||| WRITE_EVENT) :
    o.deregisterWriteHandler = { o with events := READ_EVENT } := by
  simp [deregisterWriteHandler, updateObject, h, READ_EVENT, WRITE_EVENT]

/-- Deregistering it where it is not registered registers it. -/
theorem deregisterWriteHandler_of_reading (h : o.events = READ_EVENT) :
    o.deregisterWriteHandler = { o with events := READ_EVENT ||| WRITE_EVENT } := by
  simp [deregisterWriteHandler, updateObject, h, READ_EVENT, WRITE_EVENT]

structure Listening (o : IOObject) : Prop where
  type : o.type = .LISTENER
  events : o.events = READ_EVENT
  errorCallback : o.errorCallback = some .defaultErrorHandle
  readCallback : o.readCallback = some .handleTcpAccept
  endPoint : o.endPoint.isSome
  timers : o.timers = []

/-- A connection that is connected, or is being closed while it sends what it still has. -/
structure Established (o : IOObject) : Prop where
  type : o.isConnection
  events : o.events = if o.isWriting then READ_EVENT ||| WRITE_EVENT else READ_EVENT
  writing : o.isWriting = true ↔ o.outBuffer.bytes ≠ []
  bound : o.outBuffer.size < 2 ^ 32
  errorCallback : o.errorCallback = some .handleTcpConError
  readCallback : o.readCallback = some .handleTcpConRead
  writeCallback : o.writeCallback = some .handleTcpConWrite
  endPoint : o.endPoint.isSome
  timers : o.state = .CONNECTED ∧ o.timers = [.onTimer] ∨
    o.state = .DISCONNECTING ∧ o.timers = [.onTimer, .forceClose]

theorem Established.hasReading (h : o.Established) : o.hasReading = true := by
  rw [IOObject.hasReading, h.events]
  split <;> decide

theorem Established.hasWriting (h : o.Established) : o.hasWriting = o.isWriting := by
  rw [IOObject.hasWriting, h.events]
  cases o.isWriting <;> decide

theorem established_setConnected (hcon : o.isConnection = true) (hevents : o.events = 0)
    (hwriting : o.isWriting = false) (hout : o.outBuffer.bytes = []) (hend : o.endPoint.isSome)
    (htimers : o.timers = []) :
    (o.setConnected.registerReadHandler.startTimer .onTimer).Established := by
  rw [registerReadHandler_eq (by exact hevents)]
  refine ⟨hcon, ?_, ?_, ?_, rfl, rfl, rfl, hend, .inl ⟨rfl, ?_⟩⟩
  · simp [startTimer, setConnected, hwriting]
  · simp [startTimer, setConnected, hwriting, hout]
  · simp [startTimer, setConnected, IIOBuffer.size, hout]
  · simp [startTimer, setConnected, htimers]

/-- A connector that tries to connect, or waits before it tries again. -/
structure Attempting (o : IOObject) : Prop where
  type : o.type = .CONNECTOR
  errorCallback : o.errorCallback = some .handleTcpConnectError
  writeCallback : o.writeCallback = some .handleTcpConnectWrite
  isWriting : o.isWriting = false
  outBuffer : o.outBuffer.bytes = []
  phase : o.state = .CONNECTING ∧ o.events = WRITE_EVENT ∧ o.endPoint.isSome ∧ o.timers = [] ∨
    o.state = .DISCONNECTED ∧ o.events = 0 ∧ o.endPoint = none ∧ ∃ a, o.timers = [.reconnect a]

/-- The object is in one of the conditions that an object of the table has between two steps. -/
inductive Settled (o : IOObject) : Prop
  | listening (h : o.Listening)
  | established (h : o.Established)
  | attempting (h : o.Attempting)

/-- The object has a protocol whose key it has. -/
def Held (o : IOObject) : Prop := ∃ p, o.protocol = some p ∧ p.key = o.key ∧ p.protocolType = .TCP

theorem Established.state_cases (h : o.Established) :
    o.state = .CONNECTED ∨ o.state = .DISCONNECTING :=
  h.timers.imp And.left And.left

theorem Attempting.not_session (h : o.Attempting) : o.type ≠ .SESSION := by
  simp [h.type]

theorem Listening.not_connection (h : o.Listening) : o.isConnection = false := by
  simp [isConnection, h.type]

theorem Listening.hasWriting (h : o.Listening) : o.hasWriting = false := by
  rw [IOObject.hasWriting, h.events]
  decide

theorem Attempting.hasReading (h : o.Attempting) : o.hasReading = false := by
  rcases h.phase with ⟨-, hevents, -⟩ | ⟨-, hevents, -⟩ <;> rw [IOObject.hasReading, hevents] <;>
    decide

/-- A connector that is registered is connecting. -/
theorem Attempting.connecting (h : o.Attempting) (hevents : o.events ≠ 0) :
    o.state = .CONNECTING :=
  h.phase.elim And.left fun hphase => absurd hphase.2.1 hevents

theorem events_ne_zero (h : o.hasWriting = true) : o.events ≠ 0 := by
  intro hevents
  simp [hasWriting, hevents] at h

theorem Attempting.isConnection (h : o.Attempting) : o.isConnection = true := by
  simp [IOObject.isConnection, h.type]

/-- What a connection of the table is registered for, by its state. -/
structure Registered (o : IOObject) : Prop where
  established : o.state = .CONNECTED ∨ o.state = .DISCONNECTING →
    o.hasReading = true ∧ (o.isWriting = true ↔ o.hasWriting = true) ∧
      (o.hasWriting = true ↔ o.outBuffer.size ≠ 0)
  connecting : o.state = .CONNECTING → o.events = WRITE_EVENT ∧ o.outBuffer.size = 0
  disconnected : o.state = .DISCONNECTED →
    o.type = .CONNECTOR ∧ o.endPoint = none ∧ o.events = 0

theorem Settled.registered (h : o.Settled) (hcon : o.isConnection = true) : Registered o := by
  cases h with
  | listening hl => simp [hl.not_connection] at hcon
  | established hest =>
    refine ⟨fun _ => ⟨hest.hasReading, by rw [hest.hasWriting], ?_⟩, ?_, ?_⟩
    · rw [hest.hasWriting, hest.writing, IIOBuffer.size, Ne, Ne, List.length_eq_zero_iff]
    · intro hstate
      rcases hest.state_cases with hstate' | hstate' <;> simp [hstate'] at hstate
    · intro hstate
      rcases hest.state_cases with hstate' | hstate' <;> simp [hstate'] at hstate
  | attempting ha =>
    rcases ha.phase with ⟨hstate, hevents, -⟩ | ⟨hstate, hevents, hend, -⟩
    · exact ⟨by simp [hstate], fun _ => ⟨hevents, by simp [IIOBuffer.size, ha.outBuffer]⟩,
        by simp [hstate]⟩
    · exact ⟨by simp [hstate], by simp [hstate], fun _ => ⟨ha.type, hend, hevents⟩⟩

end IOObject

namespace CNetwork

variable [KeyPool] {σ τ υ : CNetwork} {id : ObjectId} {o o' : IOObject} {p : IOProtocol}
  {key : UInt32} {ans : Answers}

/-! ### The invariant -/

/-- The object is in the table, in the slot of its key. -/
structure InTable (σ : CNetwork) (id : ObjectId) (o : IOObject) : Prop where
  heap : σ.heap id = some o
  slot : σ.objects (KeyPool.index o.key) = some id

structure Inv (σ : CNetwork) : Prop where
  table : ∀ i id, σ.objects i = some id →
    ∃ o, σ.heap id = some o ∧ KeyPool.index o.key = i ∧ o.Settled
  /-- Every object has a protocol and its outstanding key, and one that is not in the table is not
  registered. -/
  held : ∀ id o, σ.heap id = some o → id < σ.created ∧ o.key ∈ σ.outstanding ∧ o.Held ∧
    (o.events = 0 ∨ σ.objects (KeyPool.index o.key) = some id)
  unique : ∀ id id' o o', σ.heap id = some o → σ.heap id' = some o' → o.key = o'.key → id = id'
  slots : ∀ k ∈ σ.outstanding, ∀ k' ∈ σ.outstanding, KeyPool.index k = KeyPool.index k' → k = k'
  queued : ∀ e ∈ σ.eventQueue, ∀ k, e.protocolKey = some k →
    k ∈ σ.outstanding ∧ ∀ id o, σ.heap id = some o → o.key ≠ k
  nodup : (σ.eventQueue.filterMap IOEvent.protocolKey).Nodup
  clean : ∀ o ∈ σ.pool, o.outBuffer.bytes = [] ∧ o.timers = []

/-- A step leads to a state with the invariant and recycles no object. -/
structure Leads (σ τ : CNetwork) : Prop where
  inv : τ.Inv
  keeps : ∀ id, (σ.heap id).isSome → (τ.heap id).isSome

/-- The faults that are not the network thread's own: a size past 32 bits, a frame of 2 GiB, an
end point that has lost its names, and a protocol for UDP, which the network does not have. -/
def Foreign (f : Fault) : Prop :=
  f = .overflow ∨ f = .outOfBounds ∨ f = .assertion .isSelfConnect ∨
    f = .assertion .processListen ∨ f = .assertion .processConnect

theorem Inv.refl (h : σ.Inv) : σ.Leads σ := ⟨h, fun _ hid => hid⟩

theorem Leads.trans (h : σ.Leads τ) (h' : τ.Leads υ) : σ.Leads υ :=
  ⟨h'.inv, fun id hid => h'.keeps id (h.keeps id hid)⟩

theorem Inv.notices (h : σ.Inv) (notices : List (IOProtocol × Notice)) :
    σ.Leads { σ with notices } :=
  ⟨⟨h.table, h.held, h.unique, h.slots, h.queued, h.nodup, h.clean⟩, fun _ hid => hid⟩

theorem Inv.settled (h : σ.Inv) (hin : σ.InTable id o) : o.Settled := by
  obtain ⟨o', hheap, -, hsettled⟩ := h.table _ _ hin.slot
  obtain rfl := Option.some.inj (hin.heap.symm.trans hheap)
  exact hsettled

theorem Inv.inTable (h : σ.Inv) {i : Nat} (hslot : σ.objects i = some id) :
    ∃ o, σ.InTable id o ∧ KeyPool.index o.key = i := by
  obtain ⟨o, hheap, rfl, -⟩ := h.table i id hslot
  exact ⟨o, ⟨hheap, hslot⟩, rfl⟩

/-- Changing an object, and perhaps taking it out of the table, keeps the invariant if the object
keeps its key and protocol, stays settled where it is in the table, and is not registered where it
is not. -/
theorem Inv.change (h : σ.Inv) {objects : Nat → Option ObjectId} (hheap : σ.heap id = some o)
    (hkey : o'.key = o.key) (hprotocol : o'.protocol = o.protocol)
    (hsub : ∀ i id₁, objects i = some id₁ → σ.objects i = some id₁)
    (hother : ∀ i id₁, σ.objects i = some id₁ → id₁ ≠ id → objects i = some id₁)
    (hevents : o'.events = 0 ∨ objects (KeyPool.index o.key) = some id)
    (hsettled : objects (KeyPool.index o.key) = some id → o'.Settled) :
    σ.Leads { σ.put id o' with objects } := by
  have horigin (id₁ o₁) (h₁ : (σ.put id o').heap id₁ = some o₁) :
      ∃ o₂, σ.heap id₁ = some o₂ ∧ o₁.key = o₂.key ∧ o₁.protocol = o₂.protocol := by
    by_cases heq : id₁ = id
    · subst heq
      obtain rfl := Option.some.inj ((σ.put_heap_self id₁ o').symm.trans h₁)
      exact ⟨o, hheap, hkey, hprotocol⟩
    · exact ⟨o₁, (σ.put_heap_ne o' heq).symm.trans h₁, rfl, rfl⟩
  refine ⟨⟨fun i id₁ hslot => ?_, fun id₁ o₁ h₁ => ?_, fun id₁ id₂ o₁ o₂ h₁ h₂ heq => ?_, h.slots,
    fun e he k hk => ⟨(h.queued e he k hk).1, fun id₁ o₁ h₁ => ?_⟩, h.nodup, h.clean⟩,
    fun id₁ hid => ?_⟩
  · obtain ⟨o₁, hin, rfl⟩ := h.inTable (hsub i id₁ hslot)
    by_cases heq : id₁ = id
    · subst heq
      obtain rfl := Option.some.inj (hheap.symm.trans hin.heap)
      exact ⟨o', σ.put_heap_self id₁ o', by rw [hkey], hsettled hslot⟩
    · exact ⟨o₁, (σ.put_heap_ne o' heq).trans hin.heap, rfl, h.settled hin⟩
  · obtain ⟨o₂, h₂, hk, hp⟩ := horigin id₁ o₁ h₁
    obtain ⟨hlt, hout, hheld, hreg⟩ := h.held id₁ o₂ h₂
    refine ⟨hlt, hk ▸ hout, by simpa [Held, hk, hp] using hheld, ?_⟩
    by_cases heq : id₁ = id
    · subst heq
      obtain rfl := Option.some.inj ((σ.put_heap_self id₁ o').symm.trans h₁)
      exact hkey ▸ hevents
    · obtain rfl := Option.some.inj (h₁.symm.trans ((σ.put_heap_ne o' heq).trans h₂))
      exact hreg.imp_right fun hslot => hother _ id₁ hslot heq
  · obtain ⟨o₁', h₁', hk₁, -⟩ := horigin id₁ o₁ h₁
    obtain ⟨o₂', h₂', hk₂, -⟩ := horigin id₂ o₂ h₂
    exact h.unique id₁ id₂ o₁' o₂' h₁' h₂' (by rw [← hk₁, ← hk₂, heq])
  · obtain ⟨o₂, h₂, hk₂, -⟩ := horigin id₁ o₁ h₁
    rw [hk₂]
    exact (h.queued e he k hk).2 id₁ o₂ h₂
  · by_cases heq : id₁ = id
    · subst heq
      exact Option.isSome_iff_exists.mpr ⟨o', σ.put_heap_self id₁ o'⟩
    · exact (σ.put_heap_ne o' heq).symm ▸ hid

/-- Changing an object of the table. -/
theorem Inv.set (h : σ.Inv) (hin : σ.InTable id o) (hsettled : o'.Settled)
    (hkey : o'.key = o.key) (hprotocol : o'.protocol = o.protocol) : σ.Leads (σ.put id o') :=
  h.change hin.heap hkey hprotocol (fun _ _ hslot => hslot) (fun _ _ hslot _ => hslot)
    (.inr hin.slot) fun _ => hsettled

/-- Changing an object that is not in the table. -/
theorem Inv.set_absent (h : σ.Inv) (hheap : σ.heap id = some o) (hkey : o'.key = o.key)
    (hprotocol : o'.protocol = o.protocol) (hevents : o'.events = 0)
    (habsent : σ.objects (KeyPool.index o.key) ≠ some id) : σ.Leads (σ.put id o') :=
  h.change hheap hkey hprotocol (fun _ _ hslot => hslot) (fun _ _ hslot _ => hslot)
    (.inl hevents) fun hslot => absurd hslot habsent

/-- The state after object `id` has become `o` and left the table. -/
def removed (σ : CNetwork) (id : ObjectId) (o : IOObject) : CNetwork :=
  { σ.put id o with objects := Function.update σ.objects (KeyPool.index o.key) none }

theorem Inv.removed (h : σ.Inv) (hin : σ.InTable id o) (hkey : o'.key = o.key)
    (hprotocol : o'.protocol = o.protocol) (hevents : o'.events = 0) :
    σ.Leads (σ.removed id o') := by
  refine h.change hin.heap hkey hprotocol (fun i id₁ hslot => ?_) (fun i id₁ hslot hne => ?_)
    (.inl hevents) (by simp [hkey])
  · rw [Function.update_apply] at hslot
    split at hslot
    · cases hslot
    · exact hslot
  · rw [Function.update_apply, if_neg, hslot]
    rintro rfl
    rw [hkey, hin.slot] at hslot
    exact hne (Option.some.inj hslot).symm

/-! ### New objects -/

/-- The key is taken, and neither an object nor a queued event has it. -/
structure Fresh (σ : CNetwork) (key : UInt32) : Prop where
  outstanding : key ∈ σ.outstanding
  heap : ∀ id o, σ.heap id = some o → o.key ≠ key
  queue : key ∉ σ.eventQueue.filterMap IOEvent.protocolKey

/-- The slot of a fresh key is empty. -/
theorem Inv.slot_of_fresh (h : σ.Inv) (hfresh : σ.Fresh key) :
    σ.objects (KeyPool.index key) = none := by
  cases hslot : σ.objects (KeyPool.index key) with
  | none => rfl
  | some id =>
    obtain ⟨o, hin, hindex⟩ := h.inTable hslot
    have hkey := h.slots _ (h.held id o hin.heap).2.1 _ hfresh.outstanding hindex
    exact absurd hkey (hfresh.heap id o hin.heap)

/-- The number of the next object is not in use. -/
theorem Inv.created_free (h : σ.Inv) : σ.heap σ.created = none := by
  cases hheap : σ.heap σ.created with
  | none => rfl
  | some o => exact absurd (h.held _ o hheap).1 (Nat.lt_irrefl _)

/-- The state after a new object has been taken from the pool, and put in the table or not. -/
def added (σ : CNetwork) (o : IOObject) (pool : List IOObject) (inTable : Bool) : CNetwork :=
  { σ.put σ.created o with
    pool, created := σ.created + 1
    objects := if inTable then
        Function.update σ.objects (KeyPool.index o.key) (some σ.created)
      else σ.objects }

theorem Inv.added (h : σ.Inv) {pool : List IOObject} {inTable : Bool} (hfresh : σ.Fresh o.key)
    (hheld : o.Held) (hpool : ∀ o ∈ pool, o ∈ σ.pool)
    (hevents : inTable = false → o.events = 0) (hsettled : inTable = true → o.Settled) :
    σ.Leads (σ.added o pool inTable) := by
  have hfree := h.created_free
  have hself : (σ.added o pool inTable).heap σ.created = some o := σ.put_heap_self σ.created o
  have hother {id₁ o₁} (h₁ : σ.heap id₁ = some o₁) :
      id₁ ≠ σ.created ∧ (σ.added o pool inTable).heap id₁ = some o₁ := by
    have hne : id₁ ≠ σ.created := by
      rintro rfl
      rw [hfree] at h₁
      cases h₁
    exact ⟨hne, (σ.put_heap_ne o hne).trans h₁⟩
  have hcases {id₁ o₁} (h₁ : (σ.added o pool inTable).heap id₁ = some o₁) :
      (id₁ = σ.created ∧ o₁ = o) ∨ σ.heap id₁ = some o₁ := by
    by_cases heq : id₁ = σ.created
    · subst heq
      exact .inl ⟨rfl, (Option.some.inj (hself.symm.trans h₁)).symm⟩
    · exact .inr ((σ.put_heap_ne o heq).symm.trans h₁)
  have hslots (i id₁) : (σ.added o pool inTable).objects i = some id₁ ↔
      (inTable = true ∧ i = KeyPool.index o.key ∧ id₁ = σ.created) ∨ σ.objects i = some id₁ := by
    have hempty := h.slot_of_fresh hfresh
    cases inTable with
    | false => simp [CNetwork.added]
    | true =>
      by_cases heq : i = KeyPool.index o.key
      · simp [CNetwork.added, heq, hempty, eq_comm]
      · simp [CNetwork.added, heq]
  refine ⟨⟨fun i id₁ hslot => ?_, fun id₁ o₁ h₁ => ?_, fun id₁ id₂ o₁ o₂ h₁ h₂ heq => ?_, h.slots,
    fun e he k hk => ⟨(h.queued e he k hk).1, fun id₁ o₁ h₁ => ?_⟩, h.nodup,
    fun o₁ ho₁ => h.clean o₁ (hpool o₁ ho₁)⟩, fun id₁ hid => ?_⟩
  · rcases (hslots i id₁).mp hslot with ⟨hin, rfl, rfl⟩ | hslot
    · exact ⟨o, hself, rfl, hsettled hin⟩
    · obtain ⟨o₁, hin, rfl⟩ := h.inTable hslot
      exact ⟨o₁, (hother hin.heap).2, rfl, h.settled hin⟩
  · rcases hcases h₁ with ⟨rfl, rfl⟩ | h₁
    · refine ⟨Nat.lt_succ_self _, hfresh.outstanding, hheld, ?_⟩
      cases inTable with
      | false => exact .inl (hevents rfl)
      | true => exact .inr ((hslots _ _).mpr (.inl ⟨rfl, rfl, rfl⟩))
    · obtain ⟨hlt, hout, hheld₁, hreg⟩ := h.held id₁ o₁ h₁
      exact ⟨Nat.lt_succ_of_lt hlt, hout, hheld₁, hreg.imp_right fun hs => (hslots _ _).mpr (.inr hs)⟩
  · rcases hcases h₁ with ⟨rfl, rfl⟩ | hold₁
    · rcases hcases h₂ with ⟨rfl, rfl⟩ | hold₂
      · rfl
      · exact absurd heq.symm (hfresh.heap id₂ o₂ hold₂)
    · rcases hcases h₂ with ⟨rfl, rfl⟩ | hold₂
      · exact absurd heq (hfresh.heap id₁ o₁ hold₁)
      · exact h.unique id₁ id₂ o₁ o₂ hold₁ hold₂ heq
  · rcases hcases h₁ with ⟨rfl, rfl⟩ | h₁
    · rintro rfl
      exact hfresh.queue (List.mem_filterMap.mpr ⟨e, he, hk⟩)
    · exact (h.queued e he k hk).2 id₁ o₁ h₁
  · obtain ⟨o₁, h₁⟩ := Option.isSome_iff_exists.mp hid
    exact Option.isSome_iff_exists.mpr ⟨o₁, (hother h₁).2⟩

/-! ### Keys and events -/

/-- Taking a free key. -/
theorem Inv.popKey (h : σ.Inv) (hfree : σ.Free key) : σ.Leads (σ.popKey key) := by
  by_cases hzero : key = 0
  · simpa [CNetwork.popKey, hzero] using h.refl
  obtain hfree := hfree.resolve_left hzero
  simp only [CNetwork.popKey, hzero, if_false]
  refine ⟨⟨h.table, fun id o hheap => ?_, h.unique, fun k hk k' hk' heq => ?_,
    fun e he k hk => ?_, h.nodup, h.clean⟩, fun _ hid => hid⟩
  · obtain ⟨hlt, hout, hrest⟩ := h.held id o hheap
    exact ⟨hlt, List.mem_cons_of_mem _ hout, hrest⟩
  · rcases List.mem_cons.mp hk with rfl | hold
    · rcases List.mem_cons.mp hk' with rfl | hold'
      · rfl
      · exact absurd heq.symm (hfree k' hold')
    · rcases List.mem_cons.mp hk' with rfl | hold'
      · exact absurd heq (hfree k hold)
      · exact h.slots k hold k' hold' heq
  · obtain ⟨hout, hne⟩ := h.queued e he k hk
    exact ⟨List.mem_cons_of_mem _ hout, hne⟩

/-- A key just taken is fresh. -/
theorem Inv.fresh_popKey (h : σ.Inv) (hfree : σ.Free key) (hne : key ≠ 0) :
    (σ.popKey key).Fresh key := by
  have hfree := hfree.resolve_left hne
  have hpop : σ.popKey key = { σ with outstanding := key :: σ.outstanding } := by
    simp [CNetwork.popKey, hne]
  rw [hpop]
  refine ⟨List.mem_cons_self, ?_, ?_⟩
  · rintro id o hheap rfl
    exact hfree o.key (h.held id o hheap).2.1 rfl
  · intro hmem
    obtain ⟨e, he, hk⟩ := List.mem_filterMap.mp hmem
    exact hfree key (h.queued e he key hk).1 rfl

/-- Queuing an event, with a fresh key if it brings a key. -/
theorem Inv.pushEvent (h : σ.Inv) {event : IOEvent}
    (hfresh : ∀ k, event.protocolKey = some k → σ.Fresh k) : σ.Leads (σ.pushEvent event) := by
  refine ⟨⟨h.table, h.held, h.unique, h.slots, fun e he k hk => ?_, ?_, h.clean⟩,
    fun _ hid => hid⟩
  · rcases List.mem_append.mp he with he | he
    · exact h.queued e he k hk
    · obtain rfl := List.mem_singleton.mp he
      exact ⟨(hfresh k hk).outstanding, (hfresh k hk).heap⟩
  · change ((σ.eventQueue ++ [event]).filterMap IOEvent.protocolKey).Nodup
    rw [List.filterMap_append]
    cases hkey : event.protocolKey with
    | none => simpa [hkey] using h.nodup
    | some k =>
      refine List.nodup_append.mpr ⟨h.nodup, by simp [hkey], ?_⟩
      rintro k₁ hk₁ k₂ hk₂ rfl
      simp only [List.filterMap_cons, hkey, List.filterMap_nil, List.mem_singleton] at hk₂
      exact (hfresh k hkey).queue (hk₂ ▸ hk₁)

/-- Taking the oldest event from the queue; a key that it brings is fresh then. -/
theorem Inv.popEvent (h : σ.Inv) {event : IOEvent} {rest : List IOEvent}
    (hqueue : σ.eventQueue = event :: rest) :
    σ.Leads { σ with eventQueue := rest } ∧
      ∀ k, event.protocolKey = some k → { σ with eventQueue := rest }.Fresh k := by
  have hnodup := h.nodup
  rw [hqueue, List.filterMap_cons] at hnodup
  have hqueued (e) (he : e ∈ rest) := h.queued e (hqueue ▸ List.mem_cons_of_mem _ he)
  constructor
  · refine ⟨⟨h.table, h.held, h.unique, h.slots, hqueued, ?_, h.clean⟩, fun _ hid => hid⟩
    cases hkey : event.protocolKey with
    | none => simpa [hkey] using hnodup
    | some k => exact (List.nodup_cons.mp (by simpa [hkey] using hnodup)).2
  · intro k hk
    obtain ⟨hout, hne⟩ := h.queued event (hqueue ▸ List.mem_cons_self) k hk
    rw [hk] at hnodup
    exact ⟨hout, hne, (List.nodup_cons.mp hnodup).1⟩

/-- Returning a key that is not used. -/
theorem Inv.pushKey (h : σ.Inv) (hunused : σ.Unused key) : σ.Leads (σ.pushKey key) := by
  refine ⟨⟨h.table, fun id o hheap => ?_, h.unique, fun k hk k' hk' => ?_, fun e he k hk => ?_,
    h.nodup, h.clean⟩, fun _ hid => hid⟩
  · obtain ⟨hlt, hout, hrest⟩ := h.held id o hheap
    exact ⟨hlt, (List.mem_erase_of_ne (hunused.1 id o hheap)).mpr hout, hrest⟩
  · exact h.slots k (List.mem_of_mem_erase hk) k' (List.mem_of_mem_erase hk')
  · obtain ⟨hout, hne⟩ := h.queued e he k hk
    refine ⟨(List.mem_erase_of_ne ?_).mpr hout, hne⟩
    rintro rfl
    exact hunused.2 (List.mem_map.mpr ⟨e, he, hk⟩)

/-- Recycling an object that is not in the table. -/
theorem Inv.recycle (h : σ.Inv) (habsent : ∀ i, σ.objects i ≠ some id) : (σ.recycle id).Inv := by
  cases hheap : σ.heap id with
  | none => simpa [CNetwork.recycle, hheap] using h
  | some o =>
    simp only [CNetwork.recycle, hheap]
    have hsub {id₁ o₁} (h₁ : Function.update σ.heap id none id₁ = some o₁) :
        σ.heap id₁ = some o₁ := by
      rw [Function.update_apply] at h₁
      split at h₁
      · cases h₁
      · exact h₁
    refine ⟨fun i id₁ hslot => ?_, fun id₁ o₁ h₁ => h.held id₁ o₁ (hsub h₁),
      fun id₁ id₂ o₁ o₂ h₁ h₂ => h.unique id₁ id₂ o₁ o₂ (hsub h₁) (hsub h₂), h.slots,
      fun e he k hk => ⟨(h.queued e he k hk).1, fun id₁ o₁ h₁ => (h.queued e he k hk).2 id₁ o₁ (hsub h₁)⟩,
      h.nodup, fun o₁ ho₁ => ?_⟩
    · have hne : id₁ ≠ id := by
        rintro rfl
        exact habsent i hslot
      obtain ⟨o₁, h₁, hrest⟩ := h.table i id₁ hslot
      exact ⟨o₁, (Function.update_of_ne hne ..).trans h₁, hrest⟩
    · rcases List.mem_cons.mp ho₁ with rfl | ho₁
      · exact ⟨rfl, rfl⟩
      · exact h.clean o₁ ho₁

end CNetwork

end ZlNet.Network
