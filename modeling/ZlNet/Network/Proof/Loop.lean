import ZlNet.Network.Proof.Network

/-! The loop of the network thread keeps its invariant, under any order of records, events and
timers, so every run from an empty table does. -/

namespace ZlNet.Network.CNetwork

open Lib Lib.Word IOObject

section

variable [KeyPool] {σ τ : CNetwork} {id : ObjectId} {o : IOObject} {key : UInt32} {ans : Answers}
  {force : Bool} {P : EIOOBJECT_TYPE → IOProtocol → Prop}

/-! ### Timers -/

/-- An object that is not in the table is not found under its key. -/
theorem Inv.getObject_absent (h : σ.Inv) (hheap : σ.heap id = some o)
    (habsent : σ.objects (KeyPool.index o.key) ≠ some id) : σ.getObject o.key = none := by
  cases hget : σ.getObject o.key with
  | none => rfl
  | some object =>
    obtain ⟨o₁, hin, hkey⟩ := h.inTable_of_getObject hget
    obtain rfl := h.unique object id o₁ o hin.heap hheap hkey
    exact absurd (hkey ▸ hin.slot) habsent

/-- An object that is out of the table stays so when one of its timers is done. -/
theorem timerDone_absent (h : σ.Inv) (hheap : σ.heap id = some o)
    (habsent : σ.objects (KeyPool.index o.key) ≠ some id) (timer : Timer) :
    let o' := { o with timers := o.timers.erase timer }
    Goes force P σ (σ.put id o') ∧ (σ.put id o').getObject o'.key = none := by
  have hevents : o.events = 0 := (h.held id o hheap).2.2.2.resolve_right habsent
  have hset : σ.Leads (σ.put id { o with timers := o.timers.erase timer }) :=
    h.set_absent hheap rfl rfl hevents habsent
  exact ⟨h.goes hset (.absent hheap habsent _),
    hset.inv.getObject_absent (σ.put_heap_self id _) habsent⟩

/-- What the state of an object of the table is while one of its timers is set. -/
theorem Inv.state_of_timer (h : σ.Inv) (hin : σ.InTable id o) :
    (.forceClose ∈ o.timers → o.state = .DISCONNECTING) ∧
      ∀ address, .reconnect address ∈ o.timers →
        o.Attempting ∧ o.state = .DISCONNECTED ∧ o.events = 0 ∧ o.timers = [.reconnect address] := by
  cases h.settled hin with
  | listening hl => simp [hl.timers]
  | established hest =>
    rcases hest.timers with ⟨-, htimers⟩ | ⟨hstate, htimers⟩
    · simp [htimers]
    · simp [htimers, hstate]
  | attempting ha =>
    rcases ha.phase with ⟨-, -, -, htimers⟩ | ⟨hstate, hevents, -, a, htimers⟩
    · simp [htimers]
    · simp [htimers, hstate, hevents, ha, eq_comm]

theorem forceClose_goes (h : σ.Inv) (hheap : σ.heap id = some o)
    (htimer : .forceClose ∈ o.timers) :
    Outcome Foreign (Goes true P σ) (σ.fire id .forceClose ans) := by
  simp only [fire, timerDone_eq hheap, ok_bind, forceClose, get_eq (σ.put_heap_self id _)]
  by_cases hslot : σ.objects (KeyPool.index o.key) = some id
  · have hin : σ.InTable id o := ⟨hheap, hslot⟩
    let o₁ : IOObject := { o with timers := o.timers.erase .forceClose }
    have hin₁ : (σ.put id o₁).InTable id o₁ := hin.put rfl
    have hget : (σ.put id o₁).getObject o₁.key = some id := getObject_eq hin₁
    have hstate : o.state = .DISCONNECTING := (h.state_of_timer hin).1 htimer
    have hstate₁ : o₁.state = .DISCONNECTING := hstate
    rw [if_neg (by simp [o₁, hget]), require_of_true hstate₁, ok_bind, removeTcpCon_eq hin₁,
      removed_put]
    obtain ⟨p, hp, -⟩ := h.held_eq hin
    have hcon : o.isConnection = true := by
      cases h.settled hin with
      | listening hl => simp [hl.timers] at htimer
      | established hest => exact hest.type
      | attempting ha => exact ha.isConnection
    exact h.exits hin hp none (.finishes rfl hcon hstate) _
  · obtain ⟨hset, hget⟩ := timerDone_absent h hheap hslot .forceClose
    rw [if_pos hget]
    exact hset

/-- A connector that is still there tries again, with whatever socket it gets. -/
theorem reconnect_eq (h : σ.Inv) (hin : σ.InTable id o) {address : CAddress}
    (htimer : .reconnect address ∈ o.timers) (ans : Answers) :
    σ.fire id (.reconnect address) ans = .ok (σ.put id { o with
      timers := [], endPoint := some ⟨ans.socket, address, []⟩, state := .CONNECTING
      events := WRITE_EVENT }) := by
  obtain ⟨ha, hstate, hevents, htimers⟩ := (h.state_of_timer hin).2 address htimer
  let o₁ : IOObject := { o with timers := o.timers.erase (.reconnect address) }
  have hin₁ : (σ.put id o₁).InTable id o₁ := hin.put rfl
  have hget : (σ.put id o₁).getObject o₁.key = some id := getObject_eq hin₁
  have hstate₁ : o₁.state = .DISCONNECTED := hstate
  simp only [fire, timerDone_eq hin.heap, ok_bind, reconnect, get_eq (σ.put_heap_self id _)]
  rw [if_neg (by simp [o₁, hget]), if_neg (by simp [ha.type]), require_of_true hstate₁, ok_bind,
    registerWriteHandler_eq, put_put]
  · simp only [htimers, List.erase_cons_head]
    rfl
  · exact hevents

theorem reconnect_goes (h : σ.Inv) (hheap : σ.heap id = some o) {address : CAddress}
    (htimer : .reconnect address ∈ o.timers) :
    Outcome Foreign (Goes force P σ) (σ.fire id (.reconnect address) ans) := by
  by_cases hslot : σ.objects (KeyPool.index o.key) = some id
  · have hin : σ.InTable id o := ⟨hheap, hslot⟩
    obtain ⟨ha, hstate, -, -⟩ := (h.state_of_timer hin).2 address htimer
    obtain ⟨p, hp, -⟩ := h.held_eq hin
    rw [reconnect_eq h hin htimer]
    apply h.acts hin hp none
    · refine .attempting ?_
      exact { ha with phase := .inl ⟨rfl, rfl, rfl, rfl⟩ }
    · exact ⟨rfl, rfl, rfl⟩
    · exact .retries ha.type hstate rfl rfl rfl
  · obtain ⟨hset, hget⟩ := timerDone_absent h hheap hslot (.reconnect address)
    simp only [fire, timerDone_eq hheap, ok_bind, reconnect, get_eq (σ.put_heap_self id _)]
    rw [if_pos hget]
    exact hset

theorem fire_proceeds (h : σ.Inv) (hheap : σ.heap id = some o) {timer : Timer}
    (htimer : timer ∈ o.timers) : Outcome Foreign (Proceeds P σ) (σ.fire id timer ans) := by
  cases timer with
  | onTimer =>
    obtain ⟨p, hp, -⟩ := h.held_protocol hheap
    simp only [fire, onTimer, get_eq hheap, ok_bind, hp, nonNull_some]
    split
    · exact (Goes.refl σ).gentle
    · exact (close_goes h o.key).mono fun _ => Goes.gentle
  | forceClose => exact (forceClose_goes h hheap htimer).mono fun _ => Goes.forced
  | reconnect address => exact (reconnect_goes h hheap htimer).mono fun _ => Goes.forced

/-! ### The poller -/

theorem found_of_inTable (hin : σ.InTable id o) : o ∈ (σ.getObject o.key).bind σ.heap := by
  simp [getObject_eq hin, hin.heap]

theorem errorCallback_goes (ans : Answers) (h : σ.Inv) (hin : σ.InTable id o)
    (hevents : o.events ≠ 0) :
    ∃ callback, o.errorCallback = some callback ∧
      Outcome Foreign (Goes true P σ) (σ.call callback id ans) := by
  cases h.settled hin with
  | listening hl =>
    refine ⟨_, hl.errorCallback, ?_⟩
    simp only [call, defaultErrorHandle, get_eq hin.heap, ok_bind, nonNull_isSome hl.endPoint]
    exact .refl σ
  | established hest => exact ⟨_, hest.errorCallback, handleTcpConError_goes h hin hest⟩
  | attempting ha =>
    exact ⟨_, ha.errorCallback, handleTcpConnectError_goes h hin ha (ha.connecting hevents)⟩

theorem readCallback_goes (h : σ.Inv) (hin : σ.InTable id o) (hfree : σ.Free ans.key)
    (hread : o.hasReading = true) :
    Outcome Foreign (Goes true P σ) (σ.callIf o.readCallback id ans) := by
  cases h.settled hin with
  | listening hl =>
    rw [hl.readCallback]
    exact handleTcpAccept_goes h hin hl hfree
  | established hest =>
    rw [hest.readCallback]
    exact handleTcpConRead_goes h hin hest
  | attempting ha => simp [ha.hasReading] at hread

theorem writeCallback_goes (h : σ.Inv) (hin : σ.InTable id o) (hwrite : o.hasWriting = true) :
    Outcome Foreign (Goes false P σ) (σ.callIf o.writeCallback id ans) := by
  cases h.settled hin with
  | listening hl => simp [hl.hasWriting] at hwrite
  | established hest =>
    rw [hest.writeCallback]
    exact handleTcpConWrite_goes h hin hest (hest.hasWriting ▸ hwrite)
  | attempting ha =>
    rw [ha.writeCallback]
    exact handleTcpConnectWrite_goes h hin ha (ha.connecting (events_ne_zero hwrite))

/-- A record can run two callbacks.  The first keeps the object, and where it takes it out of the
table the second does not run. -/
theorem poll_proceeds (h : σ.Inv) (hfree : σ.Free ans.key)
    (hregistered : σ.Found key fun o => o.events ≠ 0) (event : Record) :
    Outcome Foreign (Proceeds P σ) (σ.poll key event ans) := by
  unfold poll
  split
  · exact (Goes.refl σ).gentle
  next id hslot =>
  obtain ⟨o, hin, -⟩ := h.inTable hslot
  simp only [get_eq hin.heap, ok_bind]
  split
  · exact (Goes.refl σ).gentle
  next hkey =>
  obtain rfl : o.key = key := by simpa using hkey
  split
  · obtain ⟨callback, hcallback, hcall⟩ :=
      errorCallback_goes (P := P) ans h hin (hregistered o (found_of_inTable hin))
    rw [hcallback]
    exact hcall.mono fun _ => Goes.forced
  have hrest (τ : CNetwork) (hgoes : Goes true P σ τ) : Outcome Foreign (Proceeds P σ) (do
      let o ← τ.get id
      if (event.writable || event.hup) && o.hasWriting then τ.callIf o.writeCallback id ans
      else .ok τ) := by
    have hτ := hgoes.leads h
    obtain ⟨o', hheap⟩ := Option.isSome_iff_exists.mp (hτ.keeps id (by simp [hin.heap]))
    simp only [get_eq hheap, ok_bind]
    split
    · next hwrite =>
      have hwrite := (Bool.and_eq_true_iff.mp hwrite).2
      have hslot' := (hτ.inv.held id o' hheap).2.2.2.resolve_left (events_ne_zero hwrite)
      exact (writeCallback_goes hτ.inv ⟨hheap, hslot'⟩ hwrite).mono fun υ hυ => ⟨τ, hgoes, hυ⟩
    · exact hgoes.forced
  split
  · next hread =>
    have hread := (Bool.and_eq_true_iff.mp hread).2
    exact (readCallback_goes h hin hfree hread).bind hrest
  · exact hrest σ (.refl σ)

/-! ### Events -/

theorem getGroupObject_outcome (h : σ.Inv) (group : Int) :
    Outcome Foreign (fun objs => ∀ id ∈ objs, (σ.heap id).isSome) (σ.getGroupObject group) := by
  apply Outcome.foldlM _ (by simp)
  intro objs hall i _
  split
  · next id hslot =>
    obtain ⟨o, hin, -⟩ := h.inTable hslot
    obtain ⟨p, hp, -⟩ := h.held_eq hin
    have hmem : ∀ id' ∈ objs ++ [id], (σ.heap id').isSome := by
      intro id' hid'
      rcases List.mem_append.mp hid' with hid' | hid'
      · exact hall id' hid'
      · obtain rfl := List.mem_singleton.mp hid'
        simp [hin.heap]
    simp only [get_eq hin.heap, ok_bind, hp, nonNull_some]
    split
    · exact hmem
    · split
      · exact hmem
      · exact hall
  · exact hall

theorem clear_goes (h : σ.Inv) (group : Int) :
    Outcome Foreign (Goes false P σ) (σ._clear group) := by
  apply (getGroupObject_outcome h group).bind
  intro objs hall
  apply Outcome.foldlM objs (.refl σ)
  intro τ hgoes id hid
  have hτ := hgoes.leads h
  obtain ⟨o, hheap⟩ := Option.isSome_iff_exists.mp (hτ.keeps id (hall id hid))
  simp only [get_eq hheap, ok_bind]
  exact hgoes.outcome (close_goes hτ.inv o.key)

theorem processDataEvent_goes (h : σ.Inv) (hfits : WriteFits ans)
    (hcon : σ.Found key fun o => o.isConnection = true) :
    Outcome Foreign (Goes true P σ) (σ.processDataEvent key ans) := by
  unfold processDataEvent
  split
  · next id hget =>
    obtain ⟨o, hin, rfl⟩ := h.inTable_of_getObject hget
    obtain ⟨p, hp, htcp⟩ := h.held_eq hin
    simp only [get_eq hin.heap, ok_bind, hp, nonNull_some, htcp]
    exact tcpSend_goes h hin (hcon o (found_of_inTable hin)) hfits
  · exact .refl σ

/-- The protocols that the event brings, and the objects that they are for. -/
def Brought (event : Option IOEvent) (type : EIOOBJECT_TYPE) (p : IOProtocol) : Prop :=
  (∃ port, event = some (.listen port p) ∧ type = .LISTENER) ∨
    ∃ address, event = some (.connect address p) ∧ type = .CONNECTOR

theorem dispatch_proceeds (h : σ.Inv) (hpre : σ.Pre (.dispatch ans)) :
    Outcome Foreign (Proceeds (Brought σ.eventQueue.head?) σ) (σ.dispatch ans) := by
  obtain ⟨hfits, hdata⟩ := hpre
  unfold dispatch
  split
  · next event rest hqueue =>
    have hpop := (h.popEvent hqueue).1
    rw [hqueue, List.head?_cons]
    have hgoes {force : Bool} :
        Goes force (Brought (some event)) σ { σ with eventQueue := rest } :=
      h.goes hpop (.popEvent hqueue)
    cases event with
    | listen port p =>
      simp only [dispatchProcess, processListen]
      split
      · next htcp =>
        exact (tcpListen_goes h (.event hqueue rfl) htcp (.inl ⟨port, rfl, rfl⟩) port).mono
          fun _ => Goes.forced
      · exact hgoes.forced
      · exact .inr (.inr (.inr (.inl rfl)))
    | connect address p =>
      simp only [dispatchProcess, processConnect]
      split
      · next htcp =>
        exact (tcpConnect_goes h (.event hqueue rfl) htcp (.inr ⟨address, rfl, rfl⟩) address).mono
          fun _ => Goes.forced
      · exact hgoes.forced
      · exact .inr (.inr (.inr (.inr rfl)))
    | data key =>
      have hcon := hdata key (by simp [hqueue, IOEvent.dataKey])
      exact (hgoes.outcome (processDataEvent_goes hpop.inv hfits hcon)).mono fun _ => Goes.forced
    | close key => exact (hgoes.outcome (close_goes hpop.inv key)).mono fun _ => Goes.gentle
    | clear group => exact (hgoes.outcome (clear_goes hpop.inv group)).mono fun _ => Goes.gentle
  · exact (Goes.refl σ).gentle

/-! ### Runs -/

/-- The steps of the network thread, in which it runs a function. -/
def Action.Runs : Action → Prop
  | .dispatch _ | .poll _ _ _ | .fire _ _ _ => True
  | .listen _ _ _ _ _ | .connect _ _ _ _ _ | .push _ | .pushKey _ | .recycle _ => False

/-- The protocols that a step takes in with the event that it handles. -/
def Takes (σ : CNetwork) (a : Action) : EIOOBJECT_TYPE → IOProtocol → Prop :=
  match a with
  | .dispatch _ => Brought σ.eventQueue.head?
  | .poll _ _ _ | .fire _ _ _ | .listen _ _ _ _ _ | .connect _ _ _ _ _ | .push _ | .pushKey _
  | .recycle _ => fun _ _ => False

theorem exec_proceeds (h : σ.Inv) {a : Action} (hpre : σ.Pre a) (hruns : Action.Runs a) :
    Outcome Foreign (Proceeds (σ.Takes a) σ) (σ.exec a) := by
  cases a with
  | dispatch ans => exact dispatch_proceeds h hpre
  | poll key event ans => exact poll_proceeds h hpre.1 hpre.2 event
  | fire con timer ans =>
    obtain ⟨o, hheap, htimer⟩ := hpre
    exact fire_proceeds h hheap htimer
  | listen port id protocolType group key => exact hruns.elim
  | connect address id protocolType group key => exact hruns.elim
  | push event => exact hruns.elim
  | pushKey key => exact hruns.elim
  | recycle object => exact hruns.elim

/-- Another thread takes a key for a protocol and asks for something with it. -/
theorem Inv.ask (h : σ.Inv) {key : UInt32} (hfree : σ.Free key) {event : IOEvent}
    (hkey : event.protocolKey = some key) :
    Inv (if key = 0 then σ else (σ.popKey key).pushEvent event) := by
  split
  · exact h
  next hne =>
  refine ((h.popKey hfree).inv.pushEvent ?_).inv
  rintro k hk
  obtain rfl := Option.some.inj (hkey.symm.trans hk)
  exact h.fresh_popKey hfree hne

/-- Every step keeps the invariant and fails only with a fault that is not the network thread's. -/
theorem exec_outcome (h : σ.Inv) {a : Action} (hpre : σ.Pre a) :
    Outcome Foreign Inv (σ.exec a) := by
  cases a with
  | listen port id protocolType group key => exact h.ask hpre rfl
  | connect address id protocolType group key => exact h.ask hpre rfl
  | push event => exact (h.pushEvent (by simp [show event.protocolKey = none from hpre])).inv
  | pushKey key => exact (h.pushKey hpre).inv
  | recycle object => exact h.recycle hpre
  | dispatch ans => exact (exec_proceeds h hpre trivial).mono fun _ hτ => (hτ.leads h).inv
  | poll key event ans => exact (exec_proceeds h hpre trivial).mono fun _ hτ => (hτ.leads h).inv
  | fire con timer ans => exact (exec_proceeds h hpre trivial).mono fun _ hτ => (hτ.leads h).inv

theorem inv_empty : Inv empty where
  table _ _ h := by cases h
  held _ _ h := by cases h
  unique _ _ _ _ h := by cases h
  slots _ h := by cases h
  queued _ h := by cases h
  nodup := List.nodup_nil
  clean _ h := by cases h

theorem inv_run {as : List Action} (run : Run Step empty as σ) : σ.Inv := by
  refine run.invariant Inv (fun σ a τ h hstep => ?_) inv_empty
  have hout := exec_outcome h hstep.1
  rwa [hstep.2] at hout

/-- In every run from an empty table, each connection of the table is registered as its state and
its buffer ask for, and the next step fails no assertion of the network thread. -/
theorem network_run_registered {as : List Action} (run : Run Step empty as σ) :
    (∀ i id, σ.objects i = some id → ∃ o, σ.heap id = some o ∧ KeyPool.index o.key = i ∧
      (o.isConnection = true → Registered o)) ∧
    ∀ a f, σ.Pre a → σ.exec a = .error f → Foreign f := by
  have h := inv_run run
  constructor
  · intro i id hslot
    obtain ⟨o, hin, hindex⟩ := h.inTable hslot
    exact ⟨o, hin.heap, hindex, (h.settled hin).registered⟩
  · intro a f hpre hexec
    have hout := exec_outcome h hpre
    rwa [hexec] at hout

end

/-! ### A connection of a concrete run -/

/-- The network thread after it has connected to a peer.  The connection is its object 0, with the
key 5. -/
def connected : CNetwork :=
  let _ := KeyPool.lowBits
  let peer : CAddress := ⟨1, 80⟩
  ((empty.next (.connect peer 0 .TCP 0 5)).next (.dispatch { socket := 3 })).next
    (.poll 5 { writable := true }
      { localName := some ⟨2, 81⟩, remoteName := some peer, remoteNameAgain := some peer })

theorem connected_run : ∃ as, Run (@Step .lowBits) empty as connected := by
  let _ := KeyPool.lowBits
  have h1 := Run.nil.snoc (step_next empty (a := .connect ⟨1, 80⟩ 0 .TCP 0 5)
    (.inr (by rintro _ ⟨⟩)) rfl)
  have h2 := h1.snoc (step_next _ (a := .dispatch { socket := 3 })
    ⟨by rintro _ ⟨⟩, by rintro _ ⟨⟩⟩ (by decide +kernel))
  have h3 := h2.snoc (step_next _ (a := .poll 5 { writable := true }
      { localName := some ⟨2, 81⟩, remoteName := some ⟨1, 80⟩, remoteNameAgain := some ⟨1, 80⟩ })
    ⟨.inl rfl, by unfold Found; decide +kernel⟩ (by decide +kernel))
  exact ⟨_, h3⟩

/-- A run that connects and sends three bytes of which the socket takes one. -/
theorem network_run_registered_sending :
    ∃ as σ o, Run (@Step .lowBits) empty as σ ∧ σ.heap 0 = some o ∧ o.state = .CONNECTED ∧
      o.hasReading = true ∧ o.hasWriting = true ∧ o.outBuffer.size ≠ 0 := by
  let _ := KeyPool.lowBits
  obtain ⟨as, h0⟩ := connected_run
  have h1 := h0.snoc (step_next _ (a := .push (.data 5)) rfl rfl)
  have h2 := h1.snoc (step_next _ (a := .dispatch { onSerialize := some [1, 2, 3], written := 1 })
    ⟨by rintro _ ⟨⟩; decide, by rintro _ ⟨⟩; unfold Found; decide +kernel⟩ (by decide +kernel))
  obtain ⟨o, hheap, -, hreg⟩ := (network_run_registered h2).1 5 0 (by decide +kernel)
  have hmap := congrArg (Option.map fun o => (o.isConnection, o.state, o.isWriting)) hheap
  have ho : Option.map (fun o => (o.isConnection, o.state, o.isWriting)) (some o) =
      some (true, .CONNECTED, true) := hmap.symm.trans (by decide +kernel)
  simp only [Option.map_some, Option.some.injEq, Prod.mk.injEq] at ho
  obtain ⟨hcon, hstate, hwriting⟩ := ho
  obtain ⟨hread, hiff, hbuffer⟩ := (hreg hcon).established (.inl hstate)
  exact ⟨_, _, o, h2, hheap, hstate, hread, hiff.mp hwriting, hbuffer.mp (hiff.mp hwriting)⟩

end ZlNet.Network.CNetwork
