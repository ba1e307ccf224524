import ZlNet.Network.Proof.Told

/-! Two network threads that nobody can tell apart: their pools differ, and the callbacks that an
object cannot run any more, or not yet.  One of them may have an object more, which has a slot of its
own.  Every function of the network thread keeps them alike, and fails in both or in neither. -/

namespace ZlNet.Network

open Lib Lib.Word IOObject

namespace IOObject

/-- The same but for callbacks that are not run: those for reading of a connector that is not
connected, and those for writing of a listener. -/
structure Twin (o o' : IOObject) : Prop where
  same : o' = { o with readCallback := o'.readCallback, writeCallback := o'.writeCallback }
  read : o'.readCallback = o.readCallback ∨
    o.type = .CONNECTOR ∧ (o.state = .DISCONNECTED ∨ o.state = .CONNECTING)
  write : o'.writeCallback = o.writeCallback ∨ o.type = .LISTENER

theorem Twin.refl (o : IOObject) : Twin o o := ⟨rfl, .inl rfl, .inl rfl⟩

/-- The same change of both, to an object whose callbacks are as they were. -/
theorem Twin.change {o o₁ : IOObject} {r w : Option Handler}
    (h : Twin o { o with readCallback := r, writeCallback := w }) (htype : o₁.type = o.type)
    (hstate : o₁.state = o.state ∨ o₁.state = .DISCONNECTED ∨ o₁.state = .CONNECTING)
    (hread : o₁.readCallback = o.readCallback) (hwrite : o₁.writeCallback = o.writeCallback) :
    Twin o₁ { o₁ with readCallback := r, writeCallback := w } where
  same := rfl
  read := by
    rw [hread, htype]
    refine h.read.imp_right fun hcon => ⟨hcon.1, ?_⟩
    rcases hstate with hstate | hstate
    · exact hstate ▸ hcon.2
    · exact hstate
  write := by
    rw [hwrite, htype]
    exact h.write

/-- The callbacks of a connection are the same where they are run. -/
theorem Twin.eq {o : IOObject} {r w : Option Handler}
    (h : Twin o { o with readCallback := r, writeCallback := w }) (htype : o.type ≠ .LISTENER)
    (hstate : o.type = .CONNECTOR → ¬(o.state = .DISCONNECTED ∨ o.state = .CONNECTING)) :
    { o with readCallback := r, writeCallback := w } = o := by
  obtain rfl : r = o.readCallback := h.read.resolve_right fun hcon => hstate hcon.1 hcon.2
  obtain rfl : w = o.writeCallback := h.write.resolve_right htype
  rfl

theorem updateObject_eq (o : IOObject) (events : Nat) : o.updateObject events = { o with events } := by
  unfold updateObject
  split
  · next hzero => rw [hzero, deregisterObject]
  · rfl

/-- An object that was recycled has nothing left in its buffers and no timer. -/
structure Recycled (o : IOObject) : Prop where
  inputBuffer : o.inputBuffer = .new
  outBuffer : o.outBuffer = .new
  timers : o.timers = []

theorem recycled_onRecycle (o : IOObject) : Recycled o.onRecycle := ⟨rfl, rfl, rfl⟩

end IOObject

namespace CNetwork

variable [KeyPool] {σ σ' τ τ' : CNetwork} {id : ObjectId} {o o' : IOObject} {key : UInt32}
  {extra : Option (ObjectId × IOObject)} {ans : Answers} {p : IOProtocol} {notice : Notice}

/-- The object `id` is not the one that only one of two has. -/
def Own (extra : Option (ObjectId × IOObject)) (id : ObjectId) : Prop := ∀ x ∈ extra, id ≠ x.1

/-- The key has another slot than that object. -/
def Beside (extra : Option (ObjectId × IOObject)) (key : UInt32) : Prop :=
  ∀ x ∈ extra, KeyPool.index key ≠ KeyPool.index x.2.key

/-- `σ'` is like `σ`, but for the object and its slot that only `σ'` has. -/
structure Alike (extra : Option (ObjectId × IOObject)) (σ σ' : CNetwork) : Prop where
  heap : ∀ id, Own extra id → Option.Rel Twin (σ.heap id) (σ'.heap id)
  objects : ∀ i, (∀ x ∈ extra, i ≠ KeyPool.index x.2.key) → σ'.objects i = σ.objects i
  own : ∀ i id, σ.objects i = some id → Own extra id
  beside : ∀ id o, σ.heap id = some o → Beside extra o.key
  alone : ∀ x ∈ extra, σ.heap x.1 = none ∧ σ.objects (KeyPool.index x.2.key) = none ∧
    σ'.heap x.1 = some x.2 ∧ σ'.objects (KeyPool.index x.2.key) = some x.1 ∧ x.1 < σ.created ∧
    x.2.key ∈ σ.outstanding
  created : σ'.created = σ.created
  outstanding : σ'.outstanding = σ.outstanding
  eventQueue : σ'.eventQueue = σ.eventQueue
  notices : σ'.notices = σ.notices
  queued : ∀ e ∈ σ.eventQueue, ∀ k, e.protocolKey = some k → Beside extra k
  pool : ∀ o ∈ σ.pool, Recycled o
  pool' : ∀ o ∈ σ'.pool, Recycled o

/-! ### The parts of functions -/

theorem Alike.heap_cases (h : Alike extra σ σ') (hid : Own extra id) :
    σ.heap id = none ∧ σ'.heap id = none ∨
      ∃ o o', σ.heap id = some o ∧ σ'.heap id = some o' ∧ Twin o o' := by
  have hrel := h.heap id hid
  generalize σ.heap id = a at *
  generalize σ'.heap id = b at *
  cases hrel with
  | none => exact .inl ⟨rfl, rfl⟩
  | some htwin => exact .inr ⟨_, _, rfl, rfl, htwin⟩

theorem Alike.get (h : Alike extra σ σ') (hid : Own extra id) :
    Both (fun o o' => σ.heap id = some o ∧ Twin o o') (σ.get id) (σ'.get id) := by
  unfold CNetwork.get nonNull
  rcases h.heap_cases hid with ⟨hnone, hnone'⟩ | ⟨o, o', hheap, hheap', htwin⟩
  · rw [hnone, hnone']
    exact rfl
  · rw [hheap, hheap']
    exact ⟨rfl, htwin⟩

/-- A step that starts with an object, of which the other has a twin. -/
theorem Alike.bind_get {α β : Type} {R : α → β → Prop} {f : IOObject → Except Fault α}
    {g : IOObject → Except Fault β} (h : Alike extra σ σ') (hid : Own extra id)
    (hfg : ∀ o r w, σ.heap id = some o →
      Twin o { o with readCallback := r, writeCallback := w } →
      Both R (f o) (g { o with readCallback := r, writeCallback := w })) :
    Both R (σ.get id >>= f) (σ'.get id >>= g) := by
  apply (h.get hid).bind
  rintro o o' ⟨hheap, htwin⟩
  have hsame := htwin.same
  rw [hsame] at htwin ⊢
  exact hfg o _ _ hheap htwin

/-- A step that starts with a connection. -/
theorem Alike.bind_connection {α β : Type} {R : α → β → Prop} {f : IOObject → Except Fault α}
    {g : IOObject → Except Fault β} (h : Alike extra σ σ') (hid : Own extra id)
    (hfg : ∀ o r w, σ.heap id = some o → o.isConnection = true →
      Twin o { o with readCallback := r, writeCallback := w } →
      Both R (f o) (g { o with readCallback := r, writeCallback := w })) :
    Both R (σ.connection id >>= f) (σ'.connection id >>= g) := by
  simp only [connection, bind_assoc]
  apply h.bind_get hid
  intro o r w hheap htwin
  by_cases hcon : o.isConnection = true
  · have hcon' : { o with readCallback := r, writeCallback := w }.isConnection = true := hcon
    rw [if_pos hcon, if_pos hcon']
    exact hfg o r w hheap hcon htwin
  · have hcon' : ¬{ o with readCallback := r, writeCallback := w }.isConnection = true := hcon
    rw [if_neg hcon, if_neg hcon']
    exact rfl

theorem Alike.put (h : Alike extra σ σ') (hid : Own extra id) (hkey : Beside extra o.key)
    (htwin : Twin o o') : Alike extra (σ.put id o) (σ'.put id o') where
  heap id₁ hid₁ := by
    by_cases heq : id₁ = id
    · subst heq
      rw [put_heap_self, put_heap_self]
      exact .some htwin
    · rw [put_heap_ne _ o heq, put_heap_ne _ o' heq]
      exact h.heap id₁ hid₁
  objects := h.objects
  own := h.own
  beside id₁ o₁ h₁ := by
    by_cases heq : id₁ = id
    · subst heq
      rw [put_heap_self] at h₁
      exact Option.some.inj h₁ ▸ hkey
    · rw [put_heap_ne _ o heq] at h₁
      exact h.beside id₁ o₁ h₁
  alone x hx := by
    obtain ⟨hheap, hslot, hheap', hrest⟩ := h.alone x hx
    have hne : x.1 ≠ id := (hid x hx).symm
    exact ⟨(put_heap_ne _ o hne).trans hheap, hslot, (put_heap_ne _ o' hne).trans hheap', hrest⟩
  created := h.created
  outstanding := h.outstanding
  eventQueue := h.eventQueue
  notices := h.notices
  queued := h.queued
  pool := h.pool
  pool' := h.pool'

theorem Alike.notify (h : Alike extra σ σ') (p : IOProtocol) (notice : Notice) :
    Alike extra (σ.notify p notice) (σ'.notify p notice) where
  __ := h
  notices := congrArg (· ++ [(p, notice)]) h.notices

theorem Alike.notifyProtocol (h : Alike extra σ σ') (o o' : IOObject)
    (hp : o'.protocol = o.protocol) :
    Both (Alike extra) (σ.notifyProtocol o notice) (σ'.notifyProtocol o' notice) := by
  simp only [CNetwork.notifyProtocol, hp]
  exact Both.bind_same fun p _ => h.notify p notice

theorem Alike.popKey (h : Alike extra σ σ') (key : UInt32) :
    Alike extra (σ.popKey key) (σ'.popKey key) := by
  unfold CNetwork.popKey
  split
  · exact h
  · exact { h with
      outstanding := congrArg (key :: ·) h.outstanding
      alone := fun x hx => by
        obtain ⟨hheap, hslot, hheap', hslot', hmade, htaken⟩ := h.alone x hx
        exact ⟨hheap, hslot, hheap', hslot', hmade, List.mem_cons_of_mem key htaken⟩ }

/-- The slot of a key that is beside. -/
theorem Alike.slot (h : Alike extra σ σ') (hkey : Beside extra key) :
    σ'.objects (KeyPool.index key) = σ.objects (KeyPool.index key) :=
  h.objects _ hkey

/-- Both change a slot in the same way. -/
theorem Alike.update (h : Alike extra σ σ') {i : Nat} {slot : Option ObjectId}
    (hi : ∀ x ∈ extra, i ≠ KeyPool.index x.2.key) (hown : ∀ id ∈ slot, Own extra id) :
    Alike extra { σ with objects := Function.update σ.objects i slot }
      { σ' with objects := Function.update σ'.objects i slot } where
  __ := h
  objects j hj := by
    simp only [Function.update_apply]
    split
    · rfl
    · exact h.objects j hj
  own j id hslot := by
    simp only [Function.update_apply] at hslot
    split at hslot
    · exact hown id hslot
    · exact h.own j id hslot
  alone x hx := by
    obtain ⟨hheap, hslot, hheap', hslot', hmade⟩ := h.alone x hx
    have hne := (hi x hx).symm
    exact ⟨hheap, (Function.update_of_ne hne ..).trans hslot, hheap',
      (Function.update_of_ne hne ..).trans hslot', hmade⟩

theorem Alike.removeObject (h : Alike extra σ σ') (hkey : Beside extra key) :
    Both (Alike extra) (σ.removeObject key) (σ'.removeObject key) := by
  simp only [CNetwork.removeObject, h.slot hkey]
  split
  · next object hslot =>
    apply h.bind_get (h.own _ _ hslot)
    intro o r w _ _
    refine Both.bind_same fun _ _ => ?_
    exact h.update hkey (by simp)
  · exact rfl

theorem Alike.addObject (h : Alike extra σ σ') (hid : Own extra id) :
    Both (Alike extra) (σ.addObject id) (σ'.addObject id) := by
  apply h.bind_get hid
  intro o r w hheap _
  have hbeside := h.beside id o hheap
  simp only [h.slot hbeside]
  refine Both.bind_same fun _ _ => ?_
  refine h.update hbeside ?_
  rintro id' hid'
  obtain rfl := Option.some.inj hid'
  exact hid

/-- A key finds the same object, unless it is that of the object that only one of two has. -/
theorem Alike.getObject (h : Alike extra σ σ') (hkey : ∀ x ∈ extra, key ≠ x.2.key) :
    σ'.getObject key = σ.getObject key := by
  unfold CNetwork.getObject
  by_cases hbeside : Beside extra key
  · rw [h.slot hbeside]
    cases hslot : σ.objects (KeyPool.index key) with
    | none => rfl
    | some object =>
      dsimp only
      rcases h.heap_cases (h.own _ _ hslot) with ⟨hnone, hnone'⟩ | ⟨o, o', hheap, hheap', htwin⟩
      · rw [hnone, hnone']
      · rw [hheap, hheap', htwin.same]
        rfl
  · obtain ⟨x, hx, hindex⟩ : ∃ x ∈ extra, KeyPool.index key = KeyPool.index x.2.key := by
      simpa [Beside] using hbeside
    obtain ⟨-, hslot, hheap', hslot', -⟩ := h.alone x hx
    rw [hindex, hslot, hslot']
    simp [hheap', (hkey x hx).symm]

/-- What is found is not the object that only one of two has. -/
theorem Alike.own_of_getObject (h : Alike extra σ σ') (hget : σ.getObject key = some id) :
    Own extra id := by
  unfold CNetwork.getObject at hget
  split at hget
  · next object hslot =>
    split at hget
    · obtain rfl := Option.some.inj hget
      exact h.own _ _ hslot
    · cases hget
  · cases hget

/-! ### Closing -/

theorem Alike.removeTcpCon (h : Alike extra σ σ') (hid : Own extra id) :
    Both (Alike extra) (σ.removeTcpCon id) (σ'.removeTcpCon id) := by
  apply h.bind_get hid
  intro o r w hheap htwin
  have hkey := h.beside id o hheap
  refine (h.put hid ?_ ?_).removeObject hkey
  · exact hkey
  · exact htwin.change rfl (.inr (.inl rfl)) rfl rfl

theorem Alike.tcpCloseListen (h : Alike extra σ σ') (hid : Own extra id) :
    Both (Alike extra) (σ.tcpCloseListen id) (σ'.tcpCloseListen id) := by
  apply h.bind_get hid
  intro o r w _ _
  apply (h.notifyProtocol o { o with readCallback := r, writeCallback := w } rfl).bind
  intro τ τ' h
  apply h.bind_get hid
  intro o r w hheap htwin
  have hkey := h.beside id o hheap
  refine (h.put hid ?_ ?_).removeObject hkey
  · exact hkey
  · exact htwin.change rfl (.inl rfl) rfl rfl

/-- A connection that starts to disconnect has all its callbacks. -/
theorem Alike.startDisconnecting (h : Alike extra σ σ') (hid : Own extra id)
    (hheap : σ.heap id = some o) (htype : o.type ≠ .LISTENER)
    (hstate : o.type = .CONNECTOR → ¬(o.state = .DISCONNECTED ∨ o.state = .CONNECTING)) :
    Both (Alike extra) (σ.startDisconnecting id) (σ'.startDisconnecting id) := by
  apply h.bind_get hid
  intro o₁ r w hheap₁ htwin
  obtain rfl := Option.some.inj (hheap.symm.trans hheap₁)
  rw [htwin.eq htype hstate]
  have hkey := h.beside id o hheap
  refine Both.ite (fun _ => ?_) fun _ => ?_
  · exact h.put hid hkey (.refl _)
  · exact Both.bind_same fun endPoint _ => h.put hid hkey (.refl _)

/-- What both ways to close an established connection do. -/
theorem Alike.close_established (h : Alike extra σ σ') (hid : Own extra id)
    (hheap : σ.heap id = some o) (htype : o.type ≠ .LISTENER)
    (hstate : o.type = .CONNECTOR → ¬(o.state = .DISCONNECTED ∨ o.state = .CONNECTING))
    (notice : Notice) (force : Bool) :
    let close (σ : CNetwork) : Except Fault CNetwork := do
      let σ ← if o.state = .CONNECTED then σ.notifyProtocol o notice else pure σ
      if force then σ.removeTcpCon id
      else if o.state = .DISCONNECTING then return σ else σ.startDisconnecting id
    Both (Alike extra) (close σ) (close σ') := by
  have hrest (τ τ' : CNetwork) (h : Alike extra τ τ') (hheap : τ.heap id = some o) :
      Both (Alike extra)
        (if force then τ.removeTcpCon id
          else if o.state = .DISCONNECTING then return τ else τ.startDisconnecting id)
        (if force then τ'.removeTcpCon id
          else if o.state = .DISCONNECTING then return τ' else τ'.startDisconnecting id) := by
    refine Both.ite (fun _ => h.removeTcpCon hid) fun _ => Both.ite (fun _ => h) fun _ => ?_
    exact h.startDisconnecting hid hheap htype hstate
  intro close
  simp only [close]
  by_cases hcon : o.state = .CONNECTED
  · simp only [if_pos hcon, CNetwork.notifyProtocol, bind_assoc, pure_bind]
    exact Both.bind_same fun p _ => hrest _ _ (h.notify p notice) hheap
  · simp only [if_neg hcon, pure_bind]
    exact hrest _ _ h hheap

theorem Alike.tcpCloseConnection (h : Alike extra σ σ') (hid : Own extra id) (force : Bool) :
    Both (Alike extra) (σ.tcpCloseConnection id force) (σ'.tcpCloseConnection id force) := by
  apply h.bind_get hid
  intro o r w hheap htwin
  refine Both.bind_same fun _ hrequire => Both.bind_same fun _ _ => ?_
  have htype : o.type = .SESSION := of_require hrequire
  have htwin := htwin.eq (by simp [htype]) (by simp [htype])
  simp only [htwin]
  exact h.close_established hid hheap (by simp [htype]) (by simp [htype]) .onClose force

theorem Alike.tcpCloseConnector (h : Alike extra σ σ') (hid : Own extra id) (force : Bool) :
    Both (Alike extra) (σ.tcpCloseConnector id force) (σ'.tcpCloseConnector id force) := by
  apply h.bind_get hid
  intro o r w hheap htwin
  refine Both.bind_same fun _ hrequire => Both.ite (fun _ => ?_) fun hstate => ?_
  · exact (h.notifyProtocol o _ rfl).bind fun τ τ' h => h.removeTcpCon hid
  · have htype : o.type = .CONNECTOR := of_require hrequire
    have htwin := htwin.eq (by simp [htype]) fun _ => hstate
    simp only [htwin]
    exact h.close_established hid hheap (by simp [htype]) (fun _ => hstate) .onDisConnect force

theorem Alike.tcpCloseCon (h : Alike extra σ σ') (hid : Own extra id) (force : Bool) :
    Both (Alike extra) (σ.tcpCloseCon id force) (σ'.tcpCloseCon id force) := by
  apply h.bind_get hid
  intro o r w _ _
  exact Both.ite (fun _ => h.tcpCloseConnection hid force) fun _ => h.tcpCloseConnector hid force

theorem Alike.tcpClose (h : Alike extra σ σ') (hkey : ∀ x ∈ extra, key ≠ x.2.key) (force : Bool) :
    Both (Alike extra) (σ.tcpClose key force) (σ'.tcpClose key force) := by
  simp only [CNetwork.tcpClose, h.getObject hkey]
  refine Both.bind_same fun object hobject => ?_
  have hid : Own extra object := h.own_of_getObject (of_nonNull hobject)
  apply h.bind_get hid
  intro o r w _ _
  cases o.type with
  | LISTENER => exact h.tcpCloseListen hid
  | SESSION => exact h.tcpCloseConnection hid force
  | CONNECTOR => exact h.tcpCloseConnector hid force
  | WAKEUP => exact rfl

theorem Alike._close (h : Alike extra σ σ') (hkey : ∀ x ∈ extra, key ≠ x.2.key) :
    Both (Alike extra) (σ._close key) (σ'._close key) := by
  simp only [CNetwork._close, h.getObject hkey]
  split
  · next object hget =>
    apply h.bind_get (h.own_of_getObject hget)
    intro o r w _ _
    refine Both.bind_same fun p _ => ?_
    cases p.protocolType with
    | TCP => exact h.tcpClose hkey false
    | KCP => exact h
    | UDP => exact rfl
  · exact h

/-! ### Connections -/

theorem Alike.onNewConnection (h : Alike extra σ σ') (hid : Own extra id) :
    Both (Alike extra) (σ.onNewConnection id) (σ'.onNewConnection id) := by
  apply h.bind_get hid
  intro o r w hheap htwin
  have hkey := h.beside id o hheap
  exact h.put hid hkey (htwin.change rfl (.inl rfl) rfl rfl)

theorem Alike.weakupReadHandler (h : Alike extra σ σ') (hid : Own extra id) :
    Both (Alike extra) (σ.weakupReadHandler id) (σ'.weakupReadHandler id) := by
  apply h.bind_get hid
  intro o r w _ _
  exact Both.bind_same fun _ _ => h

theorem Alike.defaultErrorHandle (h : Alike extra σ σ') (hid : Own extra id) :
    Both (Alike extra) (σ.defaultErrorHandle id) (σ'.defaultErrorHandle id) := by
  apply h.bind_get hid
  intro o r w _ _
  exact Both.bind_same fun _ _ => h

theorem Alike.handleTcpConError (h : Alike extra σ σ') (hid : Own extra id) :
    Both (Alike extra) (σ.handleTcpConError id) (σ'.handleTcpConError id) := by
  apply h.bind_connection hid
  intro o r w _ _ _
  exact Both.bind_same fun _ _ => h.tcpCloseCon hid true

theorem Alike.handleTcpConRead (h : Alike extra σ σ') (hid : Own extra id) :
    Both (Alike extra) (σ.handleTcpConRead id ans) (σ'.handleTcpConRead id ans) := by
  apply h.bind_connection hid
  intro o r w hheap _ htwin
  refine Both.bind_same fun _ _ => Both.bind_same fun _ _ => ?_
  have hkey := h.beside id o hheap
  cases ans.readv with
  | none => exact h
  | some bytes =>
    cases bytes with
    | nil => exact h.tcpCloseCon hid true
    | cons byte bytes =>
      refine Both.bind_same fun inputBuffer _ => ?_
      generalize ans.onUnserialize inputBuffer = result
      obtain ⟨accept, inputBuffer⟩ := result
      have hput := h.put hid (o := { o with inputBuffer }) hkey
        (htwin.change rfl (.inl rfl) rfl rfl)
      exact Both.ite (fun _ => hput) fun _ => hput.tcpCloseCon hid true

theorem Alike.handleTcpConWrite (h : Alike extra σ σ') (hid : Own extra id) :
    Both (Alike extra) (σ.handleTcpConWrite id ans) (σ'.handleTcpConWrite id ans) := by
  apply h.bind_connection hid
  intro o r w hheap _ htwin
  have hkey := h.beside id o hheap
  simp only [enableWrite, deregisterWriteHandler, updateObject_eq]
  generalize toInt32 o.outBuffer.size = size
  refine Both.bind_same fun _ _ => Both.bind_same fun _ _ => Both.bind_same fun _ _ =>
    Both.bind_same fun endPoint _ => ?_
  refine Both.ite (fun _ => ?_) fun _ => Both.ite (fun _ => ?_) fun _ => ?_
  · refine Both.bind_same fun outBuffer _ => ?_
    exact h.put hid hkey (htwin.change rfl (.inl rfl) rfl rfl)
  · refine Both.bind_same fun outBuffer _ => ?_
    exact h.put hid hkey (htwin.change rfl (.inl rfl) rfl rfl)
  · exact h.put hid hkey (htwin.change rfl (.inl rfl) rfl rfl)

theorem Alike.tcpSend (h : Alike extra σ σ') (hid : Own extra id) :
    Both (Alike extra) (σ.tcpSend id ans) (σ'.tcpSend id ans) := by
  apply h.bind_get hid
  intro o r w hheap htwin
  have hkey := h.beside id o hheap
  refine Both.bind_same fun _ _ => Both.ite (fun _ => h) fun _ => ?_
  cases ans.onSerialize with
  | none => exact h.tcpCloseCon hid true
  | some data =>
    refine Both.ite (fun _ => rfl) fun _ => Both.ite (fun _ => h) fun _ =>
      Both.bind_same fun endPoint _ => Both.ite (fun _ => ?_) fun _ => ?_
    · refine Both.bind_same fun outBuffer _ => ?_
      simp only [deregisterWriteHandler, updateObject_eq]
      split
      · exact h.put hid hkey (htwin.change rfl (.inl rfl) rfl rfl)
      · exact h.put hid hkey (htwin.change rfl (.inl rfl) rfl rfl)
    · exact h.put hid hkey (htwin.change rfl (.inl rfl) rfl rfl)

/-! ### New objects

Each gets an object from its pool, which may be new or recycled, and sets the callbacks that the
object starts with. -/

omit [KeyPool] in
theorem fromPool_recycled (hpool : ∀ o ∈ σ.pool, Recycled o) (type : EIOOBJECT_TYPE)
    (reused : Option Nat) :
    (σ.fromPool type reused).1.type = type ∧ Recycled (σ.fromPool type reused).1 ∧
      ∀ o ∈ (σ.fromPool type reused).2, Recycled o := by
  unfold fromPool
  split
  · next o hsome =>
    obtain ⟨i, -, hi⟩ := Option.bind_eq_some_iff.mp hsome
    split
    · next htype =>
      have hmem := List.mem_of_getElem? hi
      exact ⟨htype, hpool o hmem, fun o ho => hpool o (List.mem_of_mem_erase ho)⟩
    · exact ⟨rfl, ⟨rfl, rfl, rfl⟩, hpool⟩
  · exact ⟨rfl, ⟨rfl, rfl, rfl⟩, hpool⟩

omit [KeyPool] in
/-- What the pool gives is like a new object but for callbacks, and it keeps recycled objects. -/
theorem create_cases (hpool : ∀ o ∈ σ.pool, Recycled o) (type : EIOOBJECT_TYPE) (p : IOProtocol)
    (endPoint : CEndPoint) (reused : Option Nat) :
    ∃ e r w pool, σ.create type p endPoint reused =
        { σ.put σ.created { ({ type } : IOObject).onAwake p endPoint with
            errorCallback := e, readCallback := r, writeCallback := w } with
          pool, created := σ.created + 1 } ∧
      ∀ o ∈ pool, Recycled o := by
  obtain ⟨htype, hrecycled, hrest⟩ := fromPool_recycled hpool type reused
  obtain ⟨hin, hout, htimers⟩ := hrecycled
  refine ⟨(σ.fromPool type reused).1.errorCallback, (σ.fromPool type reused).1.readCallback,
    (σ.fromPool type reused).1.writeCallback, _, ?_, hrest⟩
  simp only [CNetwork.create, onAwake, htype, hin, hout, htimers]

/-- Both take an object from their pools and `set` it up in the same way. -/
theorem Alike.create (h : Alike extra σ σ') (hkey : Beside extra p.key) (type : EIOOBJECT_TYPE)
    (endPoint : CEndPoint) (reused reused' : Option Nat) (set : IOObject → IOObject)
    (hset : ∀ e r w e' r' w', let o : IOObject := ({ type } : IOObject).onAwake p endPoint
      (set { o with errorCallback := e, readCallback := r, writeCallback := w }).key = p.key ∧
      Twin (set { o with errorCallback := e, readCallback := r, writeCallback := w })
        (set { o with errorCallback := e', readCallback := r', writeCallback := w' })) :
    ∃ e r w e' r' w', let o : IOObject := ({ type } : IOObject).onAwake p endPoint
      (σ.create type p endPoint reused).get σ.created =
        .ok { o with errorCallback := e, readCallback := r, writeCallback := w } ∧
      (σ'.create type p endPoint reused').get σ.created =
        .ok { o with errorCallback := e', readCallback := r', writeCallback := w' } ∧
      Alike extra
        ((σ.create type p endPoint reused).put σ.created
          (set { o with errorCallback := e, readCallback := r, writeCallback := w }))
        ((σ'.create type p endPoint reused').put σ.created
          (set { o with errorCallback := e', readCallback := r', writeCallback := w' })) ∧
      Own extra σ.created := by
  obtain ⟨e, r, w, pool, hcreate, hpool⟩ := create_cases h.pool type p endPoint reused
  obtain ⟨e', r', w', pool', hcreate', hpool'⟩ := create_cases h.pool' type p endPoint reused'
  obtain ⟨hsame, htwin⟩ := hset e r w e' r' w'
  have hid : Own extra σ.created := fun x hx => (Nat.ne_of_lt (h.alone x hx).2.2.2.2.1).symm
  rw [h.created] at hcreate'
  rw [hcreate, hcreate']
  refine ⟨e, r, w, e', r', w', get_eq (put_heap_self ..), get_eq (put_heap_self ..), ?_, hid⟩
  have hput := h.put hid (hsame ▸ hkey) htwin
  rw [← put_put σ, ← put_put σ'] at hput
  exact { hput with
    created := rfl
    alone := fun x hx => by
      obtain ⟨hheap, hslot, hheap', hslot', hmade, htaken⟩ := hput.alone x hx
      exact ⟨hheap, hslot, hheap', hslot', Nat.lt_succ_of_lt hmade, htaken⟩
    pool := hpool
    pool' := hpool' }

theorem Alike.tcpListen (h : Alike extra σ σ') (hkey : Beside extra p.key) (port : UInt16)
    (reused : Option Nat) :
    Both (Alike extra) (σ.tcpListen port p ans) (σ'.tcpListen port p { ans with reused }) := by
  refine Both.ite (fun _ => h.notify p _) fun _ => ?_
  have hcreated := h.created
  obtain ⟨e, r, w, e', r', w', hget, hget', h, hid⟩ := h.create hkey .LISTENER
    ⟨ans.socket, ⟨INADDR_ANY, port⟩, []⟩ ans.reused reused
    (fun o => { o with
      errorCallback := some .defaultErrorHandle, readCallback := some .handleTcpAccept })
    fun e r w e' r' w' => ⟨rfl, rfl, .inl rfl, .inr rfl⟩
  simp only [hcreated, hget, hget', ok_bind, registerReadHandler, updateObject_eq]
  refine Both.bind_same fun endPoint _ => ?_
  refine Both.ite (fun _ => h.notify p _) fun _ => Both.ite (fun _ => h.notify p _) fun _ => ?_
  refine ((h.put hid ?_ ?_).addObject hid).bind fun τ τ' h => h.notify p _
  · exact hkey
  · exact ⟨rfl, .inl rfl, .inr rfl⟩

theorem Alike.tcpConnect (h : Alike extra σ σ') (hkey : Beside extra p.key) (address : CAddress)
    (reused : Option Nat) :
    Both (Alike extra) (σ.tcpConnect address p ans) (σ'.tcpConnect address p { ans with reused }) := by
  have hcreated := h.created
  obtain ⟨e, r, w, e', r', w', hget, hget', h, hid⟩ := h.create hkey .CONNECTOR
    ⟨ans.socket, address, []⟩ ans.reused reused
    (fun o => { o with
      errorCallback := some .handleTcpConnectError, writeCallback := some .handleTcpConnectWrite })
    fun e r w e' r' w' => ⟨rfl, rfl, .inr ⟨rfl, .inl rfl⟩, .inl rfl⟩
  simp only [CNetwork.tcpConnect, hcreated, hget, hget', ok_bind, registerWriteHandler,
    updateObject_eq]
  refine (h.addObject hid).bind fun τ τ' h => h.put hid ?_ ?_
  · exact hkey
  · exact ⟨rfl, .inr ⟨rfl, .inr rfl⟩, .inl rfl⟩

theorem Alike.handleTcpAccept (h : Alike extra σ σ') (hid : Own extra id)
    (hkey : ans.key ≠ 0 → Beside extra ans.key) (reused : Option Nat) :
    Both (Alike extra) (σ.handleTcpAccept id ans) (σ'.handleTcpAccept id { ans with reused }) := by
  apply h.bind_get hid
  intro o r w _ _
  refine Both.bind_same fun _ _ => Both.bind_same fun _ _ => ?_
  dsimp only
  cases ans.accepted with
  | none => exact h
  | some peer =>
    have h := h.popKey ans.key
    refine Both.ite (fun _ => h) fun hne => Both.bind_same fun fromProtocol _ => ?_
    cases ans.created with
    | none => exact h
    | some protocolId =>
      have hcreated := h.created
      obtain ⟨e, r, w, e', r', w', hget, hget', h, hid⟩ :=
        h.create (p := ⟨protocolId, .TCP, .SESSION, ans.key, 0⟩) (hkey hne) .SESSION
          ⟨peer.1, peer.2, []⟩ ans.reused reused setConnected
          fun e r w e' r' w' => ⟨rfl, rfl, .inl rfl, .inl rfl⟩
      simp only [hcreated, hget, hget', ok_bind, registerReadHandler, updateObject_eq]
      refine (h.addObject hid).bind fun τ τ' h => h.bind_get hid fun o r w hheap htwin => ?_
      have hput := h.put hid (o := { o with events := o.events ||| READ_EVENT })
        (h.beside _ o hheap) (htwin.change rfl (.inl rfl) rfl rfl)
      exact (hput.notify _ _).onNewConnection hid

/-! ### Connecting -/

theorem Alike.onTcpConnectError (h : Alike extra σ σ') (hid : Own extra id) :
    Both (Alike extra) (σ.onTcpConnectError id) (σ'.onTcpConnectError id) := by
  apply h.bind_get hid
  intro o r w hheap htwin
  have hkey := h.beside id o hheap
  refine Both.bind_same fun endPoint _ => ?_
  apply (h.notifyProtocol _ _ rfl).bind
  intro τ τ' h
  exact h.put hid hkey (htwin.change rfl (.inr (.inl rfl)) rfl rfl)

theorem Alike.handleTcpConnectError (h : Alike extra σ σ') (hid : Own extra id) :
    Both (Alike extra) (σ.handleTcpConnectError id) (σ'.handleTcpConnectError id) := by
  apply h.bind_get hid
  intro o r w _ _
  refine Both.bind_same fun _ _ => Both.ite (fun _ => ?_) fun _ => rfl
  exact h.onTcpConnectError hid

theorem Alike.handleTcpConnectWrite (h : Alike extra σ σ') (hid : Own extra id) :
    Both (Alike extra) (σ.handleTcpConnectWrite id ans) (σ'.handleTcpConnectWrite id ans) := by
  apply h.bind_get hid
  intro o r w hheap _
  have hkey := h.beside id o hheap
  simp only [registerReadHandler, updateObject_eq]
  refine Both.ite (fun _ => rfl) fun _ => Both.bind_same fun _ _ => Both.bind_same fun endPoint _ =>
    Both.ite (fun _ => h.onTcpConnectError hid) fun _ => Both.bind_same fun self _ =>
    Both.ite (fun _ => h.onTcpConnectError hid) fun _ => ?_
  -- it gets all callbacks of a connection, so both get the same object
  refine (Alike.notifyProtocol (h.put hid ?_ (.refl _)) _ _ rfl).bind fun τ τ' h => ?_
  · exact hkey
  · exact h.onNewConnection hid

/-! ### Timers -/

theorem Alike.timerDone (h : Alike extra σ σ') (hid : Own extra id) (timer : Timer) :
    Both (Alike extra) (σ.timerDone id timer) (σ'.timerDone id timer) := by
  apply h.bind_get hid
  intro o r w hheap htwin
  have hkey := h.beside id o hheap
  exact h.put hid hkey (htwin.change rfl (.inl rfl) rfl rfl)

theorem Beside.ne (h : Beside extra key) : ∀ x ∈ extra, key ≠ x.2.key :=
  fun x hx heq => h x hx (congrArg KeyPool.index heq)

theorem Alike.onTimer (h : Alike extra σ σ') (hid : Own extra id) :
    Both (Alike extra) (σ.onTimer id ans) (σ'.onTimer id ans) := by
  apply h.bind_get hid
  intro o r w hheap _
  have hkey := h.beside id o hheap
  exact Both.bind_same fun _ _ => Both.ite (fun _ => h) fun _ => h._close hkey.ne

theorem Alike.forceClose (h : Alike extra σ σ') (hid : Own extra id) :
    Both (Alike extra) (σ.forceClose id) (σ'.forceClose id) := by
  apply h.bind_get hid
  intro o r w hheap _
  have hkey := h.beside id o hheap
  simp only [h.getObject hkey.ne]
  exact Both.ite (fun _ => h) fun _ => Both.bind_same fun _ _ => h.removeTcpCon hid

theorem Alike.reconnect (h : Alike extra σ σ') (hid : Own extra id) (address : CAddress) :
    Both (Alike extra) (σ.reconnect id address ans) (σ'.reconnect id address ans) := by
  apply h.bind_get hid
  intro o r w hheap htwin
  have hkey := h.beside id o hheap
  simp only [h.getObject hkey.ne, registerWriteHandler, updateObject_eq]
  refine Both.ite (fun _ => h) fun _ => Both.ite (fun _ => rfl) fun _ => Both.bind_same fun _ _ => ?_
  exact h.put hid hkey (htwin.change rfl (.inr (.inr rfl)) rfl rfl)

end CNetwork

end ZlNet.Network
