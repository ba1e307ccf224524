import ZlNet.Engine.Threads
import ZlNet.Network.Proof.Told

/-! Where notifications go.  A protocol that the network thread knows has the message queue of the
engine, or the engine thread is about to set it; what is told to a protocol before that is lost. -/

namespace ZlNet.Engine.Threads

open Lib Network Network.CNetwork

/-- The protocol posts to the queue of the engine. -/
def Ready (σ : Threads) (p : ProtocolId) : Prop := σ.msgqueue p = some σ.getMsgQueue

/-- From `σ` to `τ` the calls are posted to the queue of the engine, in order. -/
structure Posted (calls : List (IOProtocol × Notice)) (σ τ : Threads) : Prop where
  net : τ.net = σ.net
  getMsgQueue : τ.getMsgQueue = σ.getMsgQueue
  opening : τ.opening = σ.opening
  packets : τ.packets = Function.update σ.packets σ.getMsgQueue
    (σ.packets σ.getMsgQueue ++ calls.map fun call => (call.1.id, call.2))
  ready : ∀ p, σ.Ready p → τ.Ready p
  accepted : ∀ p q, (p, .onAccept q) ∈ calls → τ.Ready p.id

variable {σ τ υ : Threads} {p : ProtocolId} {call : IOProtocol × Notice}
  {calls calls' : List (IOProtocol × Notice)}

theorem Posted.refl (σ : Threads) : Posted [] σ σ where
  net := rfl
  getMsgQueue := rfl
  opening := rfl
  packets := by simp
  ready _ h := h
  accepted _ _ h := absurd h List.not_mem_nil

theorem Posted.trans (h : Posted calls σ τ) (h' : Posted calls' τ υ) :
    Posted (calls ++ calls') σ υ where
  net := h'.net.trans h.net
  getMsgQueue := h'.getMsgQueue.trans h.getMsgQueue
  opening := h'.opening.trans h.opening
  packets := by
    rw [h'.packets, h.packets, h.getMsgQueue]
    simp
  ready p hp := h'.ready p (h.ready p hp)
  accepted p q hmem := by
    rcases List.mem_append.mp hmem with hmem | hmem
    · exact h'.ready p.id (h.accepted p q hmem)
    · exact h'.accepted p q hmem

/-- A protocol that has the queue of the engine posts to it. -/
theorem dispatchPacket_ready (h : σ.Ready p) (notice : Notice) :
    σ.dispatchPacket p notice = .ok { σ with
      packets := Function.update σ.packets σ.getMsgQueue
        (σ.packets σ.getMsgQueue ++ [(p, notice)]) } := by
  rw [Ready] at h
  simp only [dispatchPacket, h, nonNull_some, ok_bind]
  rfl

/-- A protocol that is created has the queue of the one that creates it. -/
theorem create_ready {p' q : ProtocolId} (hq : σ.Ready q) (h : σ.Ready p' ∨ p' = p) :
    (σ.create p q).Ready p' := by
  simp only [Ready, create, Function.update_apply]
  split
  · exact hq
  · next hne => exact h.resolve_right hne

theorem notified_posted (h : About (fun p => σ.Ready p.id) call) :
    ∃ τ, σ.notified call = .ok τ ∧ Posted [call] σ τ := by
  obtain ⟨p, notice⟩ := call
  have hother (hready : σ.Ready p.id) (hnotice : ∀ q, notice ≠ .onAccept q) :
      ∃ τ, σ.dispatchPacket p.id notice = .ok τ ∧ Posted [(p, notice)] σ τ := by
    refine ⟨_, dispatchPacket_ready hready notice, rfl, rfl, rfl, rfl, fun _ h => h, ?_⟩
    intro p' q hmem
    exact absurd (congrArg Prod.snd (List.mem_singleton.mp hmem)).symm (hnotice q)
  cases notice with
  | onAccept q =>
    have hready : (σ.create p.id q.id).Ready p.id := create_ready h (.inr rfl)
    refine ⟨_, dispatchPacket_ready hready (.onAccept q), rfl, rfl, rfl, rfl, ?_, ?_⟩
    · exact fun p' hp' => create_ready h (.inl hp')
    · intro p' q' hmem
      obtain ⟨rfl, -⟩ := Prod.mk.inj (List.mem_singleton.mp hmem)
      exact hready
  | onListen success => exact hother h (by simp)
  | onUnlisten => exact hother h (by simp)
  | onClose => exact hother h (by simp)
  | onConnect success => exact hother h (by simp)
  | onDisConnect => exact hother h (by simp)

theorem foldlM_posted (h : ∀ call ∈ calls, About (fun p => σ.Ready p.id) call) :
    ∃ τ, calls.foldlM notified σ = .ok τ ∧ Posted calls σ τ := by
  induction calls generalizing σ with
  | nil => exact ⟨σ, rfl, .refl σ⟩
  | cons call calls ih =>
    obtain ⟨τ, hτ, hpost⟩ := notified_posted (h call List.mem_cons_self)
    have hrest (call' : IOProtocol × Notice) (hmem : call' ∈ calls) :
        About (fun p => τ.Ready p.id) call' :=
      About.mono (fun p hp => hpost.ready p.id hp) (h call' (List.mem_cons_of_mem call hmem))
    obtain ⟨υ, hυ, hposts⟩ := ih hrest
    refine ⟨υ, ?_, hpost.trans hposts⟩
    rw [List.foldlM_cons, hτ]
    exact hυ

/-! ### Runs -/

section

variable [KeyPool] {a : ThreadAction} {as : List ThreadAction} {start : Threads}
  {action : Network.Action} {net : CNetwork}

/-- Where the queue of a protocol is still to be set, the network thread does not handle the protocol
in a way that can tell it something. -/
def Patient (σ : Threads) (a : ThreadAction) : Prop :=
  ∀ action p uid, a = .network action → σ.opening = some (.pushed p uid) →
    ∀ protocol, σ.net.Concerns action protocol → protocol.id ≠ p

/-- No call of `listen` or `connect` has begun, and the network has nothing yet. -/
structure Fresh (σ : Threads) : Prop where
  net : σ.net = CNetwork.empty
  opening : σ.opening = none

structure Inv (σ : Threads) : Prop where
  net : σ.net.Inv
  known : ∀ p, σ.net.Known p → σ.Ready p.id ∨ ∃ uid, σ.opening = some (.pushed p.id uid)

theorem Fresh.inv (h : σ.Fresh) : σ.Inv where
  net := h.net ▸ inv_empty
  known p hp := by
    rw [h.net] at hp
    rcases hp with ⟨id, o, hheap, -⟩ | ⟨event, hmem, -⟩
    · cases hheap
    · cases hmem

theorem Inv.network (h : σ.Inv) (hcontract : σ.Contract (.network action))
    (hpatient : σ.Patient (.network action)) (hexec : σ.net.exec action = .ok net) :
    (∀ call ∈ σ.told net, About (fun p => σ.Ready p.id) call) ∧
      ∃ τ, σ.exec (.network action) = .ok τ ∧ τ.Inv ∧
        Posted (σ.told net) { σ with net } τ := by
  obtain ⟨hprivate, hpre⟩ := hcontract
  obtain ⟨new, hnotices, habout, hknown⟩ := exec_tidings h.net hpre hprivate hexec
  have htold : σ.told net = new := by rw [told, hnotices, List.drop_left]
  have hready (p : IOProtocol) (hp : σ.net.Concerns action p) : σ.Ready p.id := by
    rcases h.known p (known_of_concerns hp) with hready | ⟨uid, hopening⟩
    · exact hready
    · exact absurd rfl (hpatient action p.id uid rfl hopening p hp)
  have hcalls : ∀ call ∈ new, About (fun p => σ.Ready p.id) call := fun call hmem =>
    About.mono hready (habout call hmem)
  obtain ⟨τ, hτ, hpost⟩ := foldlM_posted (σ := { σ with net }) hcalls
  rw [htold]
  refine ⟨hcalls, τ, ?_, ⟨?_, ?_⟩, hpost⟩
  · simp only [exec, Threads.network, hexec, ok_bind, htold, hτ]
  · have hout := exec_outcome h.net hpre
    rw [hexec] at hout
    exact hpost.net ▸ hout
  · intro p hp
    rw [hpost.net] at hp
    rw [hpost.opening]
    rcases hknown p hp with hold | ⟨q, hmem⟩
    · exact (h.known p hold).imp_left (hpost.ready p.id)
    · exact .inl (hpost.accepted p q hmem)

omit [KeyPool] in
/-- The network knows a protocol that is pushed to it, and those that it knew. -/
theorem known_pushed {event : IOEvent} {key : UInt32} {protocol p : IOProtocol}
    (hevent : event.protocol = some protocol) (h : ((σ.net.popKey key).pushEvent event).Known p) :
    σ.net.Known p ∨ p = protocol := by
  have hpop : (σ.net.popKey key).eventQueue = σ.net.eventQueue ∧
      (σ.net.popKey key).heap = σ.net.heap := by
    unfold popKey
    split
    · exact ⟨rfl, rfl⟩
    · exact ⟨rfl, rfl⟩
  rcases h with ⟨id, o, hheap, hp⟩ | ⟨event', hmem, hp⟩
  · exact .inl (.inl ⟨id, o, hpop.2 ▸ hheap, hp⟩)
  · rcases List.mem_append.mp hmem with hmem | hmem
    · exact .inl (.inr ⟨event', hpop.1 ▸ hmem, hp⟩)
    · obtain rfl := List.mem_singleton.mp hmem
      exact .inr (Option.some.inj (hp.symm.trans hevent))

/-- The engine thread pushes the event of a protocol. -/
theorem Inv.push (h : σ.Inv) (hopening : σ.opening = none) {protocol : IOProtocol} (key : UInt32)
    (hnet : net.Inv) (hknown : ∀ p, net.Known p → σ.net.Known p ∨ p.id = protocol.id) :
    (σ.push protocol key net).Inv := by
  unfold Threads.push
  split
  · exact h
  refine ⟨hnet, fun p hp => ?_⟩
  rcases hknown p hp with hold | hnew
  · exact .inl ((h.known p hold).resolve_right (by simp [hopening]))
  · exact .inr ⟨key, by rw [hnew]⟩

theorem Inv.listen (h : σ.Inv) {port : UInt16} {protocol : IOProtocol} {key : UInt32}
    (hcontract : σ.Contract (.listen port protocol key)) : (σ.listen port protocol key).Inv := by
  obtain ⟨hopening, hfree⟩ := hcontract
  unfold Threads.listen
  split
  · exact h
  refine h.push hopening key (exec_outcome h.net (a := .listen port _ _ _ key) hfree) fun p hp => ?_
  unfold CNetwork.listen at hp
  split at hp
  · exact .inl hp
  · exact (known_pushed rfl hp).imp_right fun hnew => by rw [hnew]

theorem Inv.connect (h : σ.Inv) {address : CAddress} {protocol : IOProtocol} {key : UInt32}
    (hcontract : σ.Contract (.connect address protocol key)) :
    (σ.connect address protocol key).Inv := by
  obtain ⟨hopening, hfree⟩ := hcontract
  unfold Threads.connect
  split
  · exact h
  refine h.push hopening key (exec_outcome h.net (a := .connect address _ _ _ key) hfree)
    fun p hp => ?_
  unfold CNetwork.connect at hp
  split at hp
  · exact .inl hp
  · exact (known_pushed rfl hp).imp_right fun hnew => by rw [hnew]

theorem Inv.setQueue (h : σ.Inv) {p : ProtocolId} {uid : UInt32}
    (hopening : σ.opening = some (.pushed p uid)) : σ.setQueue.Inv := by
  simp only [Threads.setQueue, hopening]
  refine ⟨h.net, fun p' hp' => .inl ?_⟩
  simp only [Ready, Function.update_apply]
  split
  · rfl
  · next hne =>
    rcases h.known p' hp' with hready | ⟨uid', hopening'⟩
    · exact hready
    · rw [hopening] at hopening'
      cases hopening'
      exact absurd rfl hne

theorem Inv.insert (h : σ.Inv) {p : ProtocolId} {uid : UInt32}
    (hopening : σ.opening = some (.queued p uid)) : σ.insert.Inv := by
  have hready (p' : IOProtocol) (hp' : σ.net.Known p') : σ.Ready p'.id :=
    (h.known p' hp').resolve_right (by simp [hopening])
  simp only [Threads.insert, hopening]
  split
  · exact ⟨h.net, fun p' hp' => .inl (hready p' hp')⟩
  · exact ⟨h.net, fun p' hp' => .inl (hready p' hp')⟩

theorem Inv.step (h : σ.Inv) (hstep : σ.Permitted a τ) (hpatient : σ.Patient a) : τ.Inv := by
  obtain ⟨hcontract, hexec⟩ := hstep
  cases a with
  | listen port protocol key => exact Except.ok.inj hexec ▸ h.listen hcontract
  | connect address protocol key => exact Except.ok.inj hexec ▸ h.connect hcontract
  | setQueue =>
    obtain ⟨p, uid, hopening⟩ := hcontract
    exact Except.ok.inj hexec ▸ h.setQueue hopening
  | insert =>
    obtain ⟨p, uid, hopening⟩ := hcontract
    exact Except.ok.inj hexec ▸ h.insert hopening
  | removeProtocol uid => exact Except.ok.inj hexec ▸ ⟨h.net, h.known⟩
  | network action =>
    obtain ⟨net, hnet, -⟩ := of_bind_ok hexec
    obtain ⟨-, τ', hτ', hinv, -⟩ := h.network hcontract hpatient hnet
    obtain rfl := Except.ok.inj (hexec.symm.trans hτ')
    exact hinv

/-- In a run in which the network thread leaves each protocol alone until its queue is set, all that
protocols are told lands in the queue of the engine, and the queue of a protocol that is told of
itself was set before. -/
theorem notified_of_patient (hstart : start.Fresh)
    (run : Run (fun σ a τ => σ.Permitted a τ ∧ σ.Patient a) start as σ)
    (hcontract : σ.Contract (.network action)) (hpatient : σ.Patient (.network action))
    (hexec : σ.net.exec action = .ok net) :
    ∃ τ, σ.exec (.network action) = .ok τ ∧
      τ.packets = Function.update σ.packets σ.getMsgQueue (σ.packets σ.getMsgQueue ++
        (σ.told net).map fun call => (call.1.id, call.2)) ∧
      ∀ call ∈ σ.told net, (∀ p, call.2 ≠ .onAccept p) →
        σ.msgqueue call.1.id = some σ.getMsgQueue := by
  have hinv : σ.Inv := run.invariant Inv (fun _ _ _ h hstep => h.step hstep.1 hstep.2) hstart.inv
  obtain ⟨habout, τ, hτ, -, hpost⟩ := hinv.network hcontract hpatient hexec
  refine ⟨τ, hτ, hpost.packets, fun call hmem hne => ?_⟩
  have habout := habout call hmem
  obtain ⟨p, notice⟩ := call
  cases notice with
  | onAccept q => exact absurd rfl (hne q)
  | onListen success => exact habout
  | onUnlisten => exact habout
  | onClose => exact habout
  | onConnect success => exact habout
  | onDisConnect => exact habout

theorem permitted_next (hcontract : σ.Contract a) (hok : (σ.exec a).toBool = true) :
    σ.Permitted a (σ.next a) := by
  refine ⟨hcontract, ?_⟩
  unfold next
  cases hexec : σ.exec a with
  | ok τ => rfl
  | error f => simp [hexec, Except.toBool] at hok

end

/-- The threads after a connector's event was taken before its queue was set, and then its queue was
set. -/
def opened : Threads :=
  let _ := KeyPool.lowBits
  let σ : Threads := { getMsgQueue := 7 }
  (((σ.next (.connect ⟨1, 80⟩ ⟨0, .TCP, .WAKEUP, 0, 0⟩ 5)).next
    (.network (.dispatch { socket := 3 }))).next .setQueue).next .insert

theorem opened_run : ∃ as,
    Run (fun σ a τ => @Permitted .lowBits σ a τ ∧ @Patient .lowBits σ a) { getMsgQueue := 7 } as
      opened := by
  let _ := KeyPool.lowBits
  have h1 : Run (fun (σ : Threads) a τ => σ.Permitted a τ ∧ σ.Patient a) { getMsgQueue := 7 } _ _ :=
    Run.nil.snoc ⟨permitted_next (a := .connect ⟨1, 80⟩ ⟨0, .TCP, .WAKEUP, 0, 0⟩ 5)
      ⟨rfl, .inr (by rintro _ ⟨⟩)⟩ rfl, by rintro _ _ _ ⟨⟩⟩
  have h2 := h1.snoc ⟨permitted_next (a := .network (.dispatch { socket := 3 }))
    ⟨id, by rintro _ ⟨⟩, by rintro _ ⟨⟩⟩ (by decide +kernel), by
      rintro _ p uid ⟨⟩ _ protocol ⟨event, hhead, hconcerns⟩
      obtain rfl := Option.some.inj hhead
      exact hconcerns.elim⟩
  have h3 := h2.snoc ⟨permitted_next (a := .setQueue) ⟨0, 5, by decide +kernel⟩ rfl,
    by rintro _ _ _ ⟨⟩⟩
  have h4 := h3.snoc ⟨permitted_next (a := .insert) ⟨0, 5, by decide +kernel⟩ rfl,
    by rintro _ _ _ ⟨⟩⟩
  exact ⟨_, h4⟩

/-- The connector is told of its connection. -/
theorem notified_of_patient_connected :
    ∃ as action net τ p, Run (@Permitted .lowBits) { getMsgQueue := 7 } as opened ∧
      @CNetwork.exec .lowBits opened.net action = .ok net ∧ (p, .onConnect true) ∈ opened.told net ∧
      opened.msgqueue p.id = some 7 ∧ @exec .lowBits opened (.network action) = .ok τ ∧
      τ.packets 7 = [(p.id, .onConnect true)] := by
  let _ := KeyPool.lowBits
  let peer : CAddress := ⟨1, 80⟩
  let ready : Network.Action := .poll 5 { writable := true }
    { localName := some ⟨2, 81⟩, remoteName := some peer, remoteNameAgain := some peer }
  obtain ⟨as, hrun⟩ := opened_run
  have hpre : opened.net.Pre ready := ⟨.inl rfl, by unfold Found; decide +kernel⟩
  have hnet := (step_next opened.net hpre (by decide +kernel)).2
  obtain ⟨τ, hexec, hpackets, hset⟩ := notified_of_patient ⟨rfl, rfl⟩ hrun ⟨id, hpre⟩
    (by rintro _ _ _ ⟨⟩ hopening; cases hopening) hnet
  have htold : (⟨0, .TCP, .CONNECTOR, 5, 0⟩, .onConnect true) ∈ opened.told (opened.net.next ready) := by
    decide +kernel
  exact ⟨_, ready, _, τ, _, hrun.mono fun _ _ _ => And.left, hnet, htold, hset _ htold (by simp),
    hexec, (congrFun hpackets 7).trans (by decide +kernel)⟩

/-- A listener whose event is handled before its queue is set has nowhere to post that it listens. -/
theorem listen_unqueued :
    ∃ start as σ action net p, Fresh start ∧ Run (@Permitted .lowBits) start as σ ∧
      @Contract .lowBits σ (.network action) ∧ @CNetwork.exec .lowBits σ.net action = .ok net ∧
      (p, .onListen true) ∈ σ.told net ∧ σ.msgqueue p.id = none ∧
      @exec .lowBits σ (.network action) = .error .nullPointer := by
  let _ := KeyPool.lowBits
  have h1 := Run.nil.snoc (permitted_next (σ := { getMsgQueue := 7 })
    (a := .listen 80 ⟨0, .TCP, .WAKEUP, 0, 0⟩ 5) ⟨rfl, .inr (by rintro _ ⟨⟩)⟩ rfl)
  refine ⟨_, _, _, .dispatch { socket := 3 }, _, ⟨0, .TCP, .LISTENER, 5, 0⟩, ⟨rfl, rfl⟩, h1,
    ⟨id, by rintro _ ⟨⟩, by rintro _ ⟨⟩⟩, rfl, ?_, ?_, ?_⟩
  · decide +kernel
  · rfl
  · rfl

end ZlNet.Engine.Threads
