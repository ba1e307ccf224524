import ZlNet.Network.Proof.Accounts

/-! How attempts to connect end.  A connector that is disconnected waits and tries again, and one
that is connecting hears from its socket, if it has one: `tcpConnect` and the timer that connects
again both go on without one. -/

namespace ZlNet.Network

open Lib IOObject

namespace IOObject

/-- The connector has a socket, which is registered for writing, and is connecting. -/
def Underway (o : IOObject) : Prop :=
  o.state = .CONNECTING ∧ (∃ e, o.endPoint = some e ∧ e.socket ≠ -1) ∧ o.hasWriting = true

/-- The connector is disconnected, and its timer to connect again is set. -/
def Waits (o : IOObject) : Prop := o.state = .DISCONNECTED ∧ ∃ a, .reconnect a ∈ o.timers

end IOObject

namespace CNetwork

section

variable [KeyPool] {σ τ υ : CNetwork} {id : ObjectId} {o o' : IOObject} {p : IOProtocol}
  {a : Action} {ans : Answers} {L : Prop}

/-- From `σ` to `τ` an attempt of the protocol has ended with its connector underway, or waiting
once the protocol was told that it failed. -/
def Settles (σ τ : CNetwork) (p : IOProtocol) : Prop :=
  ∃ id o, τ.InTable id o ∧ o.protocol = some p ∧
    (o.Underway ∨ o.Waits ∧ ∃ new, τ.notices = σ.notices ++ new ∧ (p, .onConnect false) ∈ new)

/-- An attempt leaves the connector connecting with whatever socket there was. -/
structure Tried (τ : CNetwork) (p : IOProtocol) (socket : Int) : Prop where
  inv : τ.Inv
  connecting : ∃ id o e, τ.InTable id o ∧ o.protocol = some p ∧ o.state = .CONNECTING ∧
    o.hasWriting = true ∧ o.endPoint = some e ∧ e.socket = socket

theorem attempt_tries (h : σ.Inv) (hattempts : σ.Attempts a p ans) :
    ∃ τ, σ.exec a = .ok τ ∧ Tried τ p ans.socket := by
  cases hattempts with
  | @first address _ rest _ hqueue htcp =>
    have hclaims : σ.Claims p.key { σ with eventQueue := rest } := .event hqueue rfl
    obtain ⟨o, pool, heq, ho, hend, -⟩ :=
      tcpConnect_eq (hclaims.leads h).inv (hclaims.fresh h) address ans
    have hgoes : Outcome Foreign (Goes false (fun _ _ => True) σ)
        (tcpConnect { σ with eventQueue := rest } address p ans) :=
      tcpConnect_goes h hclaims htcp trivial address
    rw [heq] at hgoes
    refine ⟨_, ?_, hgoes.inv h, σ.created, _, _, ⟨heap_added, ?_⟩, ho.protocol, rfl, ?_, hend, rfl⟩
    · simpa only [exec, dispatch, hqueue, dispatchProcess, processConnect, htcp] using heq
    · simp [added]
    · simp [hasWriting, WRITE_EVENT]
  | @again con o _ address _ hin hp htimer =>
    have heq := reconnect_eq h hin htimer ans
    have hgoes : Outcome Foreign (Goes false (fun _ _ => True) σ)
        (σ.fire con (.reconnect address) ans) := reconnect_goes h hin.heap htimer
    rw [heq] at hgoes
    exact ⟨_, heq, hgoes.inv h, con, _, _, hin.put rfl, hp, rfl, by simp [hasWriting, WRITE_EVENT],
      rfl, rfl⟩

/-- An attempt ends in one of the two states exactly where there was a socket. -/
theorem Tried.settles_iff {socket : Int} (h : Tried τ p socket) :
    Settles σ τ p ↔ socket ≠ -1 := by
  obtain ⟨id, o, e, hin, hp, hstate, hwrite, hend, rfl⟩ := h.connecting
  constructor
  · rintro ⟨id', o', hin', hp', hsettles⟩
    obtain ⟨q, hq, hkey, -⟩ := h.inv.held_protocol hin.heap
    obtain ⟨q', hq', hkey', -⟩ := h.inv.held_protocol hin'.heap
    obtain rfl := Option.some.inj (hp.symm.trans hq)
    obtain rfl := Option.some.inj (hp'.symm.trans hq')
    obtain ⟨rfl, rfl⟩ := hin.of_key hin' (hkey'.symm.trans hkey)
    rcases hsettles with ⟨-, ⟨e', he', hsocket⟩, -⟩ | ⟨⟨hstate', -⟩, -⟩
    · rwa [← Option.some.inj (he'.symm.trans hend)]
    · rw [hstate] at hstate'
      cases hstate'
  · exact fun hsocket => ⟨id, o, hin, hp, .inl ⟨hstate, ⟨e, hend, hsocket⟩, hwrite⟩⟩

/-! ### Runs -/

/-- A step in which no attempt goes without a socket. -/
def SocketStep (σ : CNetwork) (a : Action) (τ : CNetwork) : Prop :=
  σ.Step a τ ∧ ∀ p ans, σ.Attempts a p ans → ans.socket ≠ -1

/-- Every connector has a socket if it has an end point, and one that waits was told that it failed. -/
structure Vetted (σ : CNetwork) : Prop where
  sockets : ∀ id o e, σ.heap id = some o → o.type = .CONNECTOR → o.endPoint = some e →
    e.socket ≠ -1
  waiting : ∀ id o a, σ.heap id = some o → .reconnect a ∈ o.timers →
    ∃ p, o.protocol = some p ∧ (p, .onConnect false) ∈ σ.notices

omit [KeyPool] in
theorem Vetted.accounts (h : σ.Vetted) (hacc : Accounts (· ≠ -1) L σ τ) : τ.Vetted where
  sockets id o' e' ho' htype' he' := by
    rcases hacc.sockets id o' e' ho' htype' he' with hS | ⟨o, e, ho, htype, he, hsocket⟩
    · exact hS
    · exact hsocket ▸ h.sockets id o e ho htype he
  waiting id o' a ho' ha' := by
    rcases hacc.waiting id o' a ho' ha' with ⟨o, ho, hp, ha⟩ | htold
    · obtain ⟨p, hp', htold⟩ := h.waiting id o a ho ha
      obtain ⟨new, hnew, -⟩ := hacc.keys
      exact ⟨p, hp ▸ hp', hnew ▸ List.mem_append_left _ htold⟩
    · exact htold

omit [KeyPool] in
theorem Vetted.of_heap (h : σ.Vetted) (hheap : ∀ id o, τ.heap id = some o → σ.heap id = some o)
    (hnotices : τ.notices = σ.notices) : τ.Vetted where
  sockets id o e ho := h.sockets id o e (hheap id o ho)
  waiting id o a ho ha := hnotices ▸ h.waiting id o a (hheap id o ho) ha

omit [KeyPool] in
theorem popKey_same (key : UInt32) :
    (σ.popKey key).heap = σ.heap ∧ (σ.popKey key).notices = σ.notices := by
  unfold popKey
  split
  · exact ⟨rfl, rfl⟩
  · exact ⟨rfl, rfl⟩

/-- What the other threads do adds no object, and tells no protocol. -/
theorem exec_others (hruns : ¬Action.Runs a) (hexec : σ.exec a = .ok τ) :
    (∀ id o, τ.heap id = some o → σ.heap id = some o) ∧ τ.notices = σ.notices := by
  cases a with
  | listen port id protocolType group key =>
    obtain rfl := Except.ok.inj hexec
    unfold listen
    split
    · exact ⟨fun _ _ ho => ho, rfl⟩
    · exact ⟨fun _ _ ho => (popKey_same key).1 ▸ ho, (popKey_same key).2⟩
  | connect address id protocolType group key =>
    obtain rfl := Except.ok.inj hexec
    unfold connect
    split
    · exact ⟨fun _ _ ho => ho, rfl⟩
    · exact ⟨fun _ _ ho => (popKey_same key).1 ▸ ho, (popKey_same key).2⟩
  | push event =>
    obtain rfl := Except.ok.inj hexec
    exact ⟨fun _ _ ho => ho, rfl⟩
  | pushKey key =>
    obtain rfl := Except.ok.inj hexec
    exact ⟨fun _ _ ho => ho, rfl⟩
  | recycle object =>
    obtain rfl := Except.ok.inj hexec
    unfold recycle
    split
    · refine ⟨fun id o ho => ?_, rfl⟩
      dsimp only at ho
      rw [Function.update_apply] at ho
      split at ho
      · cases ho
      · exact ho
    · exact ⟨fun _ _ ho => ho, rfl⟩
  | dispatch ans => exact absurd trivial hruns
  | poll key event ans => exact absurd trivial hruns
  | fire con timer ans => exact absurd trivial hruns

theorem step_vetted (h : σ.Inv) (hvetted : σ.Vetted) (hstep : σ.SocketStep a τ) : τ.Vetted := by
  obtain ⟨⟨hpre, hexec⟩, hS⟩ := hstep
  by_cases hruns : Action.Runs a
  · have hbalances := exec_balances (S := (· ≠ -1)) h hpre hruns hS
    rw [hexec] at hbalances
    exact hvetted.accounts hbalances
  · obtain ⟨hheap, hnotices⟩ := exec_others hruns hexec
    exact hvetted.of_heap hheap hnotices

omit [KeyPool] in
theorem vetted_empty : empty.Vetted where
  sockets _ _ _ ho := by cases ho
  waiting _ _ _ ho := by cases ho

theorem vetted_run {as : List Action} (run : Run SocketStep empty as σ) : σ.Inv ∧ σ.Vetted := by
  refine run.invariant (fun σ => σ.Inv ∧ σ.Vetted) ?_ ⟨inv_empty, vetted_empty⟩
  rintro σ a τ ⟨h, hvetted⟩ hstep
  have hout := exec_outcome h hstep.1.1
  rw [hstep.1.2] at hout
  exact ⟨hout, step_vetted h hvetted hstep⟩

/-- A connector of the table that has a socket if it has an end point is underway, waits or is
established. -/
theorem Vetted.connector (hvetted : σ.Vetted) (h : σ.Inv) (hin : σ.InTable id o)
    (htype : o.type = .CONNECTOR) :
    o.Underway ∨ (o.Waits ∧ ∃ p, o.protocol = some p ∧ (p, .onConnect false) ∈ σ.notices) ∨
      o.state = .CONNECTED ∨ o.state = .DISCONNECTING := by
  cases h.settled hin with
  | listening hl => exact absurd (hl.type.symm.trans htype) (by decide)
  | established hest => exact .inr (.inr hest.state_cases)
  | attempting ha =>
    rcases ha.phase with ⟨hstate, hevents, hend, -⟩ | ⟨hstate, -, -, a, htimers⟩
    · obtain ⟨e, he⟩ := Option.isSome_iff_exists.mp hend
      exact .inl ⟨hstate, ⟨e, he, hvetted.sockets id o e hin.heap htype he⟩,
        by simp [hasWriting, hevents, WRITE_EVENT]⟩
    · have ha : .reconnect a ∈ o.timers := by simp [htimers]
      exact .inr (.inl ⟨⟨hstate, a, ha⟩, hvetted.waiting id o a hin.heap ha⟩)

/-- In every run from an empty table, an attempt to connect ends with its connector underway, or
waiting once its protocol was told, exactly where a socket is created for it.  Where every attempt
of the run gets one, no connector of the table ever hangs. -/
theorem attempts_settle_iff {as : List Action} (run : Run Step empty as σ) :
    (∀ a p ans, σ.Attempts a p ans →
      ∃ τ, σ.exec a = .ok τ ∧ (Settles σ τ p ↔ ans.socket ≠ -1)) ∧
    (Run SocketStep empty as σ → ∀ id o, σ.InTable id o → o.type = .CONNECTOR →
      o.Underway ∨ (o.Waits ∧ ∃ p, o.protocol = some p ∧ (p, .onConnect false) ∈ σ.notices) ∨
        o.state = .CONNECTED ∨ o.state = .DISCONNECTING) := by
  constructor
  · intro a p ans hattempts
    obtain ⟨τ, hexec, htried⟩ := attempt_tries (inv_run run) hattempts
    exact ⟨τ, hexec, htried.settles_iff⟩
  · intro hrun id o hin htype
    obtain ⟨h, hvetted⟩ := vetted_run hrun
    exact hvetted.connector h hin htype

end

/-- The network thread after another thread has asked it to connect. -/
def called : CNetwork :=
  let _ := KeyPool.lowBits
  empty.next (.connect ⟨1, 80⟩ 0 .TCP 0 5)

theorem called_step : @Step .lowBits empty (.connect ⟨1, 80⟩ 0 .TCP 0 5) called := by
  let _ := KeyPool.lowBits
  exact step_next empty (a := .connect ⟨1, 80⟩ 0 .TCP 0 5) (.inr (by rintro _ ⟨⟩)) rfl

theorem called_attempts (ans : Answers) :
    @Attempts .lowBits called (.dispatch ans) ⟨0, .TCP, .CONNECTOR, 5, 0⟩ ans := by
  let _ := KeyPool.lowBits
  have hqueue : called.eventQueue = [.connect ⟨1, 80⟩ ⟨0, .TCP, .CONNECTOR, 5, 0⟩] := rfl
  exact .first hqueue rfl

/-- The network thread after the first attempt has failed. -/
def failed : CNetwork :=
  let _ := KeyPool.lowBits
  (called.next (.dispatch { socket := 3 })).next (.poll 5 { err := true } {})

theorem failed_run : Run (@SocketStep .lowBits) empty
    [.connect ⟨1, 80⟩ 0 .TCP 0 5, .dispatch { socket := 3 }, .poll 5 { err := true } {}] failed := by
  let _ := KeyPool.lowBits
  have hcall : empty.SocketStep (.connect ⟨1, 80⟩ 0 .TCP 0 5) called :=
    ⟨called_step, by rintro p ans ⟨⟩⟩
  have hdispatch :
      called.SocketStep (.dispatch { socket := 3 }) (called.next (.dispatch { socket := 3 })) := by
    refine ⟨step_next called ⟨by rintro _ ⟨⟩, by rintro _ ⟨⟩⟩ (by decide +kernel), ?_⟩
    rintro p ans ⟨⟩
    decide
  have hpoll : (called.next (.dispatch { socket := 3 })).SocketStep (.poll 5 { err := true } {})
      failed := by
    refine ⟨step_next _ ⟨.inl rfl, by unfold Found; decide +kernel⟩ (by decide +kernel), ?_⟩
    rintro p ans ⟨⟩
  exact ((Run.single hcall).snoc hdispatch).snoc hpoll

/-- An attempt that gets a socket settles.  When it fails, the next one, which gets a socket too, settles
as well, and the run goes on with its connector underway. -/
theorem attempts_settle_iff_socket :
    (∃ τ, @dispatch .lowBits called { socket := 3 } = .ok τ ∧
      @Settles .lowBits called τ ⟨0, .TCP, .CONNECTOR, 5, 0⟩) ∧
    (∃ τ, @fire .lowBits failed 0 (.reconnect ⟨1, 80⟩) { socket := 4 } = .ok τ ∧
      @Settles .lowBits failed τ ⟨0, .TCP, .CONNECTOR, 5, 0⟩) ∧
    ∃ as σ o, Run (@SocketStep .lowBits) empty as σ ∧ σ.heap 0 = some o ∧
      (o.Underway ∨ (o.Waits ∧ ∃ p, o.protocol = some p ∧ (p, .onConnect false) ∈ σ.notices) ∨
        o.state = .CONNECTED ∨ o.state = .DISCONNECTING) := by
  let _ := KeyPool.lowBits
  have steps {σ τ : CNetwork} {as : List Action} (run : Run SocketStep σ as τ) : Run Step σ as τ :=
    run.mono fun _ _ _ hstep => hstep.1
  -- the connector that waits for the second attempt
  have hwaiting : (failed.heap 0).map (fun o => (o.key, o.protocol, o.timers)) =
      some (5, some ⟨0, .TCP, .CONNECTOR, 5, 0⟩, [.reconnect ⟨1, 80⟩]) := by decide +kernel
  obtain ⟨o, ho, hmap⟩ := Option.map_eq_some_iff.mp hwaiting
  obtain ⟨hkey, hmap⟩ := Prod.mk.inj hmap
  obtain ⟨hp, htimers⟩ := Prod.mk.inj hmap
  have hin : failed.InTable 0 o :=
    ⟨ho, hkey ▸ (by decide +kernel : failed.objects (KeyPool.index 5) = some 0)⟩
  have hagain : failed.Attempts (.fire 0 (.reconnect ⟨1, 80⟩) { socket := 4 })
      ⟨0, .TCP, .CONNECTOR, 5, 0⟩ { socket := 4 } := .again hin hp (by simp [htimers])
  obtain ⟨hattempts, -⟩ := attempts_settle_iff (Run.single called_step)
  obtain ⟨τ, hexec, hsettles⟩ := hattempts _ _ _ (called_attempts { socket := 3 })
  obtain ⟨hattempts', -⟩ := attempts_settle_iff (steps failed_run)
  obtain ⟨υ, hexec', hsettles'⟩ := hattempts' _ _ _ hagain
  have hfire : failed.SocketStep (.fire 0 (.reconnect ⟨1, 80⟩) { socket := 4 }) υ := by
    refine ⟨⟨⟨o, ho, by simp [htimers]⟩, hexec'⟩, ?_⟩
    rintro p ans ⟨⟩
    decide
  have hrun := failed_run.snoc hfire
  obtain ⟨-, hconnectors⟩ := attempts_settle_iff (steps hrun)
  have hnext : failed.next (.fire 0 (.reconnect ⟨1, 80⟩) { socket := 4 }) = υ := by
    rw [next, hexec']
  have hheap : (υ.heap 0).map (fun o => (o.key, o.type)) = some (5, .CONNECTOR) := by
    rw [← hnext]
    decide +kernel
  have hslot : υ.objects (KeyPool.index 5) = some 0 := by
    rw [← hnext]
    decide +kernel
  obtain ⟨o', ho', hmap⟩ := Option.map_eq_some_iff.mp hheap
  obtain ⟨hkey', htype⟩ := Prod.mk.inj hmap
  have hin' : υ.InTable 0 o' := ⟨ho', hkey' ▸ hslot⟩
  exact ⟨⟨τ, hexec, hsettles.mpr (by decide)⟩, ⟨υ, hexec', hsettles'.mpr (by decide)⟩, _, υ, o', hrun,
    ho', hconnectors hrun 0 o' hin' htype⟩

/-- No socket can be created for the first attempt, and the connector stays connecting without one:
its protocol is not told, and no timer is set. -/
theorem attempts_settle_iff_hangs :
    ∃ τ, Run (@Step .lowBits) empty [.connect ⟨1, 80⟩ 0 .TCP 0 5] called ∧
      @dispatch .lowBits called { socket := -1 } = .ok τ ∧
      (τ.heap 0).map (fun o => (o.state, o.endPoint, o.timers)) =
        some (.CONNECTING, some ⟨-1, ⟨1, 80⟩, []⟩, []) ∧
      τ.notices = [] ∧ ¬@Settles .lowBits called τ ⟨0, .TCP, .CONNECTOR, 5, 0⟩ := by
  let _ := KeyPool.lowBits
  obtain ⟨τ, hexec, htried⟩ :=
    attempt_tries (inv_run (Run.single called_step)) (called_attempts { socket := -1 })
  have hnext : called.next (.dispatch { socket := -1 }) = τ := by rw [next, hexec]
  refine ⟨τ, Run.single called_step, hexec, ?_, ?_, ?_⟩
  · rw [← hnext]
    decide +kernel
  · rw [← hnext]
    decide +kernel
  · exact fun hsettles => htried.settles_iff.mp hsettles rfl

end CNetwork

end ZlNet.Network
