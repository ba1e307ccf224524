import ZlNet.Network.Proof.Loop

/-! Graceful closes.  The socket of a connection is shut for writing once at most, when the connection
is being closed and all that it had to send was handed over, and nothing is written to it after that. -/

namespace ZlNet.Network.CNetwork

open Lib IOObject

section

variable {σ : CNetwork} {p : IOProtocol} {told : Option Notice}

@[simp] theorem tell_heap : (σ.tell p told).heap = σ.heap := by
  cases told with
  | some notice => rfl
  | none => rfl

@[simp] theorem tell_objects : (σ.tell p told).objects = σ.objects := by
  cases told with
  | some notice => rfl
  | none => rfl

end

section

variable [KeyPool] {σ τ υ : CNetwork} {id : ObjectId} {o o' : IOObject} {e e' : CEndPoint}
  {force : Bool} {P : EIOOBJECT_TYPE → IOProtocol → Prop}

/-! ### What becomes of an object -/

/-- The object `o'` of `τ` with what it was in `σ`, where `τ` comes after `σ`. -/
inductive Became (force : Bool) (P : EIOOBJECT_TYPE → IOProtocol → Prop) (σ τ : CNetwork)
    (id : ObjectId) (o' : IOObject) : Prop
  | stayed {o : IOObject} (timers : List Timer) (hheap : σ.heap id = some o)
      (ho : o' = { o with timers })
      (hslot : σ.objects (KeyPool.index o.key) = some id ↔
        τ.objects (KeyPool.index o.key) = some id)
  | acted {o : IOObject} {told : Option Notice} (hin : σ.InTable id o) (hin' : τ.InTable id o')
      (hsame : Same o o') (hact : Act force o o' told)
  | exited {o : IOObject} {told : Option Notice} (hin : σ.InTable id o) (hsame : Same o o')
      (hend : o'.endPoint = o.endPoint) (hout : o'.outBuffer = o.outBuffer)
      (hstate : o'.state = .DISCONNECTED ∨ o'.state = o.state ∧ o.type = .LISTENER)
      (habsent : τ.objects (KeyPool.index o.key) ≠ some id) (hexit : Exit force o told)
  | entered (hheap : σ.heap id = none) (hsilent : o'.Silent)

theorem became_self (hheap : σ.heap id = some o') (hobjects : τ.objects = σ.objects) :
    Became force P σ τ id o' :=
  .stayed o'.timers hheap rfl (by rw [hobjects])

theorem Turn.became (hturn : Turn force P σ τ) (hheap : τ.heap id = some o') :
    Became force P σ τ id o' := by
  cases hturn.move with
  | @act id₁ o₁ o₁' p told hin hp hsame hact =>
    rw [tell_heap] at hheap
    by_cases heq : id = id₁
    · subst heq
      obtain rfl := Option.some.inj ((σ.put_heap_self id o₁').symm.trans hheap)
      refine .acted hin ⟨by rw [tell_heap]; exact hheap, ?_⟩ hsame hact
      rw [tell_objects, hsame.key]
      exact hin.slot
    · exact became_self ((σ.put_heap_ne o₁' heq).symm.trans hheap) tell_objects
  | @exit id₁ o₁ o₁' p told hin hp hsame hend hout hstate hexit =>
    rw [tell_heap] at hheap
    by_cases heq : id = id₁
    · subst heq
      obtain rfl := Option.some.inj ((σ.put_heap_self id o₁').symm.trans hheap)
      refine .exited hin hsame hend hout hstate ?_ hexit
      simp [removed, hsame.key]
    · refine .stayed o'.timers ((σ.put_heap_ne o₁' heq).symm.trans hheap) rfl ?_
      rw [tell_objects]
      by_cases hindex : KeyPool.index o'.key = KeyPool.index o₁'.key
      · rw [hindex]
        simp [removed, hsame.key, hin.slot, Ne.symm heq]
      · simp [removed, hindex]
  | @absent id₁ o₁ hheap₁ habsent timers =>
    by_cases heq : id = id₁
    · subst heq
      obtain rfl := Option.some.inj ((σ.put_heap_self id _).symm.trans hheap)
      exact .stayed timers hheap₁ rfl Iff.rfl
    · exact became_self ((σ.put_heap_ne _ heq).symm.trans hheap) rfl
  | @entry υ o₁ p pool inTable told hclaims hp hkey hsilent hentry =>
    obtain ⟨hheap₁, hobjects, hcreated, -⟩ := hclaims.same
    have hυ := hclaims.leads hturn.inv
    rw [tell_heap] at hheap
    by_cases heq : id = υ.created
    · subst heq
      obtain rfl := Option.some.inj ((υ.put_heap_self υ.created o₁).symm.trans hheap)
      exact .entered (hheap₁ ▸ hυ.inv.created_free) hsilent
    · have hheap := (υ.put_heap_ne o₁ heq).symm.trans hheap
      refine .stayed o'.timers (hheap₁ ▸ hheap) rfl ?_
      rw [tell_objects, ← hobjects]
      by_cases hindex : KeyPool.index o'.key = KeyPool.index o₁.key
      · cases inTable with
        | false => exact Iff.rfl
        | true =>
          have hslot := hυ.inv.slot_of_fresh (hkey ▸ hclaims.fresh hturn.inv)
          simp [added, hindex, hslot, Ne.symm heq]
      · cases inTable with
        | false => exact Iff.rfl
        | true => simp [added, hindex]
  | refused hclaims hp =>
    obtain ⟨hheap₁, hobjects, -⟩ := hclaims.same
    exact became_self (hheap₁ ▸ hheap) hobjects
  | @popKey key hfree =>
    unfold CNetwork.popKey at hheap ⊢
    split
    · next hzero => exact became_self (by simpa [hzero] using hheap) rfl
    · next hne => exact became_self (by simpa [hne] using hheap) rfl
  | popEvent hqueue => exact became_self hheap rfl

/-! ### Sockets that are shut for writing -/

/-- The socket `e` of `o` was shut for writing: that was the last thing done with it, and `o` had
nothing more to send. -/
structure Shut (o : IOObject) (e : CEndPoint) : Prop where
  connection : o.isConnection = true
  last : ∃ sent, e.sent = sent ++ [.fin] ∧ .fin ∉ sent
  drained : o.outBuffer.bytes = []

/-- A connection whose socket was shut is still disconnecting, or was removed. -/
def Flushed (σ : CNetwork) : Prop :=
  ∀ id o e, σ.heap id = some o → o.endPoint = some e → .fin ∈ e.sent → Shut o e ∧
    (o.state = .DISCONNECTING ∨
      o.state = .DISCONNECTED ∧ σ.objects (KeyPool.index o.key) ≠ some id)

theorem Flushed.disconnecting (h : σ.Flushed) (hin : σ.InTable id o) (hend : o.endPoint = some e)
    (hfin : .fin ∈ e.sent) : Shut o e ∧ o.state = .DISCONNECTING := by
  obtain ⟨hshut, hstate⟩ := h id o e hin.heap hend hfin
  exact ⟨hshut, hstate.resolve_right fun hremoved => hremoved.2 hin.slot⟩

/-- The socket is open while its connection sends. -/
theorem Flushed.open (h : σ.Flushed) (hin : σ.InTable id o) (hend : o.endPoint = some e)
    (hsends : o.state ≠ .DISCONNECTING ∨ o.outBuffer.bytes ≠ []) : .fin ∉ e.sent := by
  intro hfin
  obtain ⟨hshut, hstate⟩ := h.disconnecting hin hend hfin
  exact hsends.elim (fun hne => hne hstate) fun hne => hne hshut.drained

omit [KeyPool] in
theorem fin_write {data : List UInt8} {count : Int} :
    .fin ∈ (e.write data count).sent ↔ .fin ∈ e.sent := by
  simp [CEndPoint.write]

omit [KeyPool] in
theorem shut_shutdownWrite (hcon : o.isConnection = true) (hopen : .fin ∉ e.sent)
    (hout : o.outBuffer.bytes = []) : Shut o e.shutdownWrite :=
  ⟨hcon, ⟨e.sent, rfl, hopen⟩, hout⟩

omit [KeyPool] in
theorem Shut.of_same (h : Shut o e) (hsame : Same o o') (hout : o'.outBuffer = o.outBuffer) :
    Shut o' e :=
  ⟨hsame.isConnection ▸ h.connection, h.last, hout ▸ h.drained⟩

/-- Nothing is done with a socket that was shut, and its connection is only removed by force. -/
theorem Became.shut (h : Became force P σ τ id o') (hflushed : σ.Flushed)
    (hheap : σ.heap id = some o) (hend : o.endPoint = some e) (hfin : .fin ∈ e.sent) :
    o'.endPoint = some e ∧ Shut o' e ∧ (o'.state = .DISCONNECTING ∨
      o'.state = .DISCONNECTED ∧ τ.objects (KeyPool.index o'.key) ≠ some id) ∧
      (force = false → σ.objects (KeyPool.index o.key) = some id →
        τ.objects (KeyPool.index o'.key) = some id ∧ o'.state = .DISCONNECTING) := by
  obtain ⟨hshut, hstate⟩ := hflushed id o e hheap hend hfin
  cases h with
  | @stayed o₁ timers hheap₁ ho hslot =>
    obtain rfl := Option.some.inj (hheap.symm.trans hheap₁)
    subst ho
    have hstate' := hstate.imp_right (And.imp_right (mt hslot.mpr))
    refine ⟨hend, ⟨hshut.connection, hshut.last, hshut.drained⟩, hstate', fun _ hin => ?_⟩
    exact ⟨hslot.mp hin, hstate.resolve_right fun hremoved => hremoved.2 hin⟩
  | @acted o₁ told hin hin' hsame hact =>
    obtain rfl := Option.some.inj (hheap.symm.trans hin.heap)
    obtain ⟨-, hstate⟩ := hflushed.disconnecting hin hend hfin
    have hstill (hend' : o'.endPoint = o.endPoint) (hstate' : o'.state = o.state)
        (hout : o'.outBuffer = o.outBuffer) :
        o'.endPoint = some e ∧ Shut o' e ∧ (o'.state = .DISCONNECTING ∨
          o'.state = .DISCONNECTED ∧ τ.objects (KeyPool.index o'.key) ≠ some id) ∧
          (force = false → σ.objects (KeyPool.index o.key) = some id →
            τ.objects (KeyPool.index o'.key) = some id ∧ o'.state = .DISCONNECTING) :=
      have hstate' := hstate'.trans hstate
      ⟨hend'.trans hend, hshut.of_same hsame hout, .inl hstate', fun _ _ => ⟨hin'.slot, hstate'⟩⟩
    cases hact with
    | keeps hstate' hend' hout => exact hstill hend' hstate' hout
    | sends hstate' hest hend₁ hend' =>
      obtain rfl := Option.some.inj (hend.symm.trans hend₁)
      rcases hest with hest | ⟨-, hout⟩
      · simp [hstate] at hest
      · exact absurd hshut.drained hout
    | flushes hforce hcon hstate₁ hstate' hout => exact absurd hshut.drained hout
    | disconnects hforce hcon hstate₁ => simp [hstate] at hstate₁
    | fails htype hstate₁ => simp [hstate] at hstate₁
    | connects htype hstate₁ => simp [hstate] at hstate₁
    | retries htype hstate₁ => simp [hstate] at hstate₁
  | @exited o₁ told hin hsame hend' hout hstate' habsent hexit =>
    obtain rfl := Option.some.inj (hheap.symm.trans hin.heap)
    obtain ⟨-, hstate⟩ := hflushed.disconnecting hin hend hfin
    have hdisconnected : o'.state = .DISCONNECTED := by
      refine hstate'.resolve_right fun hlistener => ?_
      have hcon := hshut.connection
      simp [IOObject.isConnection, hlistener.2] at hcon
    refine ⟨hend'.trans hend, hshut.of_same hsame hout,
      .inr ⟨hdisconnected, hsame.key ▸ habsent⟩, fun hforce => ?_⟩
    cases hexit with
    | unlisten htype =>
      have hcon := hshut.connection
      simp [IOObject.isConnection, htype] at hcon
    | drops hforce' => simp [hforce] at hforce'
    | finishes hforce' => simp [hforce] at hforce'
    | abandons htype hstate₁ => simp [hstate] at hstate₁
  | entered hnone => simp [hheap] at hnone

/-- A socket that is shut after a turn was shut before it, or the turn is not forced and leaves a
connection that is disconnecting. -/
theorem Became.shut_before (h : Became force P σ τ id o') (hflushed : σ.Flushed)
    (hend' : o'.endPoint = some e) (hfin : .fin ∈ e.sent) :
    (∃ o, σ.heap id = some o ∧ o.endPoint = some e) ∨
      force = false ∧ τ.InTable id o' ∧ o'.state = .DISCONNECTING ∧ Shut o' e := by
  cases h with
  | @stayed o timers hheap ho hslot =>
    subst ho
    exact .inl ⟨o, hheap, hend'⟩
  | @acted o told hin hin' hsame hact =>
    cases hact with
    | keeps hstate hend hout => exact .inl ⟨o, hin.heap, hend.symm.trans hend'⟩
    | @sends e₁ data count hstate hest hend₁ hend =>
      obtain rfl := Option.some.inj (hend'.symm.trans hend)
      have hopen := hflushed.open hin hend₁ (hest.imp (by simp [·]) And.right)
      exact absurd (fin_write.mp hfin) hopen
    | @flushes e₁ data count hforce hcon hstate hstate' hout hout' hend₁ hend =>
      obtain rfl := Option.some.inj (hend'.symm.trans hend)
      have hopen := hflushed.open hin hend₁ (.inr hout)
      exact .inr ⟨hforce, hin', hstate', shut_shutdownWrite (hsame.isConnection ▸ hcon)
        (mt fin_write.mp hopen) hout'⟩
    | disconnects hforce hcon hstate hstate' hout hend =>
      rcases hend with hend | ⟨hdrained, hend⟩
      · exact .inl ⟨o, hin.heap, hend.symm.trans hend'⟩
      · obtain ⟨e₁, hend₁, rfl⟩ := Option.map_eq_some_iff.mp (hend.symm.trans hend')
        have hopen := hflushed.open hin hend₁ (.inl (by simp [hstate]))
        exact .inr ⟨hforce, hin', hstate', shut_shutdownWrite (hsame.isConnection ▸ hcon) hopen
          (hout ▸ hdrained)⟩
    | fails htype hstate hstate' hend => simp [hend] at hend'
    | connects htype hstate hstate' hend => exact .inl ⟨o, hin.heap, hend.symm.trans hend'⟩
    | retries htype hstate hstate' hend hsent =>
      obtain rfl := Option.some.inj (hend'.symm.trans hend)
      simp [hsent] at hfin
  | @exited o told hin hsame hend => exact .inl ⟨o, hin.heap, hend.symm.trans hend'⟩
  | entered hnone hsilent => simp [hsilent.sent e hend'] at hfin

theorem Turn.flushed (hturn : Turn force P σ τ) (h : σ.Flushed) : τ.Flushed := by
  intro id o' e hheap' hend' hfin
  have hbecame := hturn.became hheap'
  rcases hbecame.shut_before h hend' hfin with ⟨o, hheap, hend⟩ | ⟨-, -, hstate, hshut⟩
  · obtain ⟨-, hshut, hstate, -⟩ := hbecame.shut h hheap hend hfin
    exact ⟨hshut, hstate⟩
  · exact ⟨hshut, .inl hstate⟩

/-- From `σ` to `τ` nothing is done with a socket that was shut, and one is only shut where the
connection is left disconnecting, with nothing to send. -/
structure Finishes (σ τ : CNetwork) : Prop where
  flushed : τ.Flushed
  done : ∀ id o e, σ.heap id = some o → o.endPoint = some e → .fin ∈ e.sent →
    ∀ o', τ.heap id = some o' → o'.endPoint = some e
  shut : ∀ id o' e, τ.heap id = some o' → o'.endPoint = some e → .fin ∈ e.sent →
    (∃ o, σ.heap id = some o ∧ o.endPoint = some e) ∨
      τ.InTable id o' ∧ o'.state = .DISCONNECTING ∧ Shut o' e

theorem Flushed.finishes (h : σ.Flushed) : σ.Finishes σ where
  flushed := h
  done id o e hheap hend _ o' hheap' := by
    obtain rfl := Option.some.inj (hheap.symm.trans hheap')
    exact hend
  shut id o e hheap hend _ := .inl ⟨o, hheap, hend⟩

/-- A turn after others, if these shut no socket or it is not forced. -/
theorem Finishes.turn (h : σ.Finishes τ) (hkeeps : ∀ id, (σ.heap id).isSome → (τ.heap id).isSome)
    (hturn : Turn force P τ υ)
    (horder : force = false ∨ ∀ id o' e, τ.heap id = some o' → o'.endPoint = some e →
      .fin ∈ e.sent → ∃ o, σ.heap id = some o ∧ o.endPoint = some e) : σ.Finishes υ where
  flushed := hturn.flushed h.flushed
  done id o e hheap hend hfin o'' hheap'' := by
    obtain ⟨o', hheap'⟩ := Option.isSome_iff_exists.mp (hkeeps id (by simp [hheap]))
    have hend' := h.done id o e hheap hend hfin o' hheap'
    exact ((hturn.became hheap'').shut h.flushed hheap' hend' hfin).1
  shut id o'' e hheap'' hend'' hfin := by
    have hbecame := hturn.became hheap''
    rcases hbecame.shut_before h.flushed hend'' hfin with ⟨o', hheap', hend'⟩ | ⟨-, hnew⟩
    · rcases horder with hforce | hold
      · rcases h.shut id o' e hheap' hend' hfin with hold | ⟨hin, -, -⟩
        · exact .inl hold
        · obtain ⟨-, hshut, -, hgentle⟩ := hbecame.shut h.flushed hheap' hend' hfin
          obtain ⟨hslot, hstate⟩ := hgentle hforce hin.slot
          exact .inr ⟨⟨hheap'', hslot⟩, hstate, hshut⟩
      · exact .inl (hold id o' e hheap' hend' hfin)
    · exact .inr hnew

/-- Forced moves shut no socket. -/
theorem Goes.finishes_forced (hgoes : Goes true P σ τ) (h : σ.Inv) (hflushed : σ.Flushed) :
    σ.Finishes τ ∧ ∀ id o' e, τ.heap id = some o' → o'.endPoint = some e → .fin ∈ e.sent →
      ∃ o, σ.heap id = some o ∧ o.endPoint = some e := by
  induction hgoes with
  | refl => exact ⟨hflushed.finishes, fun id o e hheap hend _ => ⟨o, hheap, hend⟩⟩
  | @tail τ υ hgoes hturn ih =>
    obtain ⟨hfinishes, hold⟩ := ih
    have hkeeps := (Goes.leads h hgoes).keeps
    refine ⟨hfinishes.turn hkeeps hturn (.inr hold), fun id o'' e hheap'' hend'' hfin => ?_⟩
    rcases (hturn.became hheap'').shut_before hfinishes.flushed hend'' hfin with
      ⟨o', hheap', hend'⟩ | ⟨hforce, -⟩
    · exact hold id o' e hheap' hend' hfin
    · cases hforce

theorem Proceeds.finishes (hproceeds : Proceeds P σ τ) (h : σ.Inv) (hflushed : σ.Flushed) :
    σ.Finishes τ := by
  obtain ⟨υ, hforced, hgentle⟩ := hproceeds
  have hυ := hforced.leads h
  induction hgentle with
  | refl => exact (hforced.finishes_forced h hflushed).1
  | @tail τ τ' hgoes hturn ih =>
    have hkeeps := (hυ.trans (Goes.leads hυ.inv hgoes)).keeps
    exact ih.turn hkeeps hturn (.inl rfl)

/-! ### Runs -/

/-- The objects of `τ` are as they were in `σ`, or there were more of them. -/
theorem finishes_of_heap (h : σ.Flushed) (hobjects : τ.objects = σ.objects)
    (hheap : ∀ id o, τ.heap id = some o → σ.heap id = some o) : σ.Finishes τ where
  flushed id o e ho := hobjects ▸ h id o e (hheap id o ho)
  done id o e ho hend _ o' ho' := by
    obtain rfl := Option.some.inj (ho.symm.trans (hheap id o' ho'))
    exact hend
  shut id o e ho hend _ := .inl ⟨o, hheap id o ho, hend⟩

theorem step_finishes {a : Action} (h : σ.Inv) (hflushed : σ.Flushed) (hstep : σ.Step a τ) :
    σ.Finishes τ := by
  obtain ⟨hpre, hexec⟩ := hstep
  have hruns (hruns : Action.Runs a) : σ.Finishes τ := by
    have hproceeds := exec_proceeds h hpre hruns
    rw [hexec] at hproceeds
    exact hproceeds.finishes h hflushed
  cases a with
  | listen port id protocolType group key =>
    obtain rfl := Except.ok.inj hexec
    unfold listen popKey
    split
    · exact hflushed.finishes
    · exact finishes_of_heap hflushed rfl fun _ _ ho => ho
  | connect address id protocolType group key =>
    obtain rfl := Except.ok.inj hexec
    unfold connect popKey
    split
    · exact hflushed.finishes
    · exact finishes_of_heap hflushed rfl fun _ _ ho => ho
  | push event =>
    obtain rfl := Except.ok.inj hexec
    exact finishes_of_heap hflushed rfl fun _ _ ho => ho
  | pushKey key =>
    obtain rfl := Except.ok.inj hexec
    exact finishes_of_heap hflushed rfl fun _ _ ho => ho
  | recycle object =>
    obtain rfl := Except.ok.inj hexec
    unfold recycle
    split
    · refine finishes_of_heap hflushed rfl fun id o ho => ?_
      dsimp only at ho
      rw [Function.update_apply] at ho
      split at ho
      · cases ho
      · exact ho
    · exact hflushed.finishes
  | dispatch ans => exact hruns trivial
  | poll key event ans => exact hruns trivial
  | fire con timer ans => exact hruns trivial

theorem flushed_run {as : List Action} (run : Run Step empty as σ) : σ.Inv ∧ σ.Flushed := by
  refine run.invariant (fun σ => σ.Inv ∧ σ.Flushed) (fun σ a τ h hstep => ?_)
    ⟨inv_empty, fun id o e hheap => by cases hheap⟩
  have hout := exec_outcome h.1 hstep.1
  rw [hstep.2] at hout
  exact ⟨hout, (step_finishes h.1 h.2 hstep).flushed⟩

/-- In every run from an empty table, a socket that was shut for writing was shut once, with nothing
left to send, after all that was written to it.  Its connection has been disconnecting since that
step, with nothing to send, or has been removed, and no later step does anything with the socket. -/
theorem shutdown_flushed {as : List Action} (run : Run Step empty as σ) :
    σ.Flushed ∧ ∀ a τ, σ.Step a τ → σ.Finishes τ := by
  obtain ⟨h, hflushed⟩ := flushed_run run
  exact ⟨hflushed, fun a τ hstep => step_finishes h hflushed hstep⟩

end

/-- A connection is closed while it has two bytes left to send, which the socket takes then. -/
theorem shutdown_flushed_drained :
    ∃ as σ o e, Run (@Step .lowBits) empty as σ ∧ σ.heap 0 = some o ∧ o.endPoint = some e ∧
      e.sent = [.bytes [1], .bytes [2, 3], .fin] ∧ Shut o e := by
  let _ := KeyPool.lowBits
  obtain ⟨as, h0⟩ := connected_run
  have h1 := h0.snoc (step_next _ (a := .push (.data 5)) rfl rfl)
  have h2 := h1.snoc (step_next _ (a := .dispatch { onSerialize := some [1, 2, 3], written := 1 })
    ⟨by rintro _ ⟨⟩; decide, by rintro _ ⟨⟩; unfold Found; decide +kernel⟩ (by decide +kernel))
  have h3 := h2.snoc (step_next _ (a := .push (.close 5)) rfl rfl)
  have h4 := h3.snoc (step_next _ (a := .dispatch {})
    ⟨by rintro _ ⟨⟩, by rintro _ ⟨⟩⟩ (by decide +kernel))
  have h5 := h4.snoc (step_next _ (a := .poll 5 { writable := true } { written := 2 })
    ⟨.inl rfl, by unfold Found; decide +kernel⟩ (by decide +kernel))
  have hfind {σ : CNetwork} {sent : List Sent} (hflushed : σ.Flushed) (hfin : .fin ∈ sent)
      (h : (σ.heap 0).bind (fun o => o.endPoint.map (·.sent)) = some sent) :
      ∃ o e, σ.heap 0 = some o ∧ o.endPoint = some e ∧ e.sent = sent ∧ Shut o e := by
    obtain ⟨o, hheap, h⟩ := Option.bind_eq_some_iff.mp h
    obtain ⟨e, hend, rfl⟩ := Option.map_eq_some_iff.mp h
    exact ⟨o, e, hheap, hend, rfl, (hflushed 0 o e hheap hend hfin).1⟩
  obtain ⟨hflushed, -⟩ := shutdown_flushed h5
  obtain ⟨o, e, hshut⟩ := hfind hflushed (by simp)
    (show _ = some [.bytes [1], .bytes [2, 3], .fin] by decide +kernel)
  exact ⟨_, _, o, e, h5, hshut⟩

end ZlNet.Network.CNetwork
