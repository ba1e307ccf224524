import ZlNet.Network.Proof.Flush
import ZlNet.Network.Proof.Pipes

/-! What passes through the connections of a process in a step of its network thread: a record of
the poller lets one connection read, and its socket take what waits, and an event of the queue
offers a frame to the socket of one connection. -/

namespace ZlNet.Network.CNetwork

open Lib Lib.Word IOObject

variable [KeyPool] {σ τ : CNetwork} {id : ObjectId} {o : IOObject} {p : IOProtocol} {key : UInt32}
  {ans : Answers}

/-! ### The poller -/

/-- The bytes that a record makes a connection read. -/
def incoming (σ : CNetwork) (key : UInt32) (event : Record) (ans : Answers) : List UInt8 :=
  match (σ.getObject key).bind σ.heap with
  | some o =>
    if !event.err && ((event.readable || event.hup) && o.hasReading) &&
        o.readCallback = some .handleTcpConRead then ans.readv.getD []
    else []
  | none => []

/-- What `writev` returns is no more than the bytes that wait, and these are as many as a signed
integer can count. -/
def Drains (σ : CNetwork) : Action → Prop
  | .poll key event ans => (event.writable || event.hup) = true → ∀ id ∈ σ.getObject key,
      (σ.pipe id).box.pending.length < 2 ^ 31 ∧ ans.written ≤ (σ.pipe id).box.pending.length
  | .dispatch _ | .fire _ _ _ | .listen _ _ _ _ _ | .connect _ _ _ _ _ | .push _ | .pushKey _
  | .recycle _ => True

theorem Goes.dry {force : Bool} {P : EIOOBJECT_TYPE → IOProtocol → Prop} (hgoes : Goes force P σ τ)
    (hdry : σ.Dry) : τ.Dry := by
  induction hgoes with
  | refl => exact hdry
  | @tail τ υ hgoes hturn ih =>
    intro id o' hheap' hstate' e hend'
    cases hturn.became hheap' with
    | @stayed o timers hheap ho hslot =>
      subst ho
      exact ih id o hheap hstate' e hend'
    | @acted o told hin hin' hsame hact =>
      cases hact with
      | keeps hstate hend hout => exact ih id o hin.heap (hstate ▸ hstate') e (hend ▸ hend')
      | sends hstate hest => rcases hest with hest | ⟨hest, -⟩ <;> simp [hstate, hest] at hstate'
      | flushes hforce hcon hstate hstate₁ => simp [hstate₁] at hstate'
      | disconnects hforce hcon hstate hstate₁ => simp [hstate₁] at hstate'
      | fails htype hstate hstate₁ => simp [hstate₁] at hstate'
      | connects htype hstate hstate₁ => simp [hstate₁] at hstate'
      | retries htype hstate hstate₁ hend hsent =>
        obtain rfl := Option.some.inj (hend'.symm.trans hend)
        simp [CEndPoint.accepted, hsent]
    | @exited o told hin hsame hend hout hstate =>
      rcases hstate with hstate | ⟨hstate, -⟩
      · simp [hstate] at hstate'
      · exact ih id o hin.heap (hstate ▸ hstate') e (hend ▸ hend')
    | entered hheap hsilent => simp [CEndPoint.accepted, hsilent.sent e hend']

theorem Proceeds.dry {P : EIOOBJECT_TYPE → IOProtocol → Prop} (h : Proceeds P σ τ)
    (hdry : σ.Dry) : τ.Dry := by
  obtain ⟨υ, hforced, hgentle⟩ := h
  exact hgentle.dry (hforced.dry hdry)

omit [KeyPool] in
theorem established_outbox (hest : o.Established) (hheap : σ.heap id = some o) :
    σ.outbox id = some (σ.pipe id).box := by
  obtain ⟨e, hend⟩ := Option.isSome_iff_exists.mp hest.endPoint
  have hbox := outbox_eq hheap hend
  rw [hbox, outbox_pipe hbox]

theorem errorCallback_still (hin : σ.InTable id o) (hsettled : o.Settled) (hdry : σ.Dry)
    (hevents : o.events ≠ 0) {callback : Handler} (herror : o.errorCallback = some callback) :
    σ.Still (σ.call callback id ans) := by
  cases hsettled with
  | listening hl =>
    obtain rfl := Option.some.inj (hl.errorCallback.symm.trans herror)
    exact still_bind fun _ _ => still_bind fun _ _ => still_self
  | established hest =>
    obtain rfl := Option.some.inj (hest.errorCallback.symm.trans herror)
    exact still_bind fun _ _ => still_bind fun _ _ => tcpCloseCon_still true
  | attempting ha =>
    obtain rfl := Option.some.inj (ha.errorCallback.symm.trans herror)
    refine still_bind fun _ _ => still_bind fun _ _ => ?_
    split
    · apply onTcpConnectError_still
      intro o' e hheap' hend
      obtain rfl := Option.some.inj (hin.heap.symm.trans hheap')
      exact hdry id o hin.heap (ha.connecting hevents) e hend
    · trivial

theorem readCallback_flows (hsettled : o.Settled) (hclean : σ.Clean)
    (hfree : σ.heap σ.created = none) (hread : o.hasReading = true) :
    Outcome (fun _ => True)
      (Flows (Function.update σ.pipe id ((σ.pipe id).fed ans
        (if o.readCallback = some .handleTcpConRead then ans.readv.getD [] else []))) σ)
      (σ.callIf o.readCallback id ans) := by
  cases hsettled with
  | listening hl =>
    rw [hl.readCallback, if_neg (by simp), Pipe.fed_nil, Function.update_eq_self]
    exact handleTcpAccept_still hclean hfree
  | established hest =>
    rw [hest.readCallback, if_pos rfl]
    exact handleTcpConRead_flows
  | attempting ha => simp [ha.hasReading] at hread

theorem writeCallback_flows (hheap : σ.heap id = some o) (hsettled : o.Settled) (hdry : σ.Dry)
    (hwrite : o.hasWriting = true) (hsmall : (σ.pipe id).box.pending.length < 2 ^ 31)
    (hfits : ans.written ≤ (σ.pipe id).box.pending.length) :
    Outcome (fun _ => True)
      (fun τ => ∃ n, Flows (Function.update σ.pipe id ((σ.pipe id).drained n)) σ τ)
      (σ.callIf o.writeCallback id ans) := by
  cases hsettled with
  | listening hl => simp [hl.hasWriting] at hwrite
  | established hest =>
    rw [hest.writeCallback]
    have hbox := established_outbox hest hheap
    exact (handleTcpConWrite_flows hbox hsmall hfits).mono fun _ h => ⟨_, h⟩
  | attempting ha =>
    rw [ha.writeCallback]
    refine (handleTcpConnectWrite_still hdry).mono fun _ h => ⟨0, ?_⟩
    rwa [Pipe.drained_zero, Function.update_eq_self]

/-- A record has let its connection read, and its socket take some of what waits for it. -/
def Polled (σ : CNetwork) (key : UInt32) (event : Record) (ans : Answers) (τ : CNetwork) : Prop :=
  σ.getObject key = none ∧ Flows σ.pipe σ τ ∨
    ∃ id n, σ.getObject key = some id ∧ Flows (Function.update σ.pipe id
      (((σ.pipe id).fed ans (σ.incoming key event ans)).drained n)) σ τ

theorem poll_flows (h : σ.Inv) (hclean : σ.Clean) (hdry : σ.Dry) (hfree : σ.Free ans.key)
    (hregistered : σ.Found key fun o => o.events ≠ 0) {event : Record}
    (hdrains : σ.Drains (.poll key event ans)) :
    Outcome (fun _ => True) (σ.Polled key event ans) (σ.poll key event ans) := by
  unfold poll
  split
  · next hslot =>
    exact .inl ⟨by simp [getObject, hslot], .refl σ⟩
  next id hslot =>
  obtain ⟨o, hin, hindex⟩ := h.inTable hslot
  simp only [get_eq hin.heap, ok_bind]
  split
  · next hne =>
    exact .inl ⟨by simp [getObject, hslot, hin.heap, hne], .refl σ⟩
  next hkey =>
  obtain rfl : o.key = key := by simpa using hkey
  have hget := getObject_eq hin
  have hincoming : σ.incoming o.key event ans =
      if !event.err && ((event.readable || event.hup) && o.hasReading) &&
        o.readCallback = some .handleTcpConRead then ans.readv.getD [] else [] := by
    simp [incoming, hget, hin.heap]
  have hsettled := h.settled hin
  have hnothing (hnone : σ.incoming o.key event ans = []) :
      Function.update σ.pipe id ((σ.pipe id).fed ans (σ.incoming o.key event ans)) = σ.pipe := by
    rw [hnone, Pipe.fed_nil, Function.update_eq_self]
  split
  · next herr =>
    split
    · next callback herror =>
      have hstill : σ.Still (σ.call callback id ans) :=
        errorCallback_still hin hsettled hdry (hregistered o (found_of_inTable hin)) herror
      refine hstill.mono fun τ hτ => .inr ⟨id, 0, hget, ?_⟩
      rwa [Pipe.drained_zero, hnothing (by simp [hincoming, herr])]
    · trivial
  next herr =>
  have hrest (τ : CNetwork) (hgoes : Goes true (fun _ _ => False) σ τ)
      (hflows : Flows (Function.update σ.pipe id
        ((σ.pipe id).fed ans (σ.incoming o.key event ans))) σ τ) :
      Outcome (fun _ => True) (σ.Polled o.key event ans) (do
        let o ← τ.get id
        if (event.writable || event.hup) && o.hasWriting then τ.callIf o.writeCallback id ans
        else .ok τ) := by
    have hτ := hgoes.leads h
    obtain ⟨o', hheap⟩ := Option.isSome_iff_exists.mp (hτ.keeps id (by simp [hin.heap]))
    have hpipe := congrFun hflows.pipe id
    rw [Function.update_self] at hpipe
    have hbox : (τ.pipe id).box = (σ.pipe id).box := by rw [hpipe, Pipe.fed_box]
    simp only [get_eq hheap, ok_bind]
    split
    · next hwrite =>
      obtain ⟨hwritable, hwrite⟩ := Bool.and_eq_true_iff.mp hwrite
      obtain ⟨hsmall, hfits⟩ := hdrains hwritable id hget
      have hslot' := (hτ.inv.held id o' hheap).2.2.2.resolve_left (events_ne_zero hwrite)
      have hwrites := writeCallback_flows hheap (hτ.inv.settled ⟨hheap, hslot'⟩) (hgoes.dry hdry)
        hwrite (hbox ▸ hsmall) (hbox ▸ hfits)
      refine hwrites.mono ?_
      rintro υ ⟨n, hυ⟩
      refine .inr ⟨id, n, hget, ?_, fun o₁ h₁ => ?_⟩
      · rw [hυ.pipe, hpipe, hflows.pipe, Function.update_idem]
      · exact hflows.pool o₁ (hυ.pool o₁ h₁)
    · refine .inr ⟨id, 0, hget, ?_⟩
      rwa [Pipe.drained_zero]
  split
  · next hread =>
    have hreading := (Bool.and_eq_true_iff.mp hread).2
    have hgoes : Outcome Foreign (Goes true (fun _ _ => False) σ)
        (σ.callIf o.readCallback id ans) := readCallback_goes h hin hfree hreading
    have hreads : Outcome (fun _ => True) _ (σ.callIf o.readCallback id ans) :=
      readCallback_flows hsettled hclean h.created_free hreading
    have hsame : σ.incoming o.key event ans =
        if o.readCallback = some .handleTcpConRead then ans.readv.getD [] else [] := by
      simp only [hincoming, hread, herr, Bool.not_false, Bool.true_and, decide_eq_true_eq]
    rw [← hsame] at hreads
    cases hcall : σ.callIf o.readCallback id ans with
    | error f => trivial
    | ok τ =>
      rw [hcall] at hgoes hreads
      exact hrest τ hgoes hreads
  · next hread =>
    apply hrest σ (.refl σ)
    rw [hnothing (by simp only [hincoming, hread]; simp)]
    exact .refl σ

/-! ### Events -/

/-- What the connections have once a frame was offered to the socket of one of them. -/
def offered (σ : CNetwork) (ans : Answers) : Option ObjectId → ObjectId → Pipe
  | some id =>
    Function.update σ.pipe id { σ.pipe id with
      box := offer (σ.pipe id).box (σ.frames id ans).flatten ans.written }
  | none => σ.pipe

/-- The connection that the next event is data for. -/
def addressee (σ : CNetwork) : Option ObjectId :=
  (σ.eventQueue.head?.bind IOEvent.dataKey).bind σ.getObject

theorem processDataEvent_flows (h : σ.Inv) (hfits : WriteFits ans)
    (hcon : σ.Found key fun o => o.isConnection = true) :
    Outcome (fun _ => True) (Flows (σ.offered ans (σ.getObject key)) σ)
      (σ.processDataEvent key ans) := by
  unfold processDataEvent
  cases hget : σ.getObject key with
  | none => exact Flows.refl σ
  | some id =>
    obtain ⟨o, hin, rfl⟩ := h.inTable_of_getObject hget
    obtain ⟨p, hp, htcp⟩ := h.held_eq hin
    have hcon : o.isConnection = true := hcon o (found_of_inTable hin)
    simp only [get_eq hin.heap, ok_bind, hp, nonNull_some, htcp, offered]
    cases hsend : o.enableSend with
    | true =>
      have hstate : o.state = .CONNECTED := by simpa [enableSend] using hsend
      cases h.settled hin with
      | listening hl => simp [hl.not_connection] at hcon
      | established hest => exact tcpSend_flows (established_outbox hest hin.heap) hfits
      | attempting ha => rcases ha.phase with ⟨hphase, -⟩ | ⟨hphase, -⟩ <;> simp [hphase] at hstate
    | false =>
      rw [frames_eq hin.heap, hsend, if_neg Bool.false_ne_true, List.flatten_nil, offer_nil,
        Function.update_eq_self]
      simp only [tcpSend, get_eq hin.heap, ok_bind, require_of_true hcon, hsend]
      exact Flows.refl σ

theorem dispatch_flows (h : σ.Inv) (hclean : σ.Clean) (hpre : σ.Pre (.dispatch ans)) :
    Outcome (fun _ => True) (Flows (σ.offered ans σ.addressee) σ) (σ.dispatch ans) := by
  obtain ⟨hfits, hdata⟩ := hpre
  unfold dispatch
  split
  · next event rest hqueue =>
    have hpop := (h.popEvent hqueue).1.inv
    have hfree : σ.heap σ.created = none := h.created_free
    have hpopped : Flows σ.pipe σ { σ with eventQueue := rest } := flows_of_heap rfl rfl
    have hnone (hkey : event.dataKey = none) : σ.offered ans σ.addressee = σ.pipe := by
      simp [addressee, hqueue, hkey, offered]
    cases event with
    | listen port p =>
      rw [hnone rfl]
      simp only [dispatchProcess, processListen]
      split
      · exact hpopped.still (tcpListen_still (σ := { σ with eventQueue := rest }) hclean hfree port)
      · exact hpopped
      · trivial
    | connect address p =>
      rw [hnone rfl]
      simp only [dispatchProcess, processConnect]
      split
      · exact hpopped.still
          (tcpConnect_still (σ := { σ with eventQueue := rest }) hclean hfree address)
      · exact hpopped
      · trivial
    | data key =>
      have hsome : σ.addressee = σ.getObject key := by simp [addressee, hqueue, IOEvent.dataKey]
      rw [hsome]
      have hcon := hdata key (by simp [hqueue, IOEvent.dataKey])
      exact (processDataEvent_flows hpop hfits hcon).mono fun _ hτ => ⟨hτ.pipe, hτ.pool⟩
    | close key =>
      rw [hnone rfl]
      exact hpopped.still (close_still key)
    | clear group =>
      rw [hnone rfl]
      exact hpopped.still (clear_still group)
  · next hqueue =>
    have hnone : σ.addressee = none := by simp [addressee, hqueue]
    rw [hnone]
    exact Flows.refl σ

/-! ### Timers -/

theorem fire_still (h : σ.Inv) (hheap : σ.heap id = some o) {timer : Timer}
    (htimer : timer ∈ o.timers) : σ.Still (σ.fire id timer ans) := by
  have hdone (timer : Timer) : σ.Still (σ.timerDone id timer) :=
    still_bind fun _ hget => flows_of_get hget _ rfl
  cases timer with
  | onTimer =>
    refine still_bind fun o _ => still_bind fun _ _ => ?_
    split
    · exact still_self
    · exact close_still o.key
  | forceClose =>
    refine (hdone _).bind fun τ _ => still_bind fun o _ => ?_
    split
    · exact still_self
    · exact still_bind fun _ _ => removeTcpCon_still
  | reconnect address =>
    by_cases hslot : σ.objects (KeyPool.index o.key) = some id
    · -- the connector has had no end point since its last attempt failed
      have hin : σ.InTable id o := ⟨hheap, hslot⟩
      obtain ⟨ha, hstate, -, -⟩ := (h.state_of_timer hin).2 address htimer
      have hend : o.endPoint = none := by
        rcases ha.phase with ⟨hstate', -⟩ | ⟨-, -, hend, -⟩
        · simp [hstate] at hstate'
        · exact hend
      rw [reconnect_eq h hin htimer]
      apply flows_same
      rw [pipe_eq hheap]
      simp [IOObject.pipe, hend, CEndPoint.accepted]
    · have habsent := (timerDone_absent h hheap hslot (.reconnect address) :
        Goes false (fun _ _ => False) σ _ ∧ _).2
      simp only [fire, timerDone_eq hheap, ok_bind, reconnect, get_eq (σ.put_heap_self id _)]
      rw [if_pos habsent]
      exact flows_same (pipe_eq hheap).symm

/-! ### Objects -/

/-- Objects keep their keys, and an object that is new since `σ` is none that was there before. -/
structure Later (σ τ : CNetwork) : Prop where
  created : σ.created ≤ τ.created
  keys : ∀ id o', τ.heap id = some o' →
    (∃ o, σ.heap id = some o ∧ o'.key = o.key) ∨ σ.created ≤ id

omit [KeyPool] in
theorem later_of_heap (hheap : τ.heap = σ.heap) (hcreated : τ.created = σ.created) :
    σ.Later τ where
  created := Nat.le_of_eq hcreated.symm
  keys _ o' ho' := .inl ⟨o', hheap ▸ ho', rfl⟩

omit [KeyPool] in
theorem Later.trans {υ : CNetwork} (h : σ.Later τ) (h' : τ.Later υ) : σ.Later υ where
  created := Nat.le_trans h.created h'.created
  keys id o'' ho'' := by
    rcases h'.keys id o'' ho'' with ⟨o', ho', hkey'⟩ | hnew
    · rcases h.keys id o' ho' with ⟨o, ho, hkey⟩ | hnew
      · exact .inl ⟨o, ho, hkey'.trans hkey⟩
      · exact .inr hnew
    · exact .inr (Nat.le_trans h.created hnew)

omit [KeyPool] in
theorem later_put {o' : IOObject} (hheap : σ.heap id = some o) (hkey : o'.key = o.key)
    (hτ : τ.heap = (σ.put id o').heap) (hcreated : τ.created = σ.created) : σ.Later τ where
  created := Nat.le_of_eq hcreated.symm
  keys id₁ o₁ ho₁ := by
    rw [hτ] at ho₁
    by_cases heq : id₁ = id
    · subst heq
      obtain rfl := Option.some.inj ((σ.put_heap_self id₁ o').symm.trans ho₁)
      exact .inl ⟨o, hheap, hkey⟩
    · exact .inl ⟨o₁, (σ.put_heap_ne o' heq).symm.trans ho₁, rfl⟩

omit [KeyPool] in
@[simp] theorem tell_created (told : Option Notice) : (σ.tell p told).created = σ.created := by
  cases told with
  | some notice => rfl
  | none => rfl

theorem Turn.later {force : Bool} {P : EIOOBJECT_TYPE → IOProtocol → Prop}
    (hturn : Turn force P σ τ) : σ.Later τ := by
  cases hturn.move with
  | act hin hp hsame => exact later_put hin.heap hsame.key tell_heap (tell_created _)
  | exit hin hp hsame => exact later_put hin.heap hsame.key tell_heap (tell_created _)
  | @absent id o hheap habsent timers =>
    have hkey : ({ o with timers } : IOObject).key = o.key := rfl
    exact later_put hheap hkey rfl rfl
  | @entry υ o₁ p pool inTable told hclaims =>
    obtain ⟨hheap, -, hcreated, -⟩ := hclaims.same
    refine ⟨?_, fun id o' ho' => ?_⟩
    · rw [tell_created, ← hcreated]
      exact Nat.le_succ υ.created
    · rw [tell_heap] at ho'
      by_cases heq : id = υ.created
      · exact .inr (heq ▸ Nat.le_of_eq hcreated.symm)
      · exact .inl ⟨o', hheap ▸ (υ.put_heap_ne o₁ heq).symm.trans ho', rfl⟩
  | refused hclaims hp =>
    obtain ⟨hheap, -, hcreated, -⟩ := hclaims.same
    exact later_of_heap hheap hcreated
  | @popKey key hfree =>
    unfold popKey
    split
    · exact later_of_heap rfl rfl
    · exact later_of_heap rfl rfl
  | popEvent hqueue => exact later_of_heap rfl rfl

theorem Goes.later {force : Bool} {P : EIOOBJECT_TYPE → IOProtocol → Prop}
    (hgoes : Goes force P σ τ) : σ.Later τ := by
  induction hgoes with
  | refl => exact later_of_heap rfl rfl
  | tail _ hturn ih => exact ih.trans hturn.later

theorem step_later {a : Action} (h : σ.Inv) (hstep : σ.Step a τ) : σ.Later τ := by
  obtain ⟨hpre, hexec⟩ := hstep
  have hruns (hruns : Action.Runs a) : σ.Later τ := by
    have hproceeds := exec_proceeds h hpre hruns
    rw [hexec] at hproceeds
    obtain ⟨υ, hforced, hgentle⟩ := hproceeds
    exact hforced.later.trans hgentle.later
  cases a with
  | listen port id protocolType group key =>
    obtain rfl := Except.ok.inj hexec
    unfold listen popKey
    split
    · exact later_of_heap rfl rfl
    · exact later_of_heap rfl rfl
  | connect address id protocolType group key =>
    obtain rfl := Except.ok.inj hexec
    unfold connect popKey
    split
    · exact later_of_heap rfl rfl
    · exact later_of_heap rfl rfl
  | push event =>
    obtain rfl := Except.ok.inj hexec
    exact later_of_heap rfl rfl
  | pushKey key =>
    obtain rfl := Except.ok.inj hexec
    exact later_of_heap rfl rfl
  | recycle object =>
    obtain rfl := Except.ok.inj hexec
    unfold CNetwork.recycle
    split
    · refine ⟨Nat.le_refl _, fun id o ho => .inl ⟨o, ?_, rfl⟩⟩
      dsimp only at ho
      rw [Function.update_apply] at ho
      split at ho
      · cases ho
      · exact ho
    · exact later_of_heap rfl rfl
  | dispatch ans => exact hruns trivial
  | poll key event ans => exact hruns trivial
  | fire con timer ans => exact hruns trivial

/-! ### Steps -/

/-- What a step lets pass through the connections. -/
def Passes (σ τ : CNetwork) : Action → Prop
  | .dispatch ans => τ.pipe = σ.offered ans σ.addressee
  | .poll key event ans => σ.getObject key = none ∧ τ.pipe = σ.pipe ∨
      ∃ id n, σ.getObject key = some id ∧ τ.pipe = Function.update σ.pipe id
        (((σ.pipe id).fed ans (σ.incoming key event ans)).drained n)
  | .recycle object => τ.pipe = Function.update σ.pipe object .empty
  | .fire _ _ _ | .listen _ _ _ _ _ | .connect _ _ _ _ _ | .push _ | .pushKey _ => τ.pipe = σ.pipe

/-- Connections that are not connected yet have sent nothing, and recycled ones have nothing left
over. -/
structure Tidy (σ : CNetwork) : Prop where
  clean : σ.Clean
  dry : σ.Dry

omit [KeyPool] in
theorem tidy_empty : empty.Tidy where
  clean _ ho := by cases ho
  dry _ _ hheap := by cases hheap

omit [KeyPool] in
theorem Tidy.of_heap (h : σ.Tidy) (hheap : τ.heap = σ.heap) (hpool : τ.pool = σ.pool) :
    τ.Tidy where
  clean o ho := h.clean o (hpool ▸ ho)
  dry id o hid := h.dry id o (hheap ▸ hid)

omit [KeyPool] in
/-- An object that is recycled leaves its buffers empty. -/
theorem Tidy.recycle (h : σ.Tidy) (object : ObjectId) : (σ.recycle object).Tidy := by
  unfold CNetwork.recycle
  split
  · refine ⟨fun o ho => ?_, fun id o hheap => ?_⟩
    · rcases List.mem_cons.mp ho with rfl | ho
      · exact ⟨rfl, rfl⟩
      · exact h.clean o ho
    · dsimp only at hheap
      rw [Function.update_apply] at hheap
      split at hheap
      · cases hheap
      · exact h.dry id o hheap
  · exact h

omit [KeyPool] in
theorem recycle_pipe (object : ObjectId) :
    (σ.recycle object).pipe = Function.update σ.pipe object .empty := by
  funext id
  unfold CNetwork.recycle
  split
  · by_cases heq : id = object
    · subst heq
      simp [pipe]
    · simp [pipe, heq]
  · next hnone =>
    by_cases heq : id = object
    · subst heq
      simp [pipe, hnone]
    · simp [heq]

/-- Each step lets pass what `Passes` says. -/
theorem step_passes {a : Action} (h : σ.Inv) (htidy : σ.Tidy) (hdrains : σ.Drains a)
    (hstep : σ.Step a τ) : σ.Passes τ a ∧ τ.Tidy := by
  obtain ⟨hpre, hexec⟩ := hstep
  have hsame (hheap : τ.heap = σ.heap) (hpool : τ.pool = σ.pool) : τ.pipe = σ.pipe ∧ τ.Tidy :=
    ⟨(flows_of_heap hheap hpool).pipe, htidy.of_heap hheap hpool⟩
  have hruns {P : ObjectId → Pipe} (hruns : Action.Runs a) (hflows : Flows P σ τ) : τ.Tidy := by
    have hproceeds := exec_proceeds h hpre hruns
    rw [hexec] at hproceeds
    exact ⟨fun o ho => htidy.clean o (hflows.pool o ho), hproceeds.dry htidy.dry⟩
  cases a with
  | listen port id protocolType group key =>
    obtain rfl := Except.ok.inj hexec
    unfold listen popKey
    split
    · exact ⟨rfl, htidy⟩
    · exact ⟨rfl, htidy.of_heap rfl rfl⟩
  | connect address id protocolType group key =>
    obtain rfl := Except.ok.inj hexec
    unfold connect popKey
    split
    · exact ⟨rfl, htidy⟩
    · exact ⟨rfl, htidy.of_heap rfl rfl⟩
  | push event =>
    obtain rfl := Except.ok.inj hexec
    exact hsame rfl rfl
  | pushKey key =>
    obtain rfl := Except.ok.inj hexec
    exact hsame rfl rfl
  | recycle object =>
    obtain rfl := Except.ok.inj hexec
    exact ⟨recycle_pipe object, htidy.recycle object⟩
  | dispatch ans =>
    have hflows := dispatch_flows h htidy.clean hpre
    rw [show σ.dispatch ans = .ok τ from hexec] at hflows
    exact ⟨hflows.pipe, hruns trivial hflows⟩
  | poll key event ans =>
    have hpolled := poll_flows h htidy.clean htidy.dry hpre.1 hpre.2 hdrains
    rw [show σ.poll key event ans = .ok τ from hexec] at hpolled
    rcases hpolled with ⟨hnone, hflows⟩ | ⟨id, n, hget, hflows⟩
    · exact ⟨.inl ⟨hnone, hflows.pipe⟩, hruns trivial hflows⟩
    · exact ⟨.inr ⟨id, n, hget, hflows.pipe⟩, hruns trivial hflows⟩
  | fire con timer ans =>
    obtain ⟨o, hheap, htimer⟩ := id hpre
    have hstill : σ.Still (σ.fire con timer ans) := fire_still h hheap htimer
    rw [show σ.fire con timer ans = .ok τ from hexec] at hstill
    have hflows : Flows σ.pipe σ τ := hstill
    exact ⟨hflows.pipe, hruns trivial hflows⟩

end ZlNet.Network.CNetwork
