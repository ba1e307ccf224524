import ZlNet.Network.Proof.Moves

/-! Every function of the network thread for TCP is made of moves, which keep its invariant, and fails
only with a fault that is not its own. -/

namespace ZlNet.Network.CNetwork

open Lib Lib.Word IOObject

@[simp] theorem nonNull_some {α : Type} (a : α) : nonNull (some a) = .ok a := rfl

theorem nonNull_isSome {α : Type} {p : Option α} (h : p.isSome) : nonNull p = .ok (p.get h) := by
  obtain ⟨a, rfl⟩ := Option.isSome_iff_exists.mp h
  rfl

theorem of_nonNull {α : Type} {p : Option α} {a : α} (h : nonNull p = .ok a) : p = some a := by
  cases p with
  | some b => exact congrArg some (Except.ok.inj h)
  | none => cases h

/-- A write to a buffer appends, or passes 32 bits. -/
theorem write_outcome {b : IIOBuffer} {data : List UInt8} (h : data ≠ []) :
    Outcome Foreign (fun b' => b'.bytes = b.bytes ++ data ∧ b'.size < 2 ^ 32) (b.write data) := by
  have hpos := List.length_pos_of_ne_nil h
  simp only [IIOBuffer.write, require_of_true hpos, ok_bind]
  split
  · next hlt => exact ⟨rfl, by simpa [IIOBuffer.size] using hlt⟩
  · exact .inl rfl

theorem readConfirm_eq {b : IIOBuffer} {n : Nat} (hpos : 0 < n) (hle : n ≤ b.size) :
    b.readConfirm n = .ok ⟨b.bytes.drop n⟩ := by
  simp only [IIOBuffer.readConfirm, require_of_true (And.intro hle (Nat.ne_of_gt hpos)), ok_bind]
  rfl

variable {σ τ υ : CNetwork} {id : ObjectId} {o : IOObject} {p : IOProtocol}
  {key : UInt32} {ans : Answers} {notice : Notice}

theorem get_eq (h : σ.heap id = some o) : σ.get id = .ok o := by
  simp [get, h]

theorem connection_eq (h : σ.heap id = some o) (hcon : o.isConnection = true) :
    σ.connection id = .ok o := by
  simp [connection, get_eq h, hcon]
  rfl

theorem onNewConnection_eq (h : σ.heap id = some o) :
    (σ.notify p notice).onNewConnection id =
      .ok ((σ.put id (o.startTimer .onTimer)).notify p notice) := by
  have hget : (σ.notify p notice).get id = .ok o := get_eq h
  simp only [onNewConnection, hget, ok_bind]
  rfl

theorem notifyProtocol_eq (h : o.protocol = some p) :
    σ.notifyProtocol o notice = .ok (σ.notify p notice) := by
  simp only [notifyProtocol, h, nonNull_some, ok_bind]
  rfl

theorem timerDone_eq (hheap : σ.heap id = some o) (timer : Timer) :
    σ.timerDone id timer = .ok (σ.put id { o with timers := o.timers.erase timer }) := by
  simp only [timerDone, get_eq hheap, ok_bind]
  rfl

variable [KeyPool] {force : Bool} {P : EIOOBJECT_TYPE → IOProtocol → Prop} {allowed : Fault → Prop}

theorem InTable.notify (h : σ.InTable id o) (p : IOProtocol) (notice : Notice) :
    (σ.notify p notice).InTable id o :=
  ⟨h.heap, h.slot⟩

theorem InTable.put (h : σ.InTable id o) {o' : IOObject} (hkey : o'.key = o.key) :
    (σ.put id o').InTable id o' :=
  ⟨σ.put_heap_self id o', hkey ▸ h.slot⟩

theorem InTable.eq {o' : IOObject} (hin : σ.InTable id o) (hin' : σ.InTable id o') : o' = o :=
  Option.some.inj (hin'.heap.symm.trans hin.heap)

/-- Two objects of the table with one key are one. -/
theorem InTable.of_key {id' : ObjectId} {o' : IOObject} (hin : σ.InTable id o)
    (hin' : σ.InTable id' o')
    (hkey : o'.key = o.key) : id' = id ∧ o' = o := by
  have hslot := hin'.slot
  rw [hkey, hin.slot] at hslot
  obtain rfl := Option.some.inj hslot
  exact ⟨rfl, hin.eq hin'⟩

theorem Inv.held_eq (h : σ.Inv) (hin : σ.InTable id o) :
    ∃ p, o.protocol = some p ∧ p.protocolType = .TCP := by
  obtain ⟨p, hp, -, htcp⟩ := (h.held id o hin.heap).2.2.1
  exact ⟨p, hp, htcp⟩

/-! ### Closing -/

theorem removeObject_eq (hin : σ.InTable id o) :
    σ.removeObject o.key =
      .ok { σ with objects := Function.update σ.objects (KeyPool.index o.key) none } := by
  simp [removeObject, hin.slot, get_eq hin.heap]

theorem removeTcpCon_eq (hin : σ.InTable id o) :
    σ.removeTcpCon id = .ok (σ.removed id { o with state := .DISCONNECTED, events := 0 }) := by
  let o' : IOObject := { o with state := .DISCONNECTED, events := 0 }
  have hin' : (σ.put id o').InTable id o' := ⟨σ.put_heap_self id o', hin.slot⟩
  simp only [removeTcpCon, get_eq hin.heap, ok_bind]
  exact removeObject_eq (o := o') hin'

theorem removed_put {o o' : IOObject} : (σ.put id o).removed id o' = σ.removed id o' := by
  simp only [removed, put_put]
  rfl

theorem tcpCloseListen_goes (h : σ.Inv) (hin : σ.InTable id o) (htype : o.type = .LISTENER) :
    Outcome allowed (Goes force P σ) (σ.tcpCloseListen id) := by
  obtain ⟨p, hp, -⟩ := h.held_eq hin
  simp only [tcpCloseListen, get_eq hin.heap, ok_bind, notifyProtocol_eq hp]
  let o' : IOObject := { o with events := 0 }
  have hin' : ((σ.notify p .onUnlisten).put id o').InTable id o' :=
    ⟨put_heap_self _ id o', hin.slot⟩
  simp only [removeTcpListen, get_eq (hin.notify p .onUnlisten).heap, ok_bind]
  rw [deregisterObject, removeObject_eq hin']
  have hleads : σ.Leads (σ.removed id o') := h.removed hin rfl rfl rfl
  have hgoes : Goes force P σ ((σ.removed id o').tell p (some .onUnlisten)) :=
    h.goes (hleads.tell p _)
      (.exit hin hp ⟨rfl, rfl, rfl⟩ rfl rfl (.inr ⟨rfl, htype⟩) (.unlisten htype))
  exact hgoes

/-- A connection is removed once its protocol has been told. -/
theorem removeTcpCon_goes (h : σ.Inv) (hin : σ.InTable id o) (hp : o.protocol = some p)
    (told : Option Notice) (hexit : Exit force o told) :
    Outcome allowed (Goes force P σ) ((σ.tell p told).removeTcpCon id) := by
  have hremove : (σ.tell p told).removeTcpCon id =
      .ok ((σ.removed id { o with state := .DISCONNECTED, events := 0 }).tell p told) := by
    cases told with
    | some notice => exact removeTcpCon_eq (hin.notify p notice)
    | none => exact removeTcpCon_eq hin
  rw [hremove]
  exact h.exits hin hp told hexit o.timers

/-- A connection that starts to disconnect stays established. -/
theorem startDisconnecting_goes (h : σ.Inv) (hin : σ.InTable id o) (hp : o.protocol = some p)
    (hest : o.Established) (hstate : o.state = .CONNECTED) :
    Outcome allowed (Goes false P σ) ((σ.notify p o.gone).startDisconnecting id) := by
  have htimers : o.timers = [.onTimer] := by simpa [hstate] using hest.timers
  obtain ⟨endPoint, hend⟩ := Option.isSome_iff_exists.mp hest.endPoint
  have hdisconnects (e : CEndPoint)
      (he : e = endPoint ∨ o.outBuffer.bytes = [] ∧ e = endPoint.shutdownWrite) :
      Goes false P σ ((σ.put id ({ o with state := .DISCONNECTING, endPoint := some e }.startTimer
        .forceClose)).notify p o.gone) := by
    apply h.acts hin hp (some o.gone)
    · refine .established { hest with endPoint := rfl, timers := .inr ⟨rfl, ?_⟩ }
      simp [startTimer, htimers]
    · exact ⟨rfl, rfl, rfl⟩
    · refine .disconnects rfl hest.type hstate rfl rfl ?_
      rw [hend]
      exact he.imp (congrArg some) (And.imp_right (congrArg some))
  simp only [startDisconnecting, get_eq (hin.notify p o.gone).heap, ok_bind, hend, nonNull_some]
  split
  · exact hdisconnects endPoint (.inl rfl)
  · next hwriting =>
    have hout : o.outBuffer.bytes = [] := not_not.mp (mt hest.writing.mpr hwriting)
    exact hdisconnects _ (.inr ⟨hout, rfl⟩)

/-- What both ways to close an established connection do, with what they tell its protocol. -/
theorem close_established_goes (h : σ.Inv) (hin : σ.InTable id o) (hest : o.Established)
    (force : Bool) {notice : Notice} (hnotice : notice = o.gone) :
    Outcome allowed (Goes force P σ) (do
      let σ ← if o.state = .CONNECTED then σ.notifyProtocol o notice else pure σ
      if force then σ.removeTcpCon id
      else if o.state = .DISCONNECTING then return σ else σ.startDisconnecting id) := by
  obtain ⟨p, hp, -⟩ := h.held_eq hin
  subst hnotice
  rcases hest.state_cases with hstate | hstate
  · rw [if_pos hstate, notifyProtocol_eq hp, ok_bind]
    dsimp only
    rw [if_neg (by simp [hstate] : o.state ≠ .DISCONNECTING)]
    cases force with
    | true => exact removeTcpCon_goes h hin hp (some o.gone) (.drops rfl hest.type hstate)
    | false => exact startDisconnecting_goes h hin hp hest hstate
  · rw [if_neg (by simp [hstate]), pure_bind]
    dsimp only
    rw [if_pos hstate]
    cases force with
    | true => exact removeTcpCon_goes h hin hp none (.finishes rfl hest.type hstate)
    | false => exact .refl σ

theorem tcpCloseConnection_goes (h : σ.Inv) (hin : σ.InTable id o) (htype : o.type = .SESSION)
    (force : Bool) : Outcome allowed (Goes force P σ) (σ.tcpCloseConnection id force) := by
  cases h.settled hin with
  | listening hl => exact absurd (htype.symm.trans hl.type) nofun
  | attempting ha => exact absurd htype ha.not_session
  | established hest =>
    have hne : o.state ≠ .DISCONNECTED := by
      rcases hest.state_cases with hstate | hstate <;> simp [hstate]
    simp only [tcpCloseConnection, get_eq hin.heap, ok_bind, require_of_true htype,
      require_of_true hne]
    exact close_established_goes h hin hest force (by simp [gone, htype])

theorem tcpCloseConnector_goes (h : σ.Inv) (hin : σ.InTable id o) (htype : o.type = .CONNECTOR)
    (force : Bool) : Outcome allowed (Goes force P σ) (σ.tcpCloseConnector id force) := by
  simp only [tcpCloseConnector, get_eq hin.heap, ok_bind, require_of_true htype]
  cases h.settled hin with
  | listening hl => exact absurd (htype.symm.trans hl.type) nofun
  | attempting ha =>
    obtain ⟨p, hp, -⟩ := h.held_eq hin
    have hstate : o.state = .DISCONNECTED ∨ o.state = .CONNECTING :=
      (ha.phase.imp And.left And.left).symm
    rw [if_pos hstate, notifyProtocol_eq hp, ok_bind]
    exact removeTcpCon_goes h hin hp (some (.onConnect false)) (.abandons htype hstate)
  | established hest =>
    have hstate : ¬(o.state = .DISCONNECTED ∨ o.state = .CONNECTING) := by
      rcases hest.state_cases with hstate | hstate <;> simp [hstate]
    rw [if_neg hstate]
    exact close_established_goes h hin hest force (by simp [gone, htype])

theorem tcpCloseCon_goes (h : σ.Inv) (hin : σ.InTable id o) (hcon : o.isConnection = true)
    (force : Bool) : Outcome allowed (Goes force P σ) (σ.tcpCloseCon id force) := by
  simp only [tcpCloseCon, get_eq hin.heap, ok_bind]
  split
  · next htype => exact tcpCloseConnection_goes h hin htype force
  · next htype =>
    have htype : o.type = .CONNECTOR := by simpa [isConnection, htype] using hcon
    exact tcpCloseConnector_goes h hin htype force

/-- An object that is found under a key is in the table with that key. -/
theorem Inv.inTable_of_getObject (h : σ.Inv) (hget : σ.getObject key = some id) :
    ∃ o, σ.InTable id o ∧ o.key = key := by
  unfold getObject at hget
  split at hget
  · next object hslot =>
    obtain ⟨o, hin, -⟩ := h.inTable hslot
    simp only [hin.heap, Option.map_some, Option.some.injEq] at hget
    split at hget
    · next hkey =>
      obtain rfl := Option.some.inj hget
      exact ⟨o, hin, hkey⟩
    · cases hget
  · cases hget

theorem getObject_eq (hin : σ.InTable id o) : σ.getObject o.key = some id := by
  simp [getObject, hin.slot, hin.heap]

theorem close_goes (h : σ.Inv) (key : UInt32) :
    Outcome allowed (Goes false P σ) (σ._close key) := by
  unfold _close
  split
  · next object hget =>
    obtain ⟨o, hin, rfl⟩ := h.inTable_of_getObject hget
    obtain ⟨p, hp, htcp⟩ := h.held_eq hin
    simp only [get_eq hin.heap, ok_bind, hp, nonNull_some, htcp, tcpClose, hget]
    cases h.settled hin with
    | listening hl => simpa only [hl.type] using tcpCloseListen_goes h hin hl.type
    | attempting ha => simpa only [ha.type] using tcpCloseConnector_goes h hin ha.type false
    | established hest =>
      obtain htype | htype : o.type = .CONNECTOR ∨ o.type = .SESSION := by
        simpa [isConnection] using hest.type
      · simpa only [htype] using tcpCloseConnector_goes h hin htype false
      · simpa only [htype] using tcpCloseConnection_goes h hin htype false
  · exact .refl σ

/-! ### Established connections -/

theorem handleTcpConError_goes (h : σ.Inv) (hin : σ.InTable id o) (hest : o.Established) :
    Outcome Foreign (Goes true P σ) (σ.handleTcpConError id) := by
  simp only [handleTcpConError, connection_eq hin.heap hest.type, ok_bind,
    nonNull_isSome hest.endPoint]
  exact tcpCloseCon_goes h hin hest.type true

theorem handleTcpConRead_goes (h : σ.Inv) (hin : σ.InTable id o) (hest : o.Established) :
    Outcome Foreign (Goes true P σ) (σ.handleTcpConRead id ans) := by
  have hread : o.enableRead = true := by
    rcases hest.state_cases with hstate | hstate <;> simp [enableRead, hstate]
  simp only [handleTcpConRead, connection_eq hin.heap hest.type, ok_bind, hread,
    require_of_true, nonNull_isSome hest.endPoint]
  split
  · exact tcpCloseCon_goes h hin hest.type true
  · next bytes hne _ =>
    have hne : bytes ≠ [] := fun heq => hne (by simp_all)
    apply (write_outcome hne).bind
    intro inputBuffer _
    have hest' : { o with inputBuffer := (ans.onUnserialize inputBuffer).2 }.Established :=
      { hest with }
    have hput : Goes true P σ (σ.put id _) :=
      h.keeps hin (.established hest') ⟨rfl, rfl, rfl⟩ rfl rfl rfl
    split
    · exact hput
    · exact hput.outcome (tcpCloseCon_goes (hput.inv h) (hin.put rfl) hest.type true)
  · exact .refl σ

theorem handleTcpConWrite_goes (h : σ.Inv) (hin : σ.InTable id o) (hest : o.Established)
    (hwriting : o.isWriting = true) :
    Outcome Foreign (Goes false P σ) (σ.handleTcpConWrite id ans) := by
  have hwrite : o.enableWrite = true := by
    rcases hest.state_cases with hstate | hstate <;> simp [enableWrite, hstate]
  have hbytes := hest.writing.mp hwriting
  have hpos : 0 < o.outBuffer.size := List.length_pos_of_ne_nil hbytes
  have hsize := ofInt32_toInt32 hest.bound
  have hle := toInt32_le o.outBuffer.size
  have hne : toInt32 o.outBuffer.size ≠ 0 := by
    intro heq
    rw [heq] at hsize
    exact (Nat.ne_of_gt hpos) hsize.symm
  obtain ⟨endPoint, hend⟩ := Option.isSome_iff_exists.mp hest.endPoint
  have hopen : o.state = .CONNECTED ∨ o.state = .DISCONNECTING ∧ o.outBuffer.bytes ≠ [] :=
    hest.state_cases.imp_right fun hstate => ⟨hstate, hbytes⟩
  simp only [handleTcpConWrite, connection_eq hin.heap hest.type, ok_bind,
    require_of_true hwrite, require_of_true hwriting, require_of_true hne, hend, nonNull_some, hsize]
  have hevents : o.events = READ_EVENT ||| WRITE_EVENT := by
    simpa [hwriting] using hest.events
  split
  · rw [readConfirm_eq hpos (Nat.le_refl _), ok_bind, deregisterWriteHandler_of_writing]
    · have hout : o.outBuffer.bytes.drop o.outBuffer.size = [] := by simp [IIOBuffer.size]
      have hsettled (e : CEndPoint) : Settled { o with
          outBuffer := ⟨o.outBuffer.bytes.drop o.outBuffer.size⟩, isWriting := false
          endPoint := some e, events := READ_EVENT } := by
        refine .established ?_
        exact { hest with
          events := rfl, writing := by simp [hout], bound := by simp [IIOBuffer.size]
          endPoint := rfl }
      by_cases hstate : o.state = .DISCONNECTING
      · obtain ⟨p, hp, -⟩ := h.held_eq hin
        rw [if_pos hstate]
        exact h.acts hin hp none (hsettled _) ⟨rfl, rfl, rfl⟩
          (.flushes rfl hest.type hstate hstate hbytes hout hend rfl)
      · rw [if_neg hstate]
        exact h.sends hin (hsettled _) ⟨rfl, rfl, rfl⟩ rfl hopen hend rfl
    · exact hevents
  · split
    · next hcount =>
      have hcount : 0 < ans.written.toNat ∧ ans.written.toNat < o.outBuffer.size := by omega
      rw [readConfirm_eq hcount.1 (Nat.le_of_lt hcount.2), ok_bind]
      refine h.sends hin (.established ?_) ⟨rfl, rfl, rfl⟩ rfl hopen hend rfl
      exact { hest with
        writing := by
          have : ¬o.outBuffer.size ≤ ans.written.toNat := by omega
          simpa [hwriting, IIOBuffer.size] using this
        bound := by
          have := hest.bound
          simp only [IIOBuffer.size, List.length_drop] at *
          omega
        endPoint := rfl }
    · exact h.sends hin (.established { hest with endPoint := rfl }) ⟨rfl, rfl, rfl⟩ rfl hopen hend
        rfl

theorem tcpSend_goes (h : σ.Inv) (hin : σ.InTable id o) (hcon : o.isConnection = true)
    (hfits : WriteFits ans) : Outcome Foreign (Goes true P σ) (σ.tcpSend id ans) := by
  simp only [tcpSend, get_eq hin.heap, ok_bind, hcon, require_of_true]
  by_cases hsend : o.enableSend = true
  · have hstate : o.state = .CONNECTED := by simpa [enableSend] using hsend
    have hest : o.Established := by
      cases h.settled hin with
      | listening hl => simp [hl.not_connection] at hcon
      | established hest => exact hest
      | attempting ha =>
        rcases ha.phase with ⟨hphase, -⟩ | ⟨hphase, -⟩ <;> simp [hphase] at hstate
    obtain ⟨endPoint, hend⟩ := Option.isSome_iff_exists.mp hest.endPoint
    simp only [hsend, Bool.not_true, Bool.false_eq_true, if_false]
    split
    · exact tcpCloseCon_goes h hin hcon true
    · next data hdata =>
      split
      · exact .inr (.inl rfl)
      split
      · exact .refl σ
      simp only [hend, nonNull_some, ok_bind]
      split
      · next hcount =>
        have hle := hfits data hdata
        have hne : data.drop ans.written.toNat ≠ [] := by
          rw [Ne, List.drop_eq_nil_iff]
          omega
        apply (write_outcome hne).bind
        intro outBuffer hwrite
        have hbytes : outBuffer.bytes ≠ [] := by simp [hwrite.1, hne]
        split
        · next hwriting =>
          refine h.sends hin (.established ?_) ⟨rfl, rfl, rfl⟩ rfl (.inl hstate) hend rfl
          exact { hest with
            writing := by simp [hwriting, hbytes], bound := hwrite.2, endPoint := rfl }
        · next hwriting =>
          have hevents : o.events = READ_EVENT := by simpa [hwriting] using hest.events
          rw [deregisterWriteHandler_of_reading]
          · refine h.sends hin (.established ?_) ⟨rfl, rfl, rfl⟩ rfl (.inl hstate) hend rfl
            exact { hest with
              events := rfl, writing := by simp [hbytes], bound := hwrite.2, endPoint := rfl }
          · exact hevents
      · exact h.sends hin (.established { hest with endPoint := rfl }) ⟨rfl, rfl, rfl⟩ rfl
          (.inl hstate) hend rfl
  · simp only [hsend, Bool.not_false, if_true]
    exact .refl σ

/-! ### New objects -/

/-- An object that has just been awakened. -/
structure Awake (o : IOObject) (type : EIOOBJECT_TYPE) (p : IOProtocol) : Prop where
  type : o.type = type
  key : o.key = p.key
  protocol : o.protocol = some p
  events : o.events = 0
  endPoint : o.endPoint.isSome
  isWriting : o.isWriting = false
  outBuffer : o.outBuffer.bytes = []
  timers : o.timers = []

omit [KeyPool] in
theorem Awake.held {type : EIOOBJECT_TYPE} (h : Awake o type p) (htcp : p.protocolType = .TCP) :
    o.Held :=
  ⟨p, h.protocol, h.key.symm, htcp⟩

/-- The pool gives an object that is like a new one where its next life depends on it. -/
theorem create_eq (h : σ.Inv) (type : EIOOBJECT_TYPE) (p : IOProtocol) (endPoint : CEndPoint)
    (reused : Option Nat) :
    ∃ o pool, σ.create type p endPoint reused = σ.added o pool false ∧ Awake o type p ∧
      o.endPoint = some endPoint ∧ ∀ o ∈ pool, o ∈ σ.pool := by
  suffices hpool : (σ.fromPool type reused).1.type = type ∧
      (σ.fromPool type reused).1.outBuffer.bytes = [] ∧
      (σ.fromPool type reused).1.timers = [] ∧ ∀ o ∈ (σ.fromPool type reused).2, o ∈ σ.pool by
    obtain ⟨htype, hout, htimers, hsub⟩ := hpool
    exact ⟨_, _, rfl, ⟨htype, rfl, rfl, rfl, rfl, rfl, hout, htimers⟩, rfl, hsub⟩
  unfold fromPool
  split
  · next o hsome =>
    obtain ⟨i, -, hi⟩ := Option.bind_eq_some_iff.mp hsome
    have hclean := h.clean o (List.mem_of_getElem? hi)
    split
    · next htype => exact ⟨htype, hclean.1, hclean.2, fun _ => List.mem_of_mem_erase⟩
    · exact ⟨rfl, rfl, rfl, fun _ ho => ho⟩
  · exact ⟨rfl, rfl, rfl, fun _ ho => ho⟩

variable {pool : List IOObject} {inTable : Bool} {o' : IOObject}

theorem heap_added : (σ.added o pool inTable).heap σ.created = some o :=
  σ.put_heap_self σ.created o

theorem get_added : (σ.added o pool inTable).get σ.created = .ok o :=
  get_eq heap_added

theorem put_added (hkey : o'.key = o.key) :
    (σ.added o pool inTable).put σ.created o' = σ.added o' pool inTable := by
  simp [added, CNetwork.put, hkey]

theorem addObject_added (h : σ.Inv) (hfresh : σ.Fresh o.key) :
    (σ.added o pool false).addObject σ.created = .ok (σ.added o pool true) := by
  have hslot := h.slot_of_fresh hfresh
  simp only [addObject, get_added, ok_bind]
  rw [require_of_true (by simpa [added] using hslot)]
  rfl

omit [KeyPool] in
theorem Awake.silent {type : EIOOBJECT_TYPE} {e : CEndPoint} (h : Awake o type p)
    (hend : o.endPoint = some e) (hsent : e.sent = []) : o.Silent :=
  ⟨fun e' he => by rw [← Option.some.inj (hend.symm.trans he), hsent], h.outBuffer⟩

omit [KeyPool] in
theorem bind_nonneg (e : CEndPoint) (errno : Nat) : ¬e.bind errno < 0 :=
  Int.not_lt.mpr (Int.natCast_nonneg errno)

omit [KeyPool] in
theorem listen_nonneg (e : CEndPoint) (errno : Nat) : ¬e.listen errno < 0 :=
  Int.not_lt.mpr (Int.natCast_nonneg errno)

/-- Once there is a socket the listener is put in the table, whatever `bind` and `listen` answer. -/
theorem tcpListen_eq (h : σ.Inv) (hfresh : σ.Fresh p.key) (hsocket : ans.socket ≠ -1)
    (port : UInt16) :
    ∃ o pool, σ.tcpListen port p ans = .ok ((σ.added { o with
        errorCallback := some .defaultErrorHandle, readCallback := some .handleTcpAccept
        events := READ_EVENT } pool true).notify p (.onListen true)) ∧
      Awake o .LISTENER p ∧ o.endPoint = some ⟨ans.socket, ⟨INADDR_ANY, port⟩, []⟩ ∧
      ∀ o ∈ pool, o ∈ σ.pool := by
  obtain ⟨o, pool, hcreate, ho, hend, hpool⟩ :=
    create_eq h .LISTENER p ⟨ans.socket, ⟨INADDR_ANY, port⟩, []⟩ ans.reused
  have hfresh : σ.Fresh o.key := ho.key ▸ hfresh
  refine ⟨o, pool, ?_, ho, hend, hpool⟩
  simp only [tcpListen, if_neg hsocket, hcreate, get_added, ok_bind, put_added,
    nonNull_isSome ho.endPoint, if_neg (bind_nonneg _ _), if_neg (listen_nonneg _ _)]
  rw [registerReadHandler_eq, put_added, addObject_added h, ok_bind]
  · rfl
  · exact hfresh
  · rfl
  · exact ho.events

/-- A listener is put in the table, or its protocol is told that there is no socket. -/
theorem tcpListen_goes (h : σ.Inv) (hclaims : σ.Claims p.key υ) (htcp : p.protocolType = .TCP)
    (hp : P .LISTENER p) (port : UInt16) :
    Outcome Foreign (Goes force P σ) (υ.tcpListen port p ans) := by
  have hυ := hclaims.leads h
  by_cases hsocket : ans.socket = -1
  · rw [tcpListen, if_pos hsocket]
    exact h.goes (hυ.tell p (some (.onListen false))) (.refused hclaims hp)
  obtain ⟨o, pool, heq, ho, hend, hpool⟩ := tcpListen_eq hυ.inv (hclaims.fresh h) hsocket port
  have hsilent := ho.silent hend rfl
  rw [heq]
  apply Claims.enters hclaims h (some (.onListen true))
  · exact ho.protocol
  · exact ho.key
  · exact htcp
  · exact hpool
  · simp
  · exact fun _ => .listening ⟨ho.type, rfl, rfl, rfl, ho.endPoint, ho.timers⟩
  · exact ⟨hsilent.sent, hsilent.outBuffer⟩
  · exact .listens ho.type hp

theorem handleTcpAccept_goes (h : σ.Inv) (hin : σ.InTable id o) (hl : o.Listening)
    (hfree : σ.Free ans.key) : Outcome Foreign (Goes force P σ) (σ.handleTcpAccept id ans) := by
  obtain ⟨p, hp, -⟩ := h.held_eq hin
  simp only [handleTcpAccept, get_eq hin.heap, ok_bind, require_of_true hl.type,
    nonNull_isSome hl.endPoint]
  split
  · exact .refl σ
  next socket address _ =>
  have hpop : Goes force P σ (σ.popKey ans.key) := h.goes (h.popKey hfree) (.popKey hfree)
  split
  · exact hpop
  next hne =>
  simp only [hp, nonNull_some, ok_bind]
  split
  · exact hpop
  next protocolId _ =>
  obtain ⟨protocol, hprotocol⟩ : ∃ q : IOProtocol, q = ⟨protocolId, .TCP, .SESSION, ans.key, 0⟩ :=
    ⟨_, rfl⟩
  have hclaims : σ.Claims protocol.key (σ.popKey ans.key) := hprotocol ▸ .free hfree hne
  rw [← hprotocol]
  have hυ := hclaims.leads h
  generalize σ.popKey ans.key = υ at *
  obtain ⟨c, pool, hcreate, hc, hend, hpool⟩ :=
    create_eq hυ.inv .SESSION protocol ⟨socket, address, []⟩ ans.reused
  have hsilent := hc.silent hend rfl
  have hfresh : υ.Fresh c.key := hc.key ▸ hclaims.fresh h
  simp only [hcreate, get_added, ok_bind]
  have hest := established_setConnected (by simp [isConnection, hc.type]) hc.events hc.isWriting
    hc.outBuffer hc.endPoint hc.timers
  have hreg : c.setConnected.registerReadHandler = { c.setConnected with events := READ_EVENT } :=
    registerReadHandler_eq hc.events
  rw [put_added, addObject_added hυ.inv, ok_bind, get_added, ok_bind, put_added,
    onNewConnection_eq heap_added, put_added]
  · rw [hreg] at hest ⊢
    apply Claims.enters hclaims h (some (.onAccept p))
    · exact hc.protocol
    · exact hc.key
    · rw [hprotocol]
    · exact hpool
    · simp
    · exact fun _ => .established hest
    · exact ⟨hsilent.sent, hsilent.outBuffer⟩
    · apply Entry.accepted
      · exact hc.type
      · rw [hprotocol]
      · rfl
  · simp
  · simp
  · exact hfresh
  · simp

/-- A connector goes on with whatever socket it gets. -/
theorem tcpConnect_eq (h : σ.Inv) (hfresh : σ.Fresh p.key) (address : CAddress) (ans : Answers) :
    ∃ o pool, σ.tcpConnect address p ans = .ok (σ.added { o with
        errorCallback := some .handleTcpConnectError, writeCallback := some .handleTcpConnectWrite
        state := .CONNECTING, events := WRITE_EVENT } pool true) ∧
      Awake o .CONNECTOR p ∧ o.endPoint = some ⟨ans.socket, address, []⟩ ∧
      ∀ o ∈ pool, o ∈ σ.pool := by
  obtain ⟨o, pool, hcreate, ho, hend, hpool⟩ :=
    create_eq h .CONNECTOR p ⟨ans.socket, address, []⟩ ans.reused
  have hfresh : σ.Fresh o.key := ho.key ▸ hfresh
  refine ⟨o, pool, ?_, ho, hend, hpool⟩
  simp only [tcpConnect, hcreate, get_added, ok_bind, put_added]
  rw [addObject_added h, ok_bind, registerWriteHandler_eq, put_added]
  · rfl
  · rfl
  · exact ho.events
  · exact hfresh

theorem tcpConnect_goes (h : σ.Inv) (hclaims : σ.Claims p.key υ) (htcp : p.protocolType = .TCP)
    (hp : P .CONNECTOR p) (address : CAddress) :
    Outcome Foreign (Goes force P σ) (υ.tcpConnect address p ans) := by
  have hυ := hclaims.leads h
  obtain ⟨o, pool, heq, ho, hend, hpool⟩ := tcpConnect_eq hυ.inv (hclaims.fresh h) address ans
  have hsilent := ho.silent hend rfl
  rw [heq]
  apply Claims.enters hclaims h none
  · exact ho.protocol
  · exact ho.key
  · exact htcp
  · exact hpool
  · simp
  · exact fun _ => .attempting ⟨ho.type, rfl, rfl, ho.isWriting, ho.outBuffer,
      .inl ⟨rfl, rfl, ho.endPoint, ho.timers⟩⟩
  · exact ⟨hsilent.sent, hsilent.outBuffer⟩
  · exact .connects ho.type hp rfl

/-! ### Connecting -/

theorem onTcpConnectError_goes (h : σ.Inv) (hin : σ.InTable id o) (ha : o.Attempting)
    (hstate : o.state = .CONNECTING) :
    Outcome Foreign (Goes force P σ) (σ.onTcpConnectError id) := by
  obtain ⟨p, hp, -⟩ := h.held_eq hin
  obtain ⟨-, -, hend, htimers⟩ : o.state = .CONNECTING ∧ o.events = WRITE_EVENT ∧
      o.endPoint.isSome ∧ o.timers = [] := by simpa [hstate] using ha.phase
  simp only [onTcpConnectError, get_eq hin.heap, ok_bind, nonNull_isSome hend]
  rw [notifyProtocol_eq (p := p), ok_bind]
  · apply h.acts hin hp (some (.onConnect false))
    · refine .attempting { ha with
        phase := .inr ⟨rfl, rfl, rfl, (o.endPoint.get hend).address, ?_⟩ }
      simp only [startTimer, deregisterObject, htimers]
      rfl
    · exact ⟨rfl, rfl, rfl⟩
    · exact .fails ha.type hstate rfl rfl
  · exact hp

theorem handleTcpConnectError_goes (h : σ.Inv) (hin : σ.InTable id o) (ha : o.Attempting)
    (hstate : o.state = .CONNECTING) :
    Outcome Foreign (Goes force P σ) (σ.handleTcpConnectError id) := by
  have hend : o.endPoint.isSome := by
    rcases ha.phase with ⟨-, -, hend, -⟩ | ⟨hstate', -⟩
    · exact hend
    · exact absurd (hstate.symm.trans hstate') nofun
  simp only [handleTcpConnectError, get_eq hin.heap, ok_bind, nonNull_isSome hend, ha.type,
    if_true]
  exact onTcpConnectError_goes h hin ha hstate

theorem handleTcpConnectWrite_goes (h : σ.Inv) (hin : σ.InTable id o) (ha : o.Attempting)
    (hstate : o.state = .CONNECTING) :
    Outcome Foreign (Goes force P σ) (σ.handleTcpConnectWrite id ans) := by
  obtain ⟨p, hp, -⟩ := h.held_eq hin
  obtain ⟨-, -, hend, htimers⟩ : o.state = .CONNECTING ∧ o.events = WRITE_EVENT ∧
      o.endPoint.isSome ∧ o.timers = [] := by simpa [hstate] using ha.phase
  have herror : Outcome Foreign (Goes force P σ) (σ.onTcpConnectError id) :=
    onTcpConnectError_goes h hin ha hstate
  simp only [handleTcpConnectWrite, get_eq hin.heap, ok_bind, ha.type, ne_eq, not_true_eq_false,
    if_false, require_of_true hstate, nonNull_isSome hend]
  split
  · exact herror
  have hself (e : CEndPoint) : Outcome Foreign (fun _ => True)
      (e.isSelfConnect ans.localName ans.remoteNameAgain) := by
    unfold CEndPoint.isSelfConnect
    split
    · trivial
    · exact .inr (.inr (.inl rfl))
  apply (hself _).bind
  intro self _
  split
  · exact herror
  have hest := established_setConnected (o := o.deregisterObject) ha.isConnection rfl ha.isWriting
    ha.outBuffer hend htimers
  rw [notifyProtocol_eq (p := p), ok_bind, onNewConnection_eq (put_heap_self ..), put_put]
  · have hreg : o.deregisterObject.setConnected.registerReadHandler =
        { o.deregisterObject.setConnected with events := READ_EVENT } := registerReadHandler_eq rfl
    rw [hreg] at hest ⊢
    apply h.acts hin hp (some (.onConnect true)) (.established hest)
    · exact ⟨rfl, rfl, rfl⟩
    · exact .connects ha.type hstate rfl rfl
  · exact hp

end ZlNet.Network.CNetwork
