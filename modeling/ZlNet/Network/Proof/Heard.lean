import ZlNet.Network.Proof.Flush

/-! What the protocol of a key hears from when the key is taken until it is returned: whether a
listener listens, and that it has ended; that a session was accepted, and that it has gone; how each
attempt of a connector ended, and that its connection has gone. -/

namespace ZlNet.Network

open Lib IOObject

/-- The protocol has a connection from this notice on. -/
def Notice.Opens : Notice → Prop
  | .onAccept _ | .onConnect true => True
  | .onListen _ | .onUnlisten | .onClose | .onConnect false | .onDisConnect => False

/-- The connection of the protocol has gone. -/
def Notice.Ends : Notice → Prop
  | .onClose | .onDisConnect => True
  | .onListen _ | .onUnlisten | .onAccept _ | .onConnect _ => False

/-- What a protocol of each type may have heard. -/
def Pattern : EIOOBJECT_TYPE → List Notice → Prop
  | .LISTENER, ns => ns = [.onListen false] ∨ ns <+: [.onListen true, .onUnlisten]
  | .SESSION, ns => ∃ fromProtocol, ns <+: [.onAccept fromProtocol, .onClose]
  | .CONNECTOR, ns => ∃ failures rest, ns = List.replicate failures (.onConnect false) ++ rest ∧
      rest <+: [.onConnect true, .onDisConnect]
  | .WAKEUP, ns => ns = []

/-- What the protocol of an object of the table has heard, by the type and the state of the object. -/
def Stage : EIOOBJECT_TYPE → EConnectState → List Notice → Prop
  | .LISTENER, _, ns => ns = [.onListen true]
  | .SESSION, .CONNECTED, ns => ∃ fromProtocol, ns = [.onAccept fromProtocol]
  | .SESSION, .DISCONNECTING, ns => ∃ fromProtocol, ns = [.onAccept fromProtocol, .onClose]
  | .CONNECTOR, .CONNECTING, ns | .CONNECTOR, .DISCONNECTED, ns =>
    ∃ failures, ns = List.replicate failures (.onConnect false)
  | .CONNECTOR, .CONNECTED, ns =>
    ∃ failures, ns = List.replicate failures (.onConnect false) ++ [.onConnect true]
  | .CONNECTOR, .DISCONNECTING, ns =>
    ∃ failures, ns = List.replicate failures (.onConnect false) ++ [.onConnect true, .onDisConnect]
  | .SESSION, .CONNECTING, _ | .SESSION, .DISCONNECTED, _ | .WAKEUP, _, _ => False

/-- What a protocol has heard that has no object in the table, and will have none. -/
def Over : EIOOBJECT_TYPE → List Notice → Prop
  | .LISTENER, ns => ns = [] ∨ ns = [.onListen false] ∨ ns = [.onListen true, .onUnlisten]
  | .SESSION, ns => ns = [] ∨ ∃ fromProtocol, ns = [.onAccept fromProtocol, .onClose]
  | .CONNECTOR, ns => ∃ failures, ns = List.replicate failures (.onConnect false) ∨
      ns = List.replicate failures (.onConnect false) ++ [.onConnect true, .onDisConnect]
  | .WAKEUP, ns => ns = []

section

variable {type : EIOOBJECT_TYPE} {ns : List Notice} {told : Option Notice} {o o' : IOObject}
  {force : Bool}

theorem over_nil (type : EIOOBJECT_TYPE) : Over type [] := by
  cases type with
  | WAKEUP => rfl
  | LISTENER => exact .inl rfl
  | CONNECTOR => exact ⟨0, .inl rfl⟩
  | SESSION => exact .inl rfl

theorem Over.pattern (h : Over type ns) : Pattern type ns := by
  cases type with
  | WAKEUP => exact h
  | LISTENER =>
    rcases h with rfl | rfl | rfl
    · exact .inr (List.nil_prefix ..)
    · exact .inl rfl
    · exact .inr (List.prefix_refl _)
  | CONNECTOR =>
    obtain ⟨failures, rfl | rfl⟩ := h
    · exact ⟨failures, [], (List.append_nil _).symm, List.nil_prefix ..⟩
    · exact ⟨failures, _, rfl, List.prefix_refl _⟩
  | SESSION =>
    rcases h with rfl | ⟨fromProtocol, rfl⟩
    · exact ⟨⟨0, .TCP, .SESSION, 0, 0⟩, List.nil_prefix ..⟩
    · exact ⟨fromProtocol, List.prefix_refl _⟩

/-- A connection that is over has been told so. -/
theorem Over.ended (h : Over type ns) (hopens : ∃ n ∈ ns, n.Opens) : ∃ n ∈ ns, n.Ends := by
  obtain ⟨n, hn, hopens⟩ := hopens
  cases type with
  | WAKEUP =>
    obtain rfl : ns = [] := h
    cases hn
  | LISTENER =>
    have hlistener : n = .onListen false ∨ n = .onListen true ∨ n = .onUnlisten := by
      rcases h with rfl | rfl | rfl
      · cases hn
      · exact .inl (List.mem_singleton.mp hn)
      · exact .inr (by simpa using hn)
    rcases hlistener with rfl | rfl | rfl <;> cases hopens
  | CONNECTOR =>
    obtain ⟨failures, rfl | rfl⟩ := h
    · obtain rfl := List.eq_of_mem_replicate hn
      cases hopens
    · exact ⟨.onDisConnect, by simp, trivial⟩
  | SESSION =>
    rcases h with rfl | ⟨fromProtocol, rfl⟩
    · cases hn
    · exact ⟨.onClose, by simp, trivial⟩

theorem Stage.pattern {state : EConnectState} (h : Stage type state ns) : Pattern type ns := by
  cases type with
  | WAKEUP => exact h.elim
  | LISTENER =>
    obtain rfl : ns = [.onListen true] := h
    exact .inr ⟨[.onUnlisten], rfl⟩
  | CONNECTOR =>
    cases state with
    | CONNECTED =>
      obtain ⟨failures, rfl⟩ := h
      exact ⟨failures, _, rfl, ⟨[.onDisConnect], rfl⟩⟩
    | DISCONNECTING =>
      obtain ⟨failures, rfl⟩ := h
      exact ⟨failures, _, rfl, List.prefix_refl _⟩
    | CONNECTING =>
      obtain ⟨failures, rfl⟩ := h
      exact ⟨failures, [], (List.append_nil _).symm, List.nil_prefix ..⟩
    | DISCONNECTED =>
      obtain ⟨failures, rfl⟩ := h
      exact ⟨failures, [], (List.append_nil _).symm, List.nil_prefix ..⟩
  | SESSION =>
    cases state with
    | CONNECTED =>
      obtain ⟨fromProtocol, rfl⟩ := h
      exact ⟨fromProtocol, [.onClose], rfl⟩
    | DISCONNECTING =>
      obtain ⟨fromProtocol, rfl⟩ := h
      exact ⟨fromProtocol, List.prefix_refl _⟩
    | CONNECTING => exact h.elim
    | DISCONNECTED => exact h.elim

theorem connection_cases (hcon : o.isConnection = true) :
    o.type = .CONNECTOR ∨ o.type = .SESSION := by
  simpa [IOObject.isConnection] using hcon

/-- A change of an object goes with what its protocol is told. -/
theorem Stage.act (h : Stage o.type o.state ns) (hsame : Same o o') (hact : Act force o o' told) :
    Stage o'.type o'.state (ns ++ told.toList) := by
  rw [hsame.type]
  cases hact with
  | keeps hstate =>
    rw [hstate, Option.toList_none, List.append_nil]
    exact h
  | sends hstate =>
    rw [hstate, Option.toList_none, List.append_nil]
    exact h
  | flushes _ _ hstate hstate' =>
    rw [hstate', ← hstate, Option.toList_none, List.append_nil]
    exact h
  | disconnects _ hcon hstate hstate' =>
    rw [hstate] at h
    rw [hstate', Option.toList_some]
    rcases connection_cases hcon with htype | htype
    · rw [htype] at h ⊢
      obtain ⟨failures, rfl⟩ := h
      exact ⟨failures, by simp [gone, htype]⟩
    · rw [htype] at h ⊢
      obtain ⟨fromProtocol, rfl⟩ := h
      exact ⟨fromProtocol, by simp [gone, htype]⟩
  | fails htype hstate hstate' =>
    rw [htype, hstate] at h
    rw [htype, hstate', Option.toList_some]
    obtain ⟨failures, rfl⟩ := h
    exact ⟨failures + 1, List.replicate_succ'.symm⟩
  | connects htype hstate hstate' =>
    rw [htype, hstate] at h
    rw [htype, hstate', Option.toList_some]
    obtain ⟨failures, rfl⟩ := h
    exact ⟨failures, rfl⟩
  | retries htype hstate hstate' =>
    rw [htype, hstate] at h
    rw [htype, hstate', Option.toList_none, List.append_nil]
    exact h

theorem Stage.exit (h : Stage o.type o.state ns) (hexit : Exit force o told) :
    Over o.type (ns ++ told.toList) := by
  cases hexit with
  | unlisten htype =>
    rw [htype] at h ⊢
    obtain rfl : ns = [.onListen true] := h
    exact .inr (.inr rfl)
  | drops _ hcon hstate =>
    rw [hstate] at h
    rw [Option.toList_some]
    rcases connection_cases hcon with htype | htype
    · rw [htype] at h ⊢
      obtain ⟨failures, rfl⟩ := h
      exact ⟨failures, .inr (by simp [gone, htype])⟩
    · rw [htype] at h ⊢
      obtain ⟨fromProtocol, rfl⟩ := h
      exact .inr ⟨fromProtocol, by simp [gone, htype]⟩
  | finishes _ hcon hstate =>
    rw [hstate] at h
    rw [Option.toList_none, List.append_nil]
    rcases connection_cases hcon with htype | htype
    · rw [htype] at h ⊢
      obtain ⟨failures, rfl⟩ := h
      exact ⟨failures, .inr rfl⟩
    · rw [htype] at h ⊢
      exact .inr h
  | abandons htype hstate =>
    rw [htype] at h ⊢
    rw [Option.toList_some]
    have h : ∃ failures, ns = List.replicate failures (.onConnect false) := by
      rcases hstate with hstate | hstate
      · rwa [hstate] at h
      · rwa [hstate] at h
    obtain ⟨failures, rfl⟩ := h
    exact ⟨failures + 1, .inl List.replicate_succ'.symm⟩

/-- The protocol of a new object is told how it came about. -/
theorem IOObject.Entry.stage {P : EIOOBJECT_TYPE → IOProtocol → Prop} {p : IOProtocol}
    {inTable : Bool} (hentry : Entry P o p inTable told)
    (hP : ∀ type p, P type p → p.type = type) :
    p.type = o.type ∧ (inTable = true → Stage o.type o.state told.toList) ∧
      (inTable = false → Over o.type told.toList) := by
  cases hentry with
  | listens htype hp =>
    rw [htype]
    exact ⟨hP _ p hp, fun _ => rfl, by simp⟩
  | refused htype hp =>
    rw [htype]
    exact ⟨hP _ p hp, by simp, fun _ => .inr (.inl rfl)⟩
  | accepted htype hp hstate fromProtocol =>
    rw [htype, hstate]
    exact ⟨hp, fun _ => ⟨fromProtocol, rfl⟩, by simp⟩
  | connects htype hp hstate =>
    rw [htype, hstate]
    exact ⟨hP _ p hp, fun _ => ⟨0, rfl⟩, by simp⟩

end

namespace CNetwork

section

variable [KeyPool] {σ τ υ : CNetwork} {id : ObjectId} {o o' : IOObject} {p : IOProtocol}
  {key : UInt32} {force : Bool} {P : EIOOBJECT_TYPE → IOProtocol → Prop} {told : Option Notice}
  {ns : List Notice} {heard : List (IOProtocol × Notice)}

/-! ### Keys -/

/-- Where a key is, with what its protocol has heard since the key was taken. -/
inductive Phase (σ : CNetwork) (key : UInt32) : List (IOProtocol × Notice) → Prop
  | queued {e : IOEvent} (he : e ∈ σ.eventQueue) (hkey : e.protocolKey = some key) : Phase σ key []
  | present {id : ObjectId} {o : IOObject} {p : IOProtocol} {ns : List Notice}
      (hin : σ.InTable id o) (hkey : o.key = key) (hp : o.protocol = some p)
      (htype : p.type = o.type) (hstage : Stage o.type o.state ns) : Phase σ key (ns.map (p, ·))
  | ended (p : IOProtocol) {ns : List Notice} (habsent : ∀ id o, σ.InTable id o → o.key ≠ key)
      (hqueue : key ∉ σ.eventQueue.filterMap IOEvent.protocolKey)
      (hout : ns = [] ∨ key ∈ σ.outstanding) (hover : Over p.type ns) : Phase σ key (ns.map (p, ·))

/-- Between `σ` and `τ` nothing happens to the key. -/
structure Apart (key : UInt32) (σ τ : CNetwork) : Prop where
  queue : ∀ e, e.protocolKey = some key → (e ∈ τ.eventQueue ↔ e ∈ σ.eventQueue)
  table : ∀ id o, o.key = key → (τ.InTable id o ↔ σ.InTable id o)
  outstanding : key ∈ σ.outstanding → key ∈ τ.outstanding

theorem Phase.apart (h : σ.Phase key heard) (hapart : Apart key σ τ) : τ.Phase key heard := by
  cases h with
  | queued he hkey => exact .queued ((hapart.queue _ hkey).mpr he) hkey
  | present hin hkey hp htype hstage =>
    exact .present ((hapart.table _ _ hkey).mpr hin) hkey hp htype hstage
  | ended p habsent hqueue hout hover =>
    refine .ended p (fun id o hin hkey => ?_) (fun hmem => ?_) (hout.imp_right hapart.outstanding)
      hover
    · exact habsent id o ((hapart.table id o hkey).mp hin) hkey
    · obtain ⟨e, he, hkey⟩ := List.mem_filterMap.mp hmem
      exact hqueue (List.mem_filterMap.mpr ⟨e, (hapart.queue e hkey).mp he, hkey⟩)

theorem apart_tell : Apart key σ (σ.tell p told) := by
  cases told with
  | some notice => exact ⟨fun _ _ => Iff.rfl, fun id o _ => ⟨fun h => ⟨h.heap, h.slot⟩,
      fun h => ⟨h.heap, h.slot⟩⟩, id⟩
  | none => exact ⟨fun _ _ => Iff.rfl, fun _ _ _ => Iff.rfl, id⟩

omit [KeyPool] in
theorem tell_notices : (σ.tell p told).notices = σ.notices ++ told.toList.map (p, ·) := by
  cases told with
  | some notice => rfl
  | none => exact (List.append_nil _).symm

omit [KeyPool] in
/-- What a protocol is told is for its own key. -/
theorem filter_told : (told.toList.map (p, ·)).filter (fun call => call.1.key = key) =
    if p.key = key then told.toList.map (p, ·) else [] := by
  cases told with
  | none => simp
  | some notice =>
    by_cases hkey : p.key = key
    · simp [hkey]
    · simp [hkey]

/-- From `σ` to `τ` the protocol of the key is told more, and is in a phase for it. -/
def Hears (key : UInt32) (heard : List (IOProtocol × Notice)) (σ τ : CNetwork) : Prop :=
  ∃ new, τ.notices = σ.notices ++ new ∧
    τ.Phase key (heard ++ new.filter fun call => call.1.key = key)

theorem Phase.hears (h : τ.Phase key heard) (hnotices : τ.notices = σ.notices) :
    Hears key heard σ τ :=
  ⟨[], by rw [hnotices, List.append_nil], by simpa using h⟩

/-- A protocol with another key is told. -/
theorem Phase.hears_ne (h : τ.Phase key heard) (told : Option Notice)
    (hnotices : τ.notices = σ.notices) (hne : p.key ≠ key) : Hears key heard σ (τ.tell p told) := by
  refine ⟨told.toList.map (p, ·), by rw [tell_notices, hnotices], ?_⟩
  rw [filter_told, if_neg hne, List.append_nil]
  exact h.apart apart_tell

/-- The protocol of the key is told. -/
theorem Phase.hears_told (h : τ.Phase p.key ((ns ++ told.toList).map (p, ·)))
    (hnotices : τ.notices = σ.notices) : Hears p.key (ns.map (p, ·)) σ (τ.tell p told) := by
  refine ⟨told.toList.map (p, ·), by rw [tell_notices, hnotices], ?_⟩
  rw [filter_told, if_pos rfl, ← List.map_append]
  exact h.apart apart_tell

/-- The protocol of the key is told for the first time. -/
theorem Phase.hears_first (told : Option Notice) (h : τ.Phase p.key (told.toList.map (p, ·)))
    (hnotices : τ.notices = σ.notices) : Hears p.key [] σ (τ.tell p told) := by
  have h : τ.Phase p.key (([] ++ told.toList).map (p, ·)) := h
  exact h.hears_told hnotices

/-- The key has been claimed, and its protocol has heard nothing. -/
theorem Phase.over_nil (habsent : ∀ id o, σ.InTable id o → o.key ≠ key)
    (hqueue : key ∉ σ.eventQueue.filterMap IOEvent.protocolKey) : σ.Phase key [] := by
  let p : IOProtocol := ⟨0, .TCP, .SESSION, key, 0⟩
  have h : σ.Phase key (([] : List Notice).map (p, ·)) :=
    .ended p habsent hqueue (.inl rfl) (Network.over_nil p.type)
  exact h

/-! ### Moves -/

theorem inTable_put_iff {id' : ObjectId} {o₁ : IOObject} (hne : id' ≠ id) :
    (σ.put id o').InTable id' o₁ ↔ σ.InTable id' o₁ :=
  ⟨fun h => ⟨(σ.put_heap_ne o' hne).symm.trans h.heap, h.slot⟩,
    fun h => ⟨(σ.put_heap_ne o' hne).trans h.heap, h.slot⟩⟩

theorem apart_put (hheap : σ.heap id = some o) (hkey : o'.key = o.key)
    (hne : o.key ≠ key ∨ σ.objects (KeyPool.index o.key) ≠ some id) :
    Apart key σ (σ.put id o') := by
  refine ⟨fun _ _ => Iff.rfl, fun id₁ o₁ hkey₁ => ?_, fun hout => hout⟩
  by_cases heq : id₁ = id
  · subst heq
    constructor
    · intro hin
      obtain rfl := Option.some.inj ((σ.put_heap_self id₁ o').symm.trans hin.heap)
      have hslot : σ.objects (KeyPool.index o'.key) = some id₁ := hin.slot
      rw [hkey] at hslot
      exact absurd (hkey.symm.trans hkey₁) (hne.resolve_right fun hslot' => hslot' hslot)
    · intro hin
      obtain rfl := Option.some.inj (hheap.symm.trans hin.heap)
      exact absurd hkey₁ (hne.resolve_right fun hslot => hslot hin.slot)
  · exact inTable_put_iff heq

theorem inTable_removed_iff {id' : ObjectId} {o₁ : IOObject} (hin : σ.InTable id o)
    (hkey : o'.key = o.key) :
    (σ.removed id o').InTable id' o₁ ↔ id' ≠ id ∧ σ.InTable id' o₁ := by
  constructor
  · rintro ⟨hheap, hslot⟩
    simp only [removed, Function.update_apply, hkey] at hslot
    split at hslot
    · cases hslot
    next hindex =>
    have hne : id' ≠ id := by
      rintro rfl
      obtain rfl := Option.some.inj ((σ.put_heap_self id' o').symm.trans hheap)
      exact hindex (congrArg KeyPool.index hkey)
    exact ⟨hne, (σ.put_heap_ne o' hne).symm.trans hheap, hslot⟩
  · rintro ⟨hne, hin'⟩
    refine ⟨(σ.put_heap_ne o' hne).trans hin'.heap, ?_⟩
    simp only [removed, Function.update_apply, hkey]
    rw [if_neg, hin'.slot]
    intro hindex
    have hslot := hin'.slot
    rw [hindex, hin.slot] at hslot
    exact hne (Option.some.inj hslot).symm

theorem apart_removed (hin : σ.InTable id o) (hkey : o'.key = o.key) (hne : o.key ≠ key) :
    Apart key σ (σ.removed id o') := by
  refine ⟨fun _ _ => Iff.rfl, fun id₁ o₁ hkey₁ => ?_, fun hout => hout⟩
  rw [inTable_removed_iff hin hkey]
  refine and_iff_right_of_imp fun hin₁ => ?_
  rintro rfl
  exact hne (hin₁.eq hin ▸ hkey₁)

theorem inTable_added_iff {id' : ObjectId} {o₁ : IOObject} {pool : List IOObject} {inTable : Bool}
    (h : σ.Inv) (hfresh : σ.Fresh o.key) :
    (σ.added o pool inTable).InTable id' o₁ ↔
      (inTable = true ∧ id' = σ.created ∧ o₁ = o) ∨ σ.InTable id' o₁ := by
  have hslot := h.slot_of_fresh hfresh
  have hself : (σ.added o pool inTable).heap σ.created = some o := σ.put_heap_self σ.created o
  have hfree := h.created_free
  have hindex {o₁ : IOObject} (hin : σ.InTable id' o₁) :
      KeyPool.index o₁.key ≠ KeyPool.index o.key := by
    intro heq
    have hslot' := hin.slot
    rw [heq, hslot] at hslot'
    cases hslot'
  constructor
  · rintro ⟨hheap, hslot'⟩
    by_cases heq : id' = σ.created
    · subst heq
      obtain rfl := Option.some.inj (hself.symm.trans hheap)
      cases inTable with
      | true => exact .inl ⟨rfl, rfl, rfl⟩
      | false => simp [added, hslot] at hslot'
    · have hheap := (σ.put_heap_ne o heq).symm.trans hheap
      refine .inr ⟨hheap, ?_⟩
      cases inTable with
      | false => exact hslot'
      | true =>
        simp only [added, if_true, Function.update_apply] at hslot'
        split at hslot'
        · exact absurd (Option.some.inj hslot').symm heq
        · exact hslot'
  · rintro (⟨rfl, rfl, rfl⟩ | hin)
    · exact ⟨hself, by simp [added]⟩
    · have hne : id' ≠ σ.created := by
        rintro rfl
        rw [hin.heap] at hfree
        cases hfree
      refine ⟨(σ.put_heap_ne o hne).trans hin.heap, ?_⟩
      cases inTable with
      | false => exact hin.slot
      | true => simp [added, hindex hin, hin.slot]

theorem apart_added {pool : List IOObject} {inTable : Bool} (h : σ.Inv) (hfresh : σ.Fresh o.key)
    (hne : o.key ≠ key) : Apart key σ (σ.added o pool inTable) := by
  refine ⟨fun _ _ => Iff.rfl, fun id₁ o₁ hkey₁ => ?_, fun hout => hout⟩
  rw [inTable_added_iff h hfresh, or_iff_right]
  rintro ⟨-, -, rfl⟩
  exact hne hkey₁

/-- The key of an object is not queued. -/
theorem Inv.not_queued (h : σ.Inv) (hheap : σ.heap id = some o) :
    o.key ∉ σ.eventQueue.filterMap IOEvent.protocolKey := by
  intro hmem
  obtain ⟨e, he, hkey⟩ := List.mem_filterMap.mp hmem
  exact (h.queued e he _ hkey).2 id o hheap rfl

/-- The phase of the key of an object of the table. -/
theorem Phase.of_inTable (hphase : σ.Phase o.key heard) (h : σ.Inv) (hin : σ.InTable id o)
    (hp : o.protocol = some p) :
    ∃ ns, heard = ns.map (p, ·) ∧ p.type = o.type ∧ Stage o.type o.state ns := by
  cases hphase with
  | queued he hkey => exact absurd (List.mem_filterMap.mpr ⟨_, he, hkey⟩) (h.not_queued hin.heap)
  | @present id₁ o₁ p₁ ns hin₁ hkey hp₁ htype hstage =>
    obtain ⟨rfl, rfl⟩ := hin.of_key hin₁ hkey
    obtain rfl := Option.some.inj (hp₁.symm.trans hp)
    exact ⟨ns, rfl, htype, hstage⟩
  | ended p₁ habsent => exact absurd rfl (habsent id o hin)

theorem Claims.apart {k : UInt32} (hclaims : σ.Claims k υ) (hne : k ≠ key) : Apart key σ υ := by
  have hsame := hclaims.same
  have htable (id : ObjectId) (o : IOObject) : υ.InTable id o ↔ σ.InTable id o :=
    ⟨fun hin => ⟨hsame.1 ▸ hin.heap, hsame.2.1 ▸ hin.slot⟩,
      fun hin => ⟨hsame.1 ▸ hin.heap, hsame.2.1 ▸ hin.slot⟩⟩
  cases hclaims with
  | @event event rest hqueue hkey =>
    refine ⟨fun e he => ?_, fun id o _ => htable id o, fun hout => hout⟩
    rw [hqueue, List.mem_cons, or_iff_right]
    rintro rfl
    exact hne (Option.some.inj (hkey.symm.trans he))
  | free hfree hzero =>
    rw [CNetwork.popKey, if_neg hzero] at htable ⊢
    exact ⟨fun _ _ => Iff.rfl, fun id o _ => htable id o, List.mem_cons_of_mem _⟩

/-- The protocol of a key that is claimed has heard nothing. -/
theorem Claims.unheard (hclaims : σ.Claims key υ) (h : σ.Inv) (hphase : σ.Phase key heard) :
    heard = [] := by
  cases hphase with
  | queued => rfl
  | @present id o p ns hin hkey =>
    subst hkey
    cases hclaims with
    | event hqueue hkey =>
      exact absurd rfl ((h.queued _ (hqueue ▸ List.mem_cons_self) _ hkey).2 id o hin.heap)
    | free hfree hne =>
      exact absurd rfl (hfree.resolve_left hne _ (h.held id o hin.heap).2.1)
  | ended p habsent hqueue hout =>
    cases hclaims with
    | event hqueue' hkey =>
      exact absurd (List.mem_filterMap.mpr ⟨_, hqueue' ▸ List.mem_cons_self, hkey⟩) hqueue
    | free hfree hne =>
      obtain rfl := hout.resolve_right fun hout => hfree.resolve_left hne _ hout rfl
      rfl

theorem Turn.hears (hturn : Turn force P σ τ) (hP : ∀ type p, P type p → p.type = type)
    (hphase : σ.Phase key heard) : Hears key heard σ τ := by
  have h := hturn.inv
  cases hturn.move with
  | @act id o o' p told hin hp hsame hact =>
    obtain ⟨p', hp', hkey, -⟩ := h.held_protocol hin.heap
    obtain rfl := Option.some.inj (hp'.symm.trans hp)
    by_cases heq : p'.key = key
    · subst heq
      rw [hkey] at hphase
      obtain ⟨ns, rfl, htype, hstage⟩ := hphase.of_inTable h hin hp
      refine Phase.hears_told ?_ rfl
      exact .present (hin.put hsame.key) (hsame.key.trans hkey.symm) (hsame.protocol.trans hp)
        (htype.trans hsame.type.symm) (hstage.act hsame hact)
    · exact (hphase.apart (apart_put hin.heap hsame.key (.inl (hkey ▸ heq)))).hears_ne told rfl heq
  | @exit id o o' p told hin hp hsame hend hout hstate hexit =>
    obtain ⟨p', hp', hkey, -⟩ := h.held_protocol hin.heap
    obtain rfl := Option.some.inj (hp'.symm.trans hp)
    by_cases heq : p'.key = key
    · subst heq
      rw [hkey] at hphase
      obtain ⟨ns, rfl, htype, hstage⟩ := hphase.of_inTable h hin hp
      refine Phase.hears_told ?_ rfl
      rw [hkey]
      refine .ended p' (fun id₁ o₁ hin₁ hkey₁ => ?_) (h.not_queued hin.heap)
        (.inr (h.held id o hin.heap).2.1) (htype ▸ hstage.exit hexit)
      obtain ⟨hne, hin₁⟩ := (inTable_removed_iff hin hsame.key).mp hin₁
      exact hne (hin.of_key hin₁ hkey₁).1
    · exact (hphase.apart (apart_removed hin hsame.key (hkey ▸ heq))).hears_ne told rfl heq
  | @absent id o hheap habsent timers =>
    have hapart : Apart key σ (σ.put id { o with timers }) := apart_put hheap rfl (.inr habsent)
    exact (hphase.apart hapart).hears rfl
  | @entry υ o p pool inTable told hclaims hp hkey hsilent hentry =>
    have hυ := hclaims.leads h
    have hfresh := hclaims.fresh h
    have hnotices : υ.notices = σ.notices := hclaims.same.2.2.2
    rw [← hkey] at hfresh
    by_cases heq : p.key = key
    · subst heq
      obtain rfl := hclaims.unheard h hphase
      refine Phase.hears_first told ?_ hnotices
      obtain ⟨htype, hstage, hover⟩ := hentry.stage hP
      cases inTable with
      | true =>
        exact .present ((inTable_added_iff hυ.inv hfresh).mpr (.inl ⟨rfl, rfl, rfl⟩)) hkey hp htype
          (hstage rfl)
      | false =>
        refine .ended p (fun id₁ o₁ hin₁ => ?_) (hkey ▸ hfresh.queue)
          (.inr (hkey ▸ hfresh.outstanding)) (htype ▸ hover rfl)
        have hin₁ := ((inTable_added_iff hυ.inv hfresh).mp hin₁).resolve_left (by simp)
        exact hkey ▸ hfresh.heap id₁ o₁ hin₁.heap
    · exact ((hphase.apart (hclaims.apart heq)).apart
        (apart_added hυ.inv hfresh (hkey ▸ heq))).hears_ne told hnotices heq
  | @refused υ p hclaims hp =>
    have hfresh := hclaims.fresh h
    have hnotices : υ.notices = σ.notices := hclaims.same.2.2.2
    by_cases heq : p.key = key
    · subst heq
      obtain rfl := hclaims.unheard h hphase
      refine Phase.hears_first (some (.onListen false)) ?_ hnotices
      refine .ended p (fun id₁ o₁ hin₁ => hfresh.heap id₁ o₁ hin₁.heap) hfresh.queue
        (.inr hfresh.outstanding) ?_
      rw [hP _ p hp]
      exact .inr (.inl rfl)
    · exact (hphase.apart (hclaims.apart heq)).hears_ne (some (.onListen false)) hnotices heq
  | @popKey k hfree =>
    unfold CNetwork.popKey
    split
    · exact hphase.hears rfl
    · have hapart : Apart key σ { σ with outstanding := k :: σ.outstanding } :=
        ⟨fun _ _ => Iff.rfl, fun id o _ => ⟨fun hin => ⟨hin.heap, hin.slot⟩,
          fun hin => ⟨hin.heap, hin.slot⟩⟩, List.mem_cons_of_mem _⟩
      exact (hphase.apart hapart).hears rfl
  | @popEvent event rest hqueue =>
    by_cases hkey : event.protocolKey = some key
    · have hclaims : σ.Claims key { σ with eventQueue := rest } := .event hqueue hkey
      obtain rfl := hclaims.unheard h hphase
      have hfresh := hclaims.fresh h
      have hover : Phase { σ with eventQueue := rest } key [] :=
        .over_nil (fun id₁ o₁ hin₁ => hfresh.heap id₁ o₁ hin₁.heap) hfresh.queue
      exact hover.hears rfl
    · have hapart : Apart key σ { σ with eventQueue := rest } := by
        refine ⟨fun e he => ?_, fun id o _ => ⟨fun hin => ⟨hin.heap, hin.slot⟩,
          fun hin => ⟨hin.heap, hin.slot⟩⟩, fun hout => hout⟩
        rw [hqueue, List.mem_cons, or_iff_right]
        rintro rfl
        exact hkey he
      exact (hphase.apart hapart).hears rfl

/-! ### Runs -/

theorem Hears.trans (h : Hears key heard σ τ)
    (h' : ∀ heard, τ.Phase key heard → Hears key heard τ υ) : Hears key heard σ υ := by
  obtain ⟨new, hnew, hphase⟩ := h
  obtain ⟨new', hnew', hphase'⟩ := h' _ hphase
  refine ⟨new ++ new', by rw [hnew', hnew, List.append_assoc], ?_⟩
  rwa [List.filter_append, ← List.append_assoc]

theorem Goes.hears (hgoes : Goes force P σ τ) (hP : ∀ type p, P type p → p.type = type)
    (hphase : σ.Phase key heard) : Hears key heard σ τ := by
  induction hgoes with
  | refl => exact hphase.hears rfl
  | tail _ hturn ih => exact ih.trans fun heard hphase => hturn.hears hP hphase

/-- The protocols of queued events are of the type that the events are for. -/
def Typed (σ : CNetwork) : Prop :=
  ∀ e ∈ σ.eventQueue, ∀ type p, Brought (some e) type p → p.type = type

omit [KeyPool] in
theorem brought_type {event : Option IOEvent} {type : EIOOBJECT_TYPE} (hevent : Brought event type p)
    (h : σ.Typed) (hmem : ∀ e ∈ event, e ∈ σ.eventQueue) : p.type = type := by
  cases event with
  | none => rcases hevent with ⟨_, hnone, -⟩ | ⟨_, hnone, -⟩ <;> cases hnone
  | some e => exact h e (hmem e rfl) type p hevent

omit [KeyPool] in
theorem Typed.takes {a : Action} {type : EIOOBJECT_TYPE} (h : σ.Typed) (htakes : σ.Takes a type p) :
    p.type = type := by
  cases a with
  | dispatch ans => exact brought_type htakes h fun e he => List.mem_of_head? he
  | _ => exact htakes.elim

/-- A step that does not return the key tells its protocol what goes with the phase of the key. -/
theorem step_hears {a : Action} (h : σ.Inv) (htyped : σ.Typed) (hstep : σ.Step a τ)
    (hkept : a ≠ .pushKey key) (hphase : σ.Phase key heard) : Hears key heard σ τ := by
  obtain ⟨hpre, hexec⟩ := hstep
  have hruns (hruns : Action.Runs a) : Hears key heard σ τ := by
    have hproceeds := exec_proceeds h hpre hruns
    rw [hexec] at hproceeds
    obtain ⟨υ, hforced, hgentle⟩ := hproceeds
    have hP : ∀ type p, σ.Takes a type p → p.type = type := fun _ _ => htyped.takes
    exact (hforced.hears hP hphase).trans fun heard hphase => hgentle.hears hP hphase
  -- `listen` and `connect`
  have hopens (event : IOEvent) (k : UInt32) (hevent : event.protocolKey = some k)
      (hfree : σ.Free k) (hτ : τ = if k = 0 then σ else (σ.popKey k).pushEvent event) :
      Hears key heard σ τ := by
    subst hτ
    split
    · exact hphase.hears rfl
    next hzero =>
    rw [CNetwork.popKey, if_neg hzero]
    by_cases hkey : k = key
    · subst hkey
      have hclaims : σ.Claims k (σ.popKey k) := .free hfree hzero
      obtain rfl := hclaims.unheard h hphase
      have hqueued : Phase (pushEvent { σ with outstanding := k :: σ.outstanding } event) k [] :=
        .queued (List.mem_append_right _ (List.mem_singleton.mpr rfl)) hevent
      exact hqueued.hears rfl
    · have hapart : Apart key σ (pushEvent { σ with outstanding := k :: σ.outstanding } event) := by
        refine ⟨fun e he => ?_, fun id o _ => ⟨fun hin => ⟨hin.heap, hin.slot⟩,
          fun hin => ⟨hin.heap, hin.slot⟩⟩, List.mem_cons_of_mem _⟩
        rw [pushEvent, List.mem_append, List.mem_singleton, or_iff_left]
        rintro rfl
        exact hkey (Option.some.inj (hevent.symm.trans he))
      exact (hphase.apart hapart).hears rfl
  have hsame (hqueue : ∀ e, e.protocolKey = some key → (e ∈ τ.eventQueue ↔ e ∈ σ.eventQueue))
      (htable : ∀ id o, τ.InTable id o ↔ σ.InTable id o)
      (hout : key ∈ σ.outstanding → key ∈ τ.outstanding) (hnotices : τ.notices = σ.notices) :
      Hears key heard σ τ :=
    (hphase.apart ⟨hqueue, fun id o _ => htable id o, hout⟩).hears hnotices
  cases a with
  | listen port id protocolType group k =>
    exact hopens (.listen port ⟨id, protocolType, .LISTENER, k, group⟩) k rfl hpre
      (Except.ok.inj hexec).symm
  | connect address id protocolType group k =>
    exact hopens (.connect address ⟨id, protocolType, .CONNECTOR, k, group⟩) k rfl hpre
      (Except.ok.inj hexec).symm
  | push event =>
    obtain rfl := Except.ok.inj hexec
    refine hsame (fun e he => ?_) (fun id o => ⟨fun hin => ⟨hin.heap, hin.slot⟩,
      fun hin => ⟨hin.heap, hin.slot⟩⟩) (fun hout => hout) rfl
    rw [pushEvent, List.mem_append, List.mem_singleton, or_iff_left]
    rintro rfl
    rw [show e.protocolKey = none from hpre] at he
    cases he
  | pushKey k =>
    obtain rfl := Except.ok.inj hexec
    refine hsame (fun _ _ => Iff.rfl) (fun id o => ⟨fun hin => ⟨hin.heap, hin.slot⟩,
      fun hin => ⟨hin.heap, hin.slot⟩⟩) (fun hout => ?_) rfl
    exact (List.mem_erase_of_ne fun hkey => hkept (congrArg _ hkey.symm)).mpr hout
  | recycle object =>
    obtain rfl := Except.ok.inj hexec
    unfold recycle
    split
    · next o₁ hheap =>
      have hne {id : ObjectId} {i : Nat} (hslot : σ.objects i = some id) : id ≠ object := by
        rintro rfl
        exact hpre i hslot
      have hapart : Apart key σ { σ with
          heap := Function.update σ.heap object none, pool := o₁.onRecycle :: σ.pool } :=
        ⟨fun _ _ => Iff.rfl, fun id o _ =>
          ⟨fun hin => ⟨(Function.update_of_ne (hne hin.slot) ..).symm.trans hin.heap, hin.slot⟩,
            fun hin => ⟨(Function.update_of_ne (hne hin.slot) ..).trans hin.heap, hin.slot⟩⟩,
          fun hout => hout⟩
      exact (hphase.apart hapart).hears rfl
    · exact hphase.hears rfl
  | dispatch ans => exact hruns trivial
  | poll k event ans => exact hruns trivial
  | fire con timer ans => exact hruns trivial

omit [KeyPool] in
theorem Typed.queue (h : σ.Typed) (hqueue : ∀ e ∈ τ.eventQueue, e ∈ σ.eventQueue) : τ.Typed :=
  fun e he => h e (hqueue e he)

omit [KeyPool] in
theorem tell_eventQueue : (σ.tell p told).eventQueue = σ.eventQueue := by
  cases told with
  | some notice => rfl
  | none => rfl

omit [KeyPool] in
theorem popKey_eventQueue : (σ.popKey key).eventQueue = σ.eventQueue := by
  unfold CNetwork.popKey
  split
  · rfl
  · rfl

theorem Claims.queue (hclaims : σ.Claims key υ) : ∀ e ∈ υ.eventQueue, e ∈ σ.eventQueue := by
  cases hclaims with
  | event hqueue => exact fun e he => hqueue ▸ List.mem_cons_of_mem _ he
  | free hfree hne => exact fun e he => popKey_eventQueue (σ := σ) ▸ he

theorem Turn.queue (hturn : Turn force P σ τ) : ∀ e ∈ τ.eventQueue, e ∈ σ.eventQueue := by
  cases hturn.move with
  | act hin hp hsame hact => exact fun e he => tell_eventQueue (σ := σ.put _ _) ▸ he
  | exit hin hp hsame hend hout hstate hexit =>
    exact fun e he => tell_eventQueue (σ := σ.removed _ _) ▸ he
  | absent hheap habsent timers => exact fun e he => he
  | @entry υ o p pool inTable told hclaims =>
    exact fun e he => hclaims.queue e (tell_eventQueue (σ := υ.added o pool inTable) ▸ he)
  | refused hclaims hp => exact hclaims.queue
  | popKey hfree => exact fun e he => popKey_eventQueue (σ := σ) ▸ he
  | popEvent hqueue => exact fun e he => hqueue ▸ List.mem_cons_of_mem _ he

theorem Goes.queue (hgoes : Goes force P σ τ) : ∀ e ∈ τ.eventQueue, e ∈ σ.eventQueue := by
  induction hgoes with
  | refl => exact fun _ he => he
  | tail _ hturn ih => exact fun e he => ih e (hturn.queue e he)

omit [KeyPool] in
theorem Typed.pushEvent (h : σ.Typed) {event : IOEvent}
    (hevent : ∀ type p, Brought (some event) type p → p.type = type) :
    (σ.pushEvent event).Typed := by
  intro e he
  rcases List.mem_append.mp he with he | he
  · exact h e he
  · obtain rfl := List.mem_singleton.mp he
    exact hevent

theorem step_typed {a : Action} (h : σ.Inv) (htyped : σ.Typed) (hstep : σ.Step a τ) : τ.Typed := by
  obtain ⟨hpre, hexec⟩ := hstep
  have hruns (hruns : Action.Runs a) : τ.Typed := by
    have hproceeds := exec_proceeds h hpre hruns
    rw [hexec] at hproceeds
    obtain ⟨υ, hforced, hgentle⟩ := hproceeds
    exact (htyped.queue hforced.queue).queue hgentle.queue
  cases a with
  | listen port id protocolType group k =>
    obtain rfl := Except.ok.inj hexec
    unfold listen
    split
    · exact htyped
    · refine (htyped.queue (τ := σ.popKey k) fun e he => popKey_eventQueue (σ := σ) ▸ he).pushEvent ?_
      rintro type p (⟨port, hevent, rfl⟩ | ⟨address, hevent, -⟩)
      · cases hevent
        rfl
      · cases hevent
  | connect address id protocolType group k =>
    obtain rfl := Except.ok.inj hexec
    unfold connect
    split
    · exact htyped
    · refine (htyped.queue (τ := σ.popKey k) fun e he => popKey_eventQueue (σ := σ) ▸ he).pushEvent ?_
      rintro type p (⟨port, hevent, -⟩ | ⟨address, hevent, rfl⟩)
      · cases hevent
      · cases hevent
        rfl
  | push event =>
    obtain rfl := Except.ok.inj hexec
    refine htyped.pushEvent ?_
    have hnone : event.protocolKey = none := hpre
    rintro type p (⟨port, hevent, -⟩ | ⟨address, hevent, -⟩)
    · cases hevent
      cases hnone
    · cases hevent
      cases hnone
  | pushKey k =>
    obtain rfl := Except.ok.inj hexec
    exact htyped.queue fun e he => he
  | recycle object =>
    obtain rfl := Except.ok.inj hexec
    unfold recycle
    split
    · exact htyped.queue fun e he => he
    · exact htyped
  | dispatch ans => exact hruns trivial
  | poll k event ans => exact hruns trivial
  | fire con timer ans => exact hruns trivial

theorem typed_run {as : List Action} (run : Run Step empty as σ) : σ.Inv ∧ σ.Typed := by
  refine run.invariant (fun σ => σ.Inv ∧ σ.Typed) (fun σ a τ h hstep => ?_)
    ⟨inv_empty, fun e he => by cases he⟩
  have hout := exec_outcome h.1 hstep.1
  rw [hstep.2] at hout
  exact ⟨hout, step_typed h.1 h.2 hstep⟩

/-- A key that is not taken has no object and no event. -/
theorem Inv.phase_of_free (h : σ.Inv) (hkey : key ∉ σ.outstanding) : σ.Phase key [] := by
  refine .over_nil (fun id o hin => ?_) fun hmem => ?_
  · rintro rfl
    exact hkey (h.held id o hin.heap).2.1
  · obtain ⟨e, he, hk⟩ := List.mem_filterMap.mp hmem
    exact hkey (h.queued e he key hk).1

theorem hears_run {as bs : List Action} (run : Run Step empty as σ) (run' : Run Step σ bs τ)
    (hkept : .pushKey key ∉ bs) (hphase : σ.Phase key heard) : Hears key heard σ τ := by
  induction run' with
  | nil => exact hphase.hears rfl
  | @snoc bs τ υ a hprev hstep ih =>
    rw [List.mem_append, not_or, List.mem_singleton] at hkept
    obtain ⟨h, htyped⟩ := typed_run (run.append hprev)
    exact (ih hkept.1).trans fun heard hphase =>
      step_hears h htyped hstep (fun heq => hkept.2 heq.symm) hphase

/-- What was told between `σ` and `τ` to protocols with the key. -/
def notified (σ τ : CNetwork) (key : UInt32) : List (IOProtocol × Notice) :=
  (τ.notices.drop σ.notices.length).filter fun call => call.1.key = key

/-- From when a key is free until it is returned, one protocol is told about it, and what it has heard
has the pattern of its type.  If there is an object in the table, that is the protocol's, and it has
heard what an object of this type and state has.  If it has heard of a connection, and there is no
object in the table any more, it has heard that the connection has gone. -/
theorem heard_pattern {as bs : List Action} (run : Run Step empty as σ) (hkey : key ∉ σ.outstanding)
    (run' : Run Step σ bs τ) (hkept : .pushKey key ∉ bs) :
    ∃ p ns, σ.notified τ key = ns.map (p, ·) ∧ Pattern p.type ns ∧
      (∀ id o, τ.InTable id o → o.key = key → o.protocol = some p ∧ Stage o.type o.state ns) ∧
      (τ.getObject key = none → (∃ n ∈ ns, n.Opens) → ∃ n ∈ ns, n.Ends) := by
  obtain ⟨h, -⟩ := typed_run run
  obtain ⟨h', -⟩ := typed_run (run.append run')
  obtain ⟨new, hnew, hphase⟩ := hears_run run run' hkept (h.phase_of_free hkey)
  have hheard : σ.notified τ key = new.filter fun call => call.1.key = key := by
    rw [notified, hnew, List.drop_left]
  rw [List.nil_append, ← hheard] at hphase
  generalize σ.notified τ key = heard at hphase
  cases hphase with
  | queued he hk =>
    refine ⟨⟨0, .TCP, .SESSION, key, 0⟩, [], rfl, (over_nil _).pattern, fun id o hin hkey => ?_,
      by simp⟩
    exact absurd hkey ((h'.queued _ he key hk).2 id o hin.heap)
  | @present id o p ns hin hkey hp htype hstage =>
    refine ⟨p, ns, rfl, htype ▸ hstage.pattern, fun id' o' hin' hkey' => ?_, fun hnone => ?_⟩
    · obtain rfl := h'.unique id' id o' o hin'.heap hin.heap (hkey'.trans hkey.symm)
      obtain rfl := Option.some.inj (hin'.heap.symm.trans hin.heap)
      exact ⟨hp, hstage⟩
    · rw [← hkey, getObject_eq hin] at hnone
      cases hnone
  | @ended p ns habsent hqueue hout hover =>
    exact ⟨p, ns, rfl, hover.pattern, fun id o hin hkey => absurd hkey (habsent id o hin),
      fun _ => hover.ended⟩

end

/-- A connector fails to connect once, and then connects, and a listener listens and is closed. -/
theorem heard_pattern_connected :
    ∃ bs τ p ns q ms, Run (@Step .lowBits) empty bs τ ∧
      empty.notified τ 5 = ns.map (p, ·) ∧ ns = [.onConnect false, .onConnect true] ∧
      Pattern p.type ns ∧
      (∃ id o, @InTable .lowBits τ id o ∧ o.key = 5 ∧ o.protocol = some p ∧
        Stage o.type o.state ns) ∧
      empty.notified τ 6 = ms.map (q, ·) ∧ ms = [.onListen true, .onUnlisten] ∧
      Pattern q.type ms := by
  let _ := KeyPool.lowBits
  let peer : CAddress := ⟨1, 80⟩
  have hquiet {σ : CNetwork} {ans : Answers} (hserialize : ans.onSerialize = none)
      (hdata : σ.eventQueue.head?.bind IOEvent.dataKey = none) : σ.Pre (.dispatch ans) :=
    ⟨by simp [WriteFits, hserialize], by simp [hdata]⟩
  have hset {σ : CNetwork} {timer : Timer} (h : (σ.heap 0).map (·.timers) = some [timer]) :
      ∃ o, σ.heap 0 = some o ∧ timer ∈ o.timers := by
    obtain ⟨o, hheap, htimers⟩ := Option.map_eq_some_iff.mp h
    exact ⟨o, hheap, by simp [htimers]⟩
  have h1 := Run.nil.snoc (step_next empty (a := .connect peer 0 .TCP 0 5)
    (.inr (by rintro _ ⟨⟩)) rfl)
  have h2 := h1.snoc (step_next _ (a := .dispatch { socket := 3 })
    (hquiet rfl (by decide +kernel)) (by decide +kernel))
  have h3 := h2.snoc (step_next _ (a := .poll 5 { err := true } {})
    ⟨.inl rfl, by unfold Found; decide +kernel⟩ (by decide +kernel))
  have h4 := h3.snoc (step_next _ (a := .fire 0 (.reconnect peer) { socket := 4 })
    (hset (by decide +kernel)) (by decide +kernel))
  have h5 := h4.snoc (step_next _ (a := .poll 5 { writable := true }
      { localName := some ⟨2, 81⟩, remoteName := some peer, remoteNameAgain := some peer })
    ⟨.inl rfl, by unfold Found; decide +kernel⟩ (by decide +kernel))
  have h6 := h5.snoc (step_next _ (a := .listen 82 1 .TCP 0 6)
    (free_of_outstanding [5] (by decide +kernel) (by simp; decide)) (by decide +kernel))
  have h7 := h6.snoc (step_next _ (a := .dispatch { socket := 5 })
    (hquiet rfl (by decide +kernel)) (by decide +kernel))
  have h8 := h7.snoc (step_next _ (a := .push (.close 6)) rfl (by decide +kernel))
  have h9 := h8.snoc (step_next _ (a := .dispatch {})
    (hquiet rfl (by decide +kernel)) (by decide +kernel))
  obtain ⟨p, ns, hheard, hpattern, hstage, -⟩ :=
    heard_pattern .nil (show 5 ∉ empty.outstanding by decide) h9 (by simp)
  obtain ⟨q, ms, hheard', hpattern', -⟩ :=
    heard_pattern .nil (show 6 ∉ empty.outstanding by decide) h9 (by simp)
  -- what was told, without the protocol that it was told to
  have told {τ : CNetwork} {key : UInt32} {p : IOProtocol} {ns : List Notice}
      (h : empty.notified τ key = ns.map (p, ·)) :
      ns = List.map Prod.snd (empty.notified τ key) := by
    rw [h, List.map_map]
    exact (List.map_id ns).symm
  have present {τ : CNetwork} {p : IOProtocol} {ns : List Notice}
      (hstage : ∀ id o, τ.InTable id o → o.key = 5 → o.protocol = some p ∧ Stage o.type o.state ns)
      (h : (τ.heap 0).map (·.key) = some 5) (hslot : τ.objects (KeyPool.index 5) = some 0) :
      ∃ id o, τ.InTable id o ∧ o.key = 5 ∧ o.protocol = some p ∧ Stage o.type o.state ns := by
    obtain ⟨o, hheap, hkey⟩ := Option.map_eq_some_iff.mp h
    have hin : τ.InTable 0 o := ⟨hheap, hkey ▸ hslot⟩
    exact ⟨0, o, hin, hkey, hstage 0 o hin hkey⟩
  exact ⟨_, _, p, ns, q, ms, h9, hheard, (told hheard).trans (by decide +kernel), hpattern,
    present hstage (by decide +kernel) (by decide +kernel), hheard',
    (told hheard').trans (by decide +kernel), hpattern'⟩

end CNetwork

end ZlNet.Network
