import ZlNet.Network.Proof.Steady
import ZlNet.Network.Proof.Upheld

/-! Keys that are on their way out.  Once the network thread has handled a close for a key, what is left
under it is at most a connection that is disconnecting, and it stays so until the key is returned. -/

namespace ZlNet.Network

open Lib IOObject

/-- A connection that is disconnecting does nothing else. -/
theorem IOObject.Act.disconnecting {force : Bool} {o o' : IOObject} {told : Option Notice}
    (h : Act force o o' told) (hstate : o.state = .DISCONNECTING) : o'.state = .DISCONNECTING := by
  cases h with
  | keeps hsame => exact hsame.trans hstate
  | sends hsame => exact hsame.trans hstate
  | flushes _ _ _ hstate' => exact hstate'
  | disconnects _ _ _ hstate' => exact hstate'
  | fails _ hother => exact absurd (hother.symm.trans hstate) (by decide)
  | connects _ hother => exact absurd (hother.symm.trans hstate) (by decide)
  | retries _ hother => exact absurd (hother.symm.trans hstate) (by decide)

namespace CNetwork

variable [KeyPool] {σ τ υ : CNetwork} {id : ObjectId} {o o' : IOObject} {p : IOProtocol}
  {key : UInt32} {heard : List (IOProtocol × Notice)} {force : Bool} {P : EIOOBJECT_TYPE → IOProtocol → Prop} {told : Option Notice}
  {allowed : Fault → Prop}

/-- What is in the table under the key is disconnecting. -/
def Closing (σ : CNetwork) (key : UInt32) : Prop :=
  ∀ id o, σ.InTable id o → o.key = key → o.type ≠ .LISTENER ∧ o.state = .DISCONNECTING

/-- Besides, nothing is queued that would bring the key again. -/
structure Parting (σ : CNetwork) (key : UInt32) : Prop where
  taken : key ∈ σ.outstanding
  queue : key ∉ σ.eventQueue.filterMap IOEvent.protocolKey
  closing : σ.Closing key

/-! ### It stays so -/

theorem Parting.apart (h : σ.Parting key) (hapart : Apart key σ τ) : τ.Parting key where
  taken := hapart.outstanding h.taken
  queue hmem := by
    obtain ⟨e, he, hkey⟩ := List.mem_filterMap.mp hmem
    exact h.queue (List.mem_filterMap.mpr ⟨e, (hapart.queue e hkey).mp he, hkey⟩)
  closing id o hin hkey := h.closing id o ((hapart.table id o hkey).mp hin) hkey

theorem closing_removed (hin : σ.InTable id o) (hsame : Same o o') :
    (σ.removed id o').Closing o.key := by
  intro id₁ o₁ hin₁ hkey₁
  obtain ⟨hne, hin₁⟩ := (inTable_removed_iff hin hsame.key).mp hin₁
  exact absurd (hin.of_key hin₁ hkey₁).1 hne

theorem closing_put (hin : σ.InTable id o) (hsame : Same o o') (htype : o.type ≠ .LISTENER)
    (hstate : o'.state = .DISCONNECTING) : (σ.put id o').Closing o.key := by
  intro id₁ o₁ hin₁ hkey₁
  obtain ⟨-, rfl⟩ := (hin.put hsame.key).of_key hin₁ (hkey₁.trans hsame.key.symm)
  exact ⟨hsame.type ▸ htype, hstate⟩

theorem Closing.tell (h : σ.Closing key) : (σ.tell p told).Closing key := by
  intro id o hin hkey
  have hapart : Apart key σ (σ.tell p told) := apart_tell
  exact h id o ((hapart.table id o hkey).mp hin) hkey

/-- A key that is taken and not queued is claimed by nobody. -/
theorem Parting.unclaimed (h : σ.Parting key) {k : UInt32} (hclaims : σ.Claims k υ) : k ≠ key := by
  rintro rfl
  cases hclaims with
  | event hqueue hkey =>
    exact h.queue (List.mem_filterMap.mpr ⟨_, hqueue ▸ List.mem_cons_self, hkey⟩)
  | free hfree hne => exact hfree.resolve_left hne _ h.taken rfl

theorem Turn.parting (hturn : Turn force P σ τ) (hparting : σ.Parting key) : τ.Parting key := by
  have h := hturn.inv
  cases hturn.move with
  | @act id o o' p told hin hp hsame hact =>
    by_cases heq : o.key = key
    · subst heq
      obtain ⟨htype, hstate⟩ := hparting.closing id o hin rfl
      have hclosing := closing_put hin hsame htype (hact.disconnecting hstate)
      have hput : (σ.put id o').Parting o.key := ⟨hparting.taken, hparting.queue, hclosing⟩
      exact hput.apart apart_tell
    · exact (hparting.apart (apart_put hin.heap hsame.key (.inl heq))).apart apart_tell
  | @exit id o o' p told hin hp hsame =>
    by_cases heq : o.key = key
    · subst heq
      have hremoved : (σ.removed id o').Parting o.key :=
        ⟨hparting.taken, hparting.queue, closing_removed hin hsame⟩
      exact hremoved.apart apart_tell
    · exact (hparting.apart (apart_removed hin hsame.key heq)).apart apart_tell
  | @absent id o hheap habsent timers => exact hparting.apart (apart_put hheap rfl (.inr habsent))
  | @entry υ o p pool inTable told hclaims hp hkey =>
    have hne := hparting.unclaimed hclaims
    have hfresh := hclaims.fresh h
    rw [← hkey] at hfresh
    have hadded : Apart key υ (υ.added o pool inTable) :=
      apart_added (hclaims.leads h).inv hfresh (hkey ▸ hne)
    exact ((hparting.apart (hclaims.apart hne)).apart hadded).apart apart_tell
  | @refused υ p hclaims hp =>
    have hapart : Apart key υ (υ.tell p (some (.onListen false))) := apart_tell
    exact (hparting.apart (hclaims.apart (hparting.unclaimed hclaims))).apart hapart
  | @popKey k hfree =>
    unfold CNetwork.popKey
    split
    · exact hparting
    · exact hparting.apart ⟨fun _ _ => Iff.rfl, fun id o _ => ⟨fun hin => ⟨hin.heap, hin.slot⟩,
        fun hin => ⟨hin.heap, hin.slot⟩⟩, List.mem_cons_of_mem _⟩
  | @popEvent event rest hqueue =>
    refine ⟨hparting.taken, fun hmem => hparting.queue ?_, fun id o hin =>
      hparting.closing id o ⟨hin.heap, hin.slot⟩⟩
    rw [hqueue]
    exact (List.sublist_cons_self event rest).filterMap _ |>.subset hmem

theorem Goes.parting (hgoes : Goes force P σ τ) (hparting : σ.Parting key) : τ.Parting key := by
  induction hgoes with
  | refl => exact hparting
  | tail _ hturn ih => exact hturn.parting ih

/-- Every step keeps it, until the key is returned. -/
theorem step_parting {a : Action} (h : σ.Inv) (hstep : σ.Step a τ) (hkept : a ≠ .pushKey key)
    (hparting : σ.Parting key) : τ.Parting key := by
  obtain ⟨hpre, hexec⟩ := hstep
  have hruns (hruns : Action.Runs a) : τ.Parting key := by
    have hproceeds := exec_proceeds h hpre hruns
    rw [hexec] at hproceeds
    obtain ⟨υ, hforced, hgentle⟩ := hproceeds
    exact hgentle.parting (hforced.parting hparting)
  have htable (hheap : τ.heap = σ.heap) (hobjects : τ.objects = σ.objects) (id : ObjectId)
      (o : IOObject) : τ.InTable id o ↔ σ.InTable id o :=
    ⟨fun hin => ⟨hheap ▸ hin.heap, hobjects ▸ hin.slot⟩,
      fun hin => ⟨hheap ▸ hin.heap, hobjects ▸ hin.slot⟩⟩
  have hpush (event : IOEvent) (hevent : event.protocolKey ≠ some key) (e : IOEvent)
      (he : e.protocolKey = some key) : e ∈ σ.eventQueue ++ [event] ↔ e ∈ σ.eventQueue := by
    rw [List.mem_append, List.mem_singleton, or_iff_left]
    rintro rfl
    exact hevent he
  have hopens (event : IOEvent) (k : UInt32) (hevent : event.protocolKey = some k)
      (hfree : σ.Free k) (hτ : τ = if k = 0 then σ else (σ.popKey k).pushEvent event) :
      τ.Parting key := by
    subst hτ
    split
    · exact hparting
    next hzero =>
    have hne : event.protocolKey ≠ some key := by
      intro hkey
      obtain rfl := Option.some.inj (hevent.symm.trans hkey)
      exact hparting.unclaimed (.free hfree hzero) rfl
    rw [CNetwork.popKey, if_neg hzero]
    exact hparting.apart ⟨hpush event hne, fun id o _ => ⟨fun hin => ⟨hin.heap, hin.slot⟩,
      fun hin => ⟨hin.heap, hin.slot⟩⟩, List.mem_cons_of_mem _⟩
  cases a with
  | listen port id protocolType group k =>
    exact hopens (.listen port ⟨id, protocolType, .LISTENER, k, group⟩) k rfl hpre
      (Except.ok.inj hexec).symm
  | connect address id protocolType group k =>
    exact hopens (.connect address ⟨id, protocolType, .CONNECTOR, k, group⟩) k rfl hpre
      (Except.ok.inj hexec).symm
  | push event =>
    obtain rfl := Except.ok.inj hexec
    have hevent : event.protocolKey ≠ some key := by simp [show event.protocolKey = none from hpre]
    exact hparting.apart ⟨hpush event hevent, fun id o _ => htable rfl rfl id o, id⟩
  | pushKey k =>
    obtain rfl := Except.ok.inj hexec
    refine hparting.apart ⟨fun _ _ => Iff.rfl, fun id o _ => htable rfl rfl id o, fun hout => ?_⟩
    exact (List.mem_erase_of_ne fun hkey => hkept (congrArg _ hkey.symm)).mpr hout
  | recycle object =>
    obtain rfl := Except.ok.inj hexec
    unfold recycle
    split
    · next o₁ hheap =>
      have hne {id : ObjectId} {i : Nat} (hslot : σ.objects i = some id) : id ≠ object := by
        rintro rfl
        exact hpre i hslot
      refine hparting.apart ⟨fun _ _ => Iff.rfl, fun id o _ => ⟨fun hin => ?_, fun hin => ?_⟩, id⟩
      · exact ⟨(Function.update_of_ne (hne hin.slot) ..).symm.trans hin.heap, hin.slot⟩
      · exact ⟨(Function.update_of_ne (hne hin.slot) ..).trans hin.heap, hin.slot⟩
    · exact hparting
  | dispatch ans => exact hruns trivial
  | poll k event ans => exact hruns trivial
  | fire con timer ans => exact hruns trivial

/-! ### A close begins it -/

theorem tcpCloseListen_closing (hin : σ.InTable id o) (hp : o.protocol = some p) :
    Outcome allowed (Closing · o.key) (σ.tcpCloseListen id) := by
  simp only [tcpCloseListen, get_eq hin.heap, ok_bind, notifyProtocol_eq hp]
  let o' : IOObject := { o with events := 0 }
  have hin' : ((σ.notify p .onUnlisten).put id o').InTable id o' :=
    ⟨put_heap_self _ id o', hin.slot⟩
  simp only [removeTcpListen, get_eq (hin.notify p .onUnlisten).heap, ok_bind]
  rw [deregisterObject, removeObject_eq hin']
  exact closing_removed (hin.notify p .onUnlisten) ⟨rfl, rfl, rfl⟩

theorem removeTcpCon_closing (hin : σ.InTable id o) :
    Outcome allowed (Closing · o.key) (σ.removeTcpCon id) := by
  rw [removeTcpCon_eq hin]
  exact closing_removed hin ⟨rfl, rfl, rfl⟩

theorem startDisconnecting_closing (hin : σ.InTable id o) (hest : o.Established) :
    Outcome allowed (Closing · o.key) (σ.startDisconnecting id) := by
  obtain ⟨endPoint, hend⟩ := Option.isSome_iff_exists.mp hest.endPoint
  have htype : o.type ≠ .LISTENER := by
    intro htype
    simpa [isConnection, htype] using hest.type
  simp only [startDisconnecting, get_eq hin.heap, ok_bind, hend, nonNull_some]
  split
  · exact closing_put hin ⟨rfl, rfl, rfl⟩ htype rfl
  · exact closing_put hin ⟨rfl, rfl, rfl⟩ htype rfl

theorem close_established_closing (hin : σ.InTable id o) (hp : o.protocol = some p)
    (hest : o.Established) (notice : Notice) :
    Outcome allowed (Closing · o.key) (do
      let σ ← if o.state = .CONNECTED then σ.notifyProtocol o notice else pure σ
      if false then σ.removeTcpCon id
      else if o.state = .DISCONNECTING then return σ else σ.startDisconnecting id) := by
  rcases hest.state_cases with hstate | hstate
  · rw [if_pos hstate, notifyProtocol_eq hp, ok_bind]
    dsimp only
    rw [if_neg (by decide), if_neg (by simp [hstate] : o.state ≠ .DISCONNECTING)]
    exact startDisconnecting_closing (hin.notify p notice) hest
  · rw [if_neg (by simp [hstate]), pure_bind]
    dsimp only
    rw [if_neg (by decide), if_pos hstate]
    intro id₁ o₁ hin₁ hkey₁
    obtain ⟨-, rfl⟩ := hin.of_key hin₁ hkey₁
    refine ⟨fun htype => ?_, hstate⟩
    simpa [isConnection, htype] using hest.type

theorem close_closing (h : σ.Inv) (key : UInt32) :
    Outcome allowed (Closing · key) (σ._close key) := by
  unfold _close
  split
  · next object hget =>
    obtain ⟨o, hin, rfl⟩ := h.inTable_of_getObject hget
    obtain ⟨p, hp, htcp⟩ := h.held_eq hin
    simp only [get_eq hin.heap, ok_bind, hp, nonNull_some, htcp, tcpClose, hget]
    cases h.settled hin with
    | listening hl => simpa only [hl.type] using tcpCloseListen_closing hin hp
    | attempting ha =>
      have hstate : o.state = .DISCONNECTED ∨ o.state = .CONNECTING :=
        (ha.phase.imp And.left And.left).symm
      simp only [ha.type, tcpCloseConnector, get_eq hin.heap, ok_bind, require_of_true]
      rw [if_pos hstate, notifyProtocol_eq hp, ok_bind]
      exact removeTcpCon_closing (hin.notify p (.onConnect false))
    | established hest =>
      have hne : ¬(o.state = .DISCONNECTED ∨ o.state = .CONNECTING) := by
        rcases hest.state_cases with hstate | hstate <;> simp [hstate]
      obtain htype | htype : o.type = .CONNECTOR ∨ o.type = .SESSION := by
        simpa [isConnection] using hest.type
      · simp only [htype, tcpCloseConnector, get_eq hin.heap, ok_bind, require_of_true]
        rw [if_neg hne]
        exact close_established_closing hin hp hest .onDisConnect
      · simp only [htype, tcpCloseConnection, get_eq hin.heap, ok_bind, require_of_true]
        have hne' : o.state ≠ .DISCONNECTED := fun hstate => hne (.inl hstate)
        rw [require_of_true hne', ok_bind]
        exact close_established_closing hin hp hest .onClose
  · next hnone =>
    intro id o hin hkey
    rw [← hkey, getObject_eq hin] at hnone
    cases hnone

/-- Handling a close that nothing of its key is queued behind. -/
theorem dispatch_parting {ans : Answers} {rest : List IOEvent} (h : σ.Inv)
    (htaken : key ∈ σ.outstanding) (hqueue : σ.eventQueue = .close key :: rest)
    (hrest : key ∉ rest.filterMap IOEvent.protocolKey) (hexec : σ.dispatch ans = .ok τ) :
    τ.Parting key := by
  have hsteady : Steady [] { σ with eventQueue := σ.eventQueue.tail } τ := by
    have hstays : { σ with eventQueue := σ.eventQueue.tail }.Stays (σ.dispatch ans) := dispatch_stays
    rwa [hexec] at hstays
  have hclosing : Outcome (fun _ => True) (Closing · key)
      ({ σ with eventQueue := rest }._close key) := close_closing (h.popEvent hqueue).1.inv key
  rw [dispatch, hqueue] at hexec
  change { σ with eventQueue := rest }._close key = .ok τ at hexec
  rw [hexec] at hclosing
  refine ⟨hsteady.outstanding key htaken, ?_, hclosing⟩
  rwa [hsteady.queue, hqueue]

/-! ### Keys that are let go -/

theorem Phase.parting (h : σ.Phase key heard) (hinv : σ.Inv) (htaken : key ∈ σ.outstanding)
    (hstop : ∃ call ∈ heard, call.2.Stops) : σ.Parting key := by
  obtain ⟨call, hcall, hstop⟩ := hstop
  cases h with
  | queued => cases hcall
  | @present id o p ns hin hkey hp htype hstage =>
    obtain ⟨n, hn, rfl⟩ := List.mem_map.mp hcall
    refine ⟨htaken, hkey ▸ hinv.not_queued hin.heap, fun id' o' hin' hkey' => ?_⟩
    obtain ⟨-, rfl⟩ := hin.of_key hin' (hkey'.trans hkey.symm)
    exact hstage.stopped ⟨n, hn, hstop⟩
  | ended p habsent hqueue hout hover =>
    exact ⟨htaken, hqueue, fun id o hin hkey => absurd hkey (habsent id o hin)⟩

/-- The key is parting, or a close for it is queued with nothing behind it that would bring the key
again. -/
def Leaving (σ : CNetwork) (key : UInt32) : Prop :=
  σ.Parting key ∨ key ∈ σ.outstanding ∧ ∃ front back,
    σ.eventQueue = front ++ .close key :: back ∧ key ∉ back.filterMap IOEvent.protocolKey

/-- What is pushed does not bring the key. -/
theorem leaving_push {event : IOEvent} {front back : List IOEvent}
    (hevent : event.protocolKey ≠ some key) (htaken : key ∈ τ.outstanding)
    (hqueue : τ.eventQueue = front ++ .close key :: back ++ [event])
    (hback : key ∉ back.filterMap IOEvent.protocolKey) : τ.Leaving key := by
  refine .inr ⟨htaken, front, back ++ [event], by rw [hqueue]; simp, ?_⟩
  rw [List.filterMap_append, List.mem_append, not_or]
  refine ⟨hback, fun hmem => ?_⟩
  obtain ⟨e, he, hkey⟩ := List.mem_filterMap.mp hmem
  obtain rfl := List.mem_singleton.mp he
  exact hevent hkey

theorem step_leaving {a : Action} (h : σ.Inv) (hstep : σ.Step a τ) (hkept : a ≠ .pushKey key)
    (hleaving : σ.Leaving key) : τ.Leaving key := by
  rcases hleaving with hparting | ⟨htaken, front, back, hqueue, hback⟩
  · exact .inl (step_parting h hstep hkept hparting)
  obtain ⟨hpre, hexec⟩ := hstep
  have hruns (hruns : Action.Runs a ∨ ∃ object, a = .recycle object)
      (hrest : σ.rest a = σ.eventQueue) : τ.Leaving key := by
    obtain ⟨accepted, -, hsteady⟩ := exec_steady h hpre hruns hexec
    refine .inr ⟨hsteady.outstanding key htaken, front, back, ?_, hback⟩
    rw [hsteady.queue]
    exact hrest.trans hqueue
  have hopens (event : IOEvent) (k : UInt32) (hevent : event.protocolKey = some k)
      (hfree : σ.Free k) (hτ : τ = if k = 0 then σ else (σ.popKey k).pushEvent event) :
      τ.Leaving key := by
    subst hτ
    split
    · exact .inr ⟨htaken, front, back, hqueue, hback⟩
    next hzero =>
    rw [popKey, if_neg hzero]
    have hother : event.protocolKey ≠ some key := by
      intro hkey
      obtain rfl := Option.some.inj (hevent.symm.trans hkey)
      exact hfree.resolve_left hzero _ htaken rfl
    exact leaving_push hother (List.mem_cons_of_mem k htaken) (congrArg (· ++ [event]) hqueue) hback
  cases a with
  | listen port id protocolType group k =>
    exact hopens (.listen port ⟨id, protocolType, .LISTENER, k, group⟩) k rfl hpre
      (Except.ok.inj hexec).symm
  | connect address id protocolType group k =>
    exact hopens (.connect address ⟨id, protocolType, .CONNECTOR, k, group⟩) k rfl hpre
      (Except.ok.inj hexec).symm
  | push event =>
    obtain rfl := Except.ok.inj hexec
    have hevent : event.protocolKey ≠ some key := by simp [show event.protocolKey = none from hpre]
    exact leaving_push hevent htaken (congrArg (· ++ [event]) hqueue) hback
  | pushKey k =>
    obtain rfl := Except.ok.inj hexec
    exact .inr ⟨(List.mem_erase_of_ne fun hkey => hkept (congrArg _ hkey.symm)).mpr htaken, front,
      back, hqueue, hback⟩
  | recycle object => exact hruns (.inr ⟨object, rfl⟩) rfl
  | poll k event ans => exact hruns (.inl trivial) rfl
  | fire con timer ans => exact hruns (.inl trivial) rfl
  | dispatch ans =>
    cases front with
    | nil => exact .inl (dispatch_parting h htaken hqueue hback hexec)
    | cons event front =>
      obtain ⟨accepted, -, hsteady⟩ := exec_steady h hpre (.inl trivial) hexec
      refine .inr ⟨hsteady.outstanding key htaken, front, back, ?_, hback⟩
      rw [hsteady.queue, rest, hqueue, List.cons_append, List.tail_cons]

end CNetwork

end ZlNet.Network
