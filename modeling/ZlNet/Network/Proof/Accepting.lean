import ZlNet.Network.Proof.Attempts

/-! What accepting a connection takes, and who has it afterwards.  A key that was taken before the
protocol for the connection could not be made is not given back. -/

namespace ZlNet.Network

open Lib IOObject

/-- There are a connection, a key and a protocol for it. -/
def Answers.Accepts (ans : Answers) : Prop :=
  ans.accepted ≠ none ∧ ans.key ≠ 0 ∧ ans.created ≠ none

theorem IOObject.Settled.listening_of_type {o : IOObject} (h : o.Settled)
    (htype : o.type = .LISTENER) : o.Listening := by
  cases h with
  | listening hl => exact hl
  | established hest => simpa [isConnection, htype] using hest.type
  | attempting ha => exact absurd (htype.symm.trans ha.type) (by decide)

namespace CNetwork

/-- The object table, the outstanding keys and the event masks are as before. -/
structure Kept (σ τ : CNetwork) : Prop where
  objects : τ.objects = σ.objects
  outstanding : τ.outstanding = σ.outstanding
  events : ∀ id, (τ.heap id).map (·.events) = (σ.heap id).map (·.events)

section

variable [KeyPool] {σ τ υ : CNetwork} {id : ObjectId} {o : IOObject} {p : IOProtocol}
  {a : Action} {ans : Answers} {key : UInt32} {keys : List UInt32} {L : Prop}

/-- One key has become outstanding, and one session was added, which has it. -/
structure Accepted (σ τ : CNetwork) (key : UInt32) : Prop where
  outstanding : τ.outstanding = key :: σ.outstanding
  fresh : key ∉ σ.outstanding
  session : ∃ con o p, σ.heap con = none ∧ τ.heap con = some o ∧ o.type = .SESSION ∧
    o.protocol = some p ∧ p.key = key ∧ o.key = key ∧ σ.objects (KeyPool.index key) = none ∧
    τ.objects = Function.update σ.objects (KeyPool.index key) (some con) ∧
    ∀ id, id ≠ con → τ.heap id = σ.heap id

/-- Accepting a connection takes all that it needs, or nothing. -/
def AllOrNothing (σ τ : CNetwork) (ans : Answers) : Prop :=
  (ans.Accepts → Accepted σ τ ans.key) ∧ (¬ans.Accepts → Kept σ τ)

omit [KeyPool] in
theorem Kept.refl (σ : CNetwork) : Kept σ σ := ⟨rfl, rfl, fun _ => rfl⟩

/-- A new session with a key that has just been taken. -/
theorem Inv.accepted_added (h : σ.Inv) (hfree : σ.Free key) (hne : key ≠ 0) (hkey : o.key = key)
    (htype : o.type = .SESSION) (hp : o.protocol = some p) (hpkey : p.key = key)
    (pool : List IOObject) (notice : Notice) :
    Accepted σ (((σ.popKey key).added o pool true).notify p notice) key := by
  have hslot : σ.objects (KeyPool.index key) = none := by
    have hnone := (h.popKey hfree).inv.slot_of_fresh (h.fresh_popKey hfree hne)
    rwa [CNetwork.popKey, if_neg hne] at hnone
  rw [CNetwork.popKey, if_neg hne]
  refine ⟨rfl, fun hmem => hfree.resolve_left hne key hmem rfl, ?_⟩
  refine ⟨σ.created, o, p, h.created_free, put_heap_self _ σ.created o, htype, hp, hpkey, hkey, hslot, ?_, ?_⟩
  · simp only [notify, CNetwork.added, if_true, hkey]
  · exact fun id hid => put_heap_ne _ o hid

theorem handleTcpAccept_accepts (h : σ.Inv) (hin : σ.InTable id o) (hl : o.Listening)
    (hfree : σ.Free ans.key) (hacc : ans.Accepts) :
    ∃ τ, σ.handleTcpAccept id ans = .ok τ ∧ Accepted σ τ ans.key := by
  obtain ⟨haccepted, hne, hcreated⟩ := hacc
  obtain ⟨⟨socket, address⟩, haccepted⟩ := Option.ne_none_iff_exists'.mp haccepted
  obtain ⟨protocolId, hcreated⟩ := Option.ne_none_iff_exists'.mp hcreated
  obtain ⟨p, hp, -⟩ := h.held_eq hin
  obtain ⟨protocol, hprotocol⟩ : ∃ q : IOProtocol, q = ⟨protocolId, .TCP, .SESSION, ans.key, 0⟩ :=
    ⟨_, rfl⟩
  have hkey : protocol.key = ans.key := by rw [hprotocol]
  have hclaims : σ.Claims protocol.key (σ.popKey ans.key) := by
    rw [hkey]
    exact .free hfree hne
  have hυ := hclaims.leads h
  have hpop : σ.popKey ans.key = { σ with outstanding := ans.key :: σ.outstanding } := by
    rw [popKey, if_neg hne]
  simp only [handleTcpAccept, get_eq hin.heap, ok_bind, require_of_true hl.type,
    nonNull_isSome hl.endPoint, haccepted, if_neg hne, hp, nonNull_some, hcreated]
  rw [← hprotocol]
  obtain ⟨c, pool, hcreate, hc, hend, -⟩ :=
    create_eq hυ.inv .SESSION protocol ⟨socket, address, []⟩ ans.reused
  have hfresh : (σ.popKey ans.key).Fresh c.key := hc.key ▸ hclaims.fresh h
  simp only [hcreate, get_added, ok_bind]
  rw [put_added, addObject_added hυ.inv, ok_bind, get_added, ok_bind, put_added,
    onNewConnection_eq heap_added, put_added]
  · have hreg : c.setConnected.registerReadHandler = { c.setConnected with events := READ_EVENT } :=
      registerReadHandler_eq hc.events
    rw [hreg]
    refine ⟨_, rfl, ?_⟩
    apply h.accepted_added hfree hne
    · exact hc.key.trans hkey
    · exact hc.type
    · exact hc.protocol
    · exact hkey
  · simp
  · simp
  · exact hfresh
  · simp

/-- What is left behind where a connection is not accepted: a key, if it was taken. -/
theorem handleTcpAccept_refuses (h : σ.Inv) (hin : σ.InTable id o) (hl : o.Listening)
    (hacc : ¬ans.Accepts) :
    σ.handleTcpAccept id ans =
      .ok (if ans.accepted = none then σ else σ.popKey ans.key) := by
  obtain ⟨p, hp, -⟩ := h.held_eq hin
  simp only [handleTcpAccept, get_eq hin.heap, ok_bind, require_of_true hl.type,
    nonNull_isSome hl.endPoint]
  cases haccepted : ans.accepted with
  | none => rfl
  | some connection =>
    simp only [hp, nonNull_some, ok_bind, reduceCtorEq, if_false]
    by_cases hzero : ans.key = 0
    · rw [if_pos hzero]
      rfl
    · rw [if_neg hzero]
      cases hcreated : ans.created with
      | none => rfl
      | some protocolId =>
        exact absurd ⟨by simp [haccepted], hzero, by simp [hcreated]⟩ hacc

/-- A key that is taken and not given back is the one way in which accepting is not all or nothing. -/
theorem handleTcpAccept_allOrNothing (h : σ.Inv) (hin : σ.InTable id o) (hl : o.Listening)
    (ans : Answers) (hfree : σ.Free ans.key) :
    ∃ τ, σ.handleTcpAccept id ans = .ok τ ∧ (AllOrNothing σ τ ans ↔ ¬ans.Leaks) := by
  by_cases hacc : ans.Accepts
  · obtain ⟨τ, heq, haccepted⟩ := handleTcpAccept_accepts h hin hl hfree hacc
    refine ⟨τ, heq, iff_of_true ⟨fun _ => haccepted, fun hnot => absurd hacc hnot⟩ ?_⟩
    exact fun hleaks => hacc.2.2 hleaks.2.2
  · refine ⟨_, handleTcpAccept_refuses h hin hl hacc, ?_⟩
    constructor
    · rintro hall ⟨haccepted, hne, -⟩
      have hkept := (hall.2 hacc).outstanding
      rw [if_neg haccepted, popKey, if_neg hne] at hkept
      exact List.cons_ne_self _ _ hkept
    · refine fun hleaks => ⟨fun h => absurd h hacc, fun _ => ?_⟩
      split
      · exact .refl σ
      · next haccepted =>
        have hzero : ans.key = 0 := by
          by_contra hne
          refine hacc ⟨haccepted, hne, fun hcreated => hleaks ⟨haccepted, hne, hcreated⟩⟩
        rw [popKey, if_pos hzero]
        exact .refl σ

/-! ### Runs -/

/-- The keys of the protocols that are alive after a step: those that were, those that other threads
bring and those that were accepted, but that of a protocol that is recycled. -/
def living (σ : CNetwork) (a : Action) (τ : CNetwork) (keys : List UInt32) : List UInt32 :=
  match a with
  | .listen _ _ _ _ key | .connect _ _ _ _ key => if key = 0 then keys else key :: keys
  | .pushKey key => keys.erase key
  | .dispatch _ | .poll _ _ _ | .fire _ _ _ =>
    (τ.notices.drop σ.notices.length).filterMap acceptedKey ++ keys
  | .push _ | .recycle _ => keys

/-- A step of the network thread, with the keys of the protocols that are alive. -/
def LivingStep (s : CNetwork × List UInt32) (a : Action) (t : CNetwork × List UInt32) : Prop :=
  s.1.Step a t.1 ∧ t.2 = s.1.living a t.1 s.2

/-- A step in which no key is taken for a connection that has no protocol. -/
def SparingStep (s : CNetwork × List UInt32) (a : Action) (t : CNetwork × List UInt32) : Prop :=
  LivingStep s a t ∧ ¬s.1.Leaks a

omit [KeyPool] in
theorem popKey_perm (hperm : σ.outstanding.Perm keys) (key : UInt32) :
    (σ.popKey key).outstanding.Perm (if key = 0 then keys else key :: keys) := by
  unfold popKey
  split
  · exact hperm
  · exact hperm.cons key

theorem step_living {a : Action} (h : σ.Inv) (hperm : σ.outstanding.Perm keys)
    (hstep : σ.Step a τ) (hleaks : ¬σ.Leaks a) : τ.outstanding.Perm (σ.living a τ keys) := by
  obtain ⟨hpre, hexec⟩ := hstep
  have hruns (hruns : Action.Runs a) :
      τ.outstanding.Perm ((τ.notices.drop σ.notices.length).filterMap acceptedKey ++ keys) := by
    have hbalances := exec_balances (S := fun _ => True) h hpre hruns fun _ _ _ => trivial
    rw [hexec] at hbalances
    obtain ⟨new, hnew, hkeys⟩ := Accounts.keys hbalances
    rw [hnew, List.drop_left]
    exact (hkeys hleaks).trans (hperm.append_left _)
  cases a with
  | listen port id protocolType group key =>
    obtain rfl := Except.ok.inj hexec
    have hpop := popKey_perm hperm key
    simp only [living, listen]
    split
    · exact hperm
    · next hne => rwa [if_neg hne] at hpop
  | connect address id protocolType group key =>
    obtain rfl := Except.ok.inj hexec
    have hpop := popKey_perm hperm key
    simp only [living, connect]
    split
    · exact hperm
    · next hne => rwa [if_neg hne] at hpop
  | push event =>
    obtain rfl := Except.ok.inj hexec
    exact hperm
  | pushKey key =>
    obtain rfl := Except.ok.inj hexec
    exact hperm.erase key
  | recycle object =>
    obtain rfl := Except.ok.inj hexec
    simp only [living, recycle]
    split
    · exact hperm
    · exact hperm
  | dispatch ans => exact hruns trivial
  | poll key event ans => exact hruns trivial
  | fire con timer ans => exact hruns trivial

theorem living_run {as : List Action} {s : CNetwork × List UInt32}
    (run : Run SparingStep (empty, []) as s) : s.1.Inv ∧ s.1.outstanding.Perm s.2 := by
  refine run.invariant (fun s => s.1.Inv ∧ s.1.outstanding.Perm s.2) ?_ ⟨inv_empty, .refl _⟩
  rintro s a t ⟨h, hperm⟩ ⟨⟨hstep, hliving⟩, hleaks⟩
  have hout := exec_outcome h hstep.1
  rw [hstep.2] at hout
  exact ⟨hout, hliving ▸ step_living h hperm hstep hleaks⟩

theorem inv_livingRun {as : List Action} {s : CNetwork × List UInt32}
    (run : Run LivingStep (empty, []) as s) : s.1.Inv := by
  refine run.invariant (fun s => s.1.Inv) ?_ inv_empty
  rintro s a t h ⟨hstep, -⟩
  have hout := exec_outcome h hstep.1
  rwa [hstep.2] at hout

/-- In every run from an empty table, accepting a connection is all or nothing unless there is no
protocol for it once its key was taken.  Where that does not happen, the keys that are outstanding
are those of the protocols that are alive. -/
theorem accepting_all_or_nothing_iff {as : List Action}
    (run : Run LivingStep (empty, []) as (σ, keys)) :
    (∀ id o ans, σ.InTable id o → o.type = .LISTENER → σ.Free ans.key →
      ∃ τ, σ.handleTcpAccept id ans = .ok τ ∧ (AllOrNothing σ τ ans ↔ ¬ans.Leaks)) ∧
    (Run SparingStep (empty, []) as (σ, keys) → σ.outstanding.Perm keys) := by
  have h : σ.Inv := inv_livingRun run
  constructor
  · intro id o ans hin htype hfree
    exact handleTcpAccept_allOrNothing h hin ((h.settled hin).listening_of_type htype) ans hfree
  · exact fun hrun => (living_run hrun).2

theorem living_next {s : CNetwork × List UInt32} (hpre : s.1.Pre a)
    (hok : (s.1.exec a).toBool = true) :
    LivingStep s a (s.1.next a, s.1.living a (s.1.next a) s.2) :=
  ⟨step_next s.1 hpre hok, rfl⟩

end

/-- The network thread with a listener, its object 0, with the key 5. -/
def listening : CNetwork :=
  let _ := KeyPool.lowBits
  (empty.next (.listen 80 0 .TCP 0 5)).next (.dispatch { socket := 3 })

theorem listening_sparing :
    Run (@SparingStep .lowBits) (empty, [])
      [.listen 80 0 .TCP 0 5, .dispatch { socket := 3 }] (listening, [5]) := by
  let _ := KeyPool.lowBits
  have hlisten := living_next (s := (empty, [])) (a := .listen 80 0 .TCP 0 5)
    (.inr (by rintro _ ⟨⟩)) rfl
  have hdispatch := living_next (s := (empty.next (.listen 80 0 .TCP 0 5), [5]))
    (a := .dispatch { socket := 3 }) ⟨by rintro _ ⟨⟩, by rintro _ ⟨⟩⟩ (by decide +kernel)
  have h1 : Run SparingStep (empty, []) _ _ := Run.single ⟨hlisten, id⟩
  exact h1.snoc ⟨hdispatch, id⟩

theorem listening_run :
    Run (@LivingStep .lowBits) (empty, [])
      [.listen 80 0 .TCP 0 5, .dispatch { socket := 3 }] (listening, [5]) :=
  listening_sparing.mono fun _ _ _ h => h.1

theorem listening_heap : ∃ o, @InTable .lowBits listening 0 o ∧ o.type = .LISTENER := by
  let _ := KeyPool.lowBits
  have hheap : (listening.heap 0).map (fun o => (o.key, o.type)) = some (5, .LISTENER) := by
    decide +kernel
  obtain ⟨o, ho, hmap⟩ := Option.map_eq_some_iff.mp hheap
  obtain ⟨hkey, htype⟩ := Prod.mk.inj hmap
  have hslot : listening.objects (KeyPool.index 5) = some 0 := by decide +kernel
  exact ⟨o, ⟨ho, hkey ▸ hslot⟩, htype⟩

theorem listening_free : @Free .lowBits listening 6 := by
  let _ := KeyPool.lowBits
  have hout : listening.outstanding = [5] := by decide +kernel
  refine .inr fun key' hkey' => ?_
  rw [hout] at hkey'
  obtain rfl := List.mem_singleton.mp hkey'
  decide

/-- The one key of the listener is outstanding, and a connection is accepted with a key and a
protocol for it. -/
theorem accepting_all_or_nothing_iff_accepts :
    listening.outstanding.Perm [5] ∧
    ∃ τ, @handleTcpAccept .lowBits listening 0
        { accepted := some (4, ⟨2, 81⟩), key := 6, created := some 1 } = .ok τ ∧
      @AllOrNothing .lowBits listening τ
        { accepted := some (4, ⟨2, 81⟩), key := 6, created := some 1 } := by
  let _ := KeyPool.lowBits
  obtain ⟨o, hin, htype⟩ := listening_heap
  obtain ⟨haccepting, hperm⟩ := accepting_all_or_nothing_iff listening_run
  obtain ⟨τ, heq, hall⟩ := haccepting 0 o
    { accepted := some (4, ⟨2, 81⟩), key := 6, created := some 1 } hin htype listening_free
  exact ⟨hperm listening_sparing, τ, heq, hall.mpr fun hleaks => absurd hleaks.2.2 (by decide)⟩

/-- The factory of protocols returns none, and the key 6 stays outstanding: it is neither in the
pool nor that of a protocol. -/
theorem accepting_leaks_key :
    (∃ τ, @handleTcpAccept .lowBits listening 0 { accepted := some (4, ⟨2, 81⟩), key := 6 } = .ok τ ∧
      ¬@AllOrNothing .lowBits listening τ { accepted := some (4, ⟨2, 81⟩), key := 6 }) ∧
    ∃ as σ, Run (@LivingStep .lowBits) (empty, []) as (σ, [5]) ∧ σ.outstanding = [6, 5] := by
  let _ := KeyPool.lowBits
  obtain ⟨o, hin, htype⟩ := listening_heap
  have h := inv_livingRun listening_run
  constructor
  · obtain ⟨τ, heq, hall⟩ := handleTcpAccept_allOrNothing h hin
      ((h.settled hin).listening_of_type htype) { accepted := some (4, ⟨2, 81⟩), key := 6 }
      listening_free
    exact ⟨τ, heq, fun hnot => hall.mp hnot ⟨by simp, by decide, rfl⟩⟩
  · have h1 := listening_run.snoc (living_next (a := .poll 5 { readable := true }
        { accepted := some (4, ⟨2, 81⟩), key := 6 })
      ⟨listening_free, by unfold Found; decide +kernel⟩ (by decide +kernel))
    exact ⟨_, _, h1, by decide +kernel⟩

end CNetwork

end ZlNet.Network
