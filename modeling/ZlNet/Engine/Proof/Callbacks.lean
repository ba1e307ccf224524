import ZlNet.Engine.Proof.Steps
import ZlNet.Lib.Cyclic
import ZlNet.Lib.Ledger

/-! The callbacks of the engine.  Their ids are a window of the counter that makes them, and the
handlers are a ledger: each is entered when it is bound, and settled when its `onPacket` is
called. -/

namespace ZlNet.Engine

open Lib

/-- What the engine keeps of its callbacks: the handlers by id, those of the time-out list in its
order, the id of each handler, the last id, and the handlers that were called. -/
@[ext]
structure Callbacks where
  table : UInt32 → Option HandlerId
  live : List HandlerId
  cbId : HandlerId → UInt32
  last : UInt32
  called : List HandlerId

namespace Callbacks

variable {c : Callbacks} {h : HandlerId} {id : UInt32}

def ids (c : Callbacks) : List Nat := c.live.map fun h => (c.cbId h).toNat

def ledger (c : Callbacks) : Ledger HandlerId := ⟨c.live, c.called⟩

/-- The largest id. -/
def maxId : Nat := 0xffffffff

def bind (c : Callbacks) (h : HandlerId) (id : UInt32) : Callbacks where
  table := Function.update c.table id (some h)
  live := c.live ++ [h]
  cbId := Function.update c.cbId h id
  last := id
  called := c.called

def complete (c : Callbacks) (h : HandlerId) : Callbacks :=
  { c with
    table := Function.update c.table (c.cbId h) none
    live := c.live.erase h
    called := c.called ++ [h] }

/-- The handler has no id yet, and `id` is the next one and not that of the front. -/
structure Bindable (c : Callbacks) (h : HandlerId) (id : UInt32) : Prop where
  unbound : c.cbId h = 0
  next : id.toNat = Cyclic.next maxId c.last.toNat
  front : c.ids.head? ≠ some id.toNat

structure Inv (c : Callbacks) : Prop where
  window : Cyclic.Window maxId c.last.toNat c.ids
  table : ∀ id h, c.table id = some h ↔ h ∈ c.live ∧ c.cbId h = id
  valid : c.ledger.Valid
  bound : ∀ h, c.cbId h ≠ 0 ↔ c.ledger.Entered h

namespace Inv

theorem id_inj (hc : c.Inv) {h h' : HandlerId} (hh : h ∈ c.live) (hh' : h' ∈ c.live)
    (heq : c.cbId h = c.cbId h') : h = h' := by
  have hinj := (hc.table _ h).mpr ⟨hh, rfl⟩
  rw [heq, (hc.table _ h').mpr ⟨hh', rfl⟩] at hinj
  exact (Option.some.inj hinj).symm

theorem fresh (hc : c.Inv) (hb : c.Bindable h id) : id ≠ 0 ∧ ∀ h' ∈ c.live, c.cbId h' ≠ id := by
  have hrange := Cyclic.next_range (M := maxId) (c := c.last.toNat) (by decide)
  rw [← hb.next] at hrange
  have hmem := hc.window.next_not_mem (by decide) (hb.next ▸ hb.front)
  constructor
  · rintro rfl
    exact absurd hrange.1 (by decide)
  · rintro h' hh' rfl
    exact hmem (hb.next ▸ List.mem_map.mpr ⟨h', hh', rfl⟩)

theorem bind (hc : c.Inv) (hb : c.Bindable h id) : (c.bind h id).Inv := by
  obtain ⟨hne, hfresh⟩ := hc.fresh hb
  have hnew : ¬c.ledger.Entered h := fun hent => (hc.bound h).mpr hent hb.unbound
  have hlive : ∀ h' ∈ c.live, h' ≠ h := by
    rintro h' hh' rfl
    exact hnew (.inl hh')
  have hself : (c.bind h id).cbId h = id := Function.update_self ..
  have hkeep : ∀ h', h' ≠ h → (c.bind h id).cbId h' = c.cbId h' :=
    fun h' hh' => Function.update_of_ne hh' ..
  have hold : c.live.map (fun h' => ((c.bind h id).cbId h').toNat) = c.ids :=
    List.map_congr_left fun h' hh' => by rw [hkeep h' (hlive h' hh')]
  have hids : (c.bind h id).ids = c.ids ++ [Cyclic.next maxId c.last.toNat] := by
    calc (c.bind h id).ids
      _ = c.live.map (fun h' => ((c.bind h id).cbId h').toNat) ++ [((c.bind h id).cbId h).toNat] :=
        List.map_append ..
      _ = c.ids ++ [Cyclic.next maxId c.last.toNat] := by rw [hold, hself, hb.next]
  constructor
  · rw [hids, show (c.bind h id).last.toNat = _ from hb.next]
    exact hc.window.push (by decide) (hb.next ▸ hb.front)
  · intro id' h'
    change Function.update c.table id (some h) id' = some h' ↔ h' ∈ c.live ++ [h] ∧ _
    rw [List.mem_append, List.mem_singleton]
    by_cases hid : id' = id
    · rw [hid, Function.update_self, Option.some.injEq]
      constructor
      · rintro rfl
        exact ⟨.inr rfl, hself⟩
      · rintro ⟨hh' | rfl, heq⟩
        · exact absurd ((hkeep h' (hlive h' hh')).symm.trans heq) (hfresh h' hh')
        · rfl
    · rw [Function.update_of_ne hid, hc.table]
      constructor
      · rintro ⟨hh', heq⟩
        exact ⟨.inl hh', (hkeep h' (hlive h' hh')).trans heq⟩
      · rintro ⟨hh' | rfl, heq⟩
        · exact ⟨hh', (hkeep h' (hlive h' hh')).symm.trans heq⟩
        · exact absurd (heq.symm.trans hself) hid
  · exact hc.valid.enter hnew
  · intro h'
    change _ ↔ (c.ledger.enter h).Entered h'
    rw [Ledger.entered_enter]
    by_cases hh' : h' = h
    · simp [hh', hself, hne]
    · rw [hkeep h' hh', hc.bound]
      simp [hh']

theorem complete (hc : c.Inv) (hh : h ∈ c.live) : (c.complete h).Inv := by
  have hnodup : c.live.Nodup := List.Nodup.of_append_left hc.valid
  constructor
  · exact hc.window.sublist (List.erase_sublist.map _)
  · intro id h'
    change Function.update c.table (c.cbId h) none id = some h' ↔ h' ∈ c.live.erase h ∧ c.cbId h' = id
    rw [hnodup.mem_erase_iff]
    by_cases hid : id = c.cbId h
    · rw [hid, Function.update_self]
      constructor
      · intro hnone
        cases hnone
      · rintro ⟨⟨hne, hh'⟩, heq⟩
        exact absurd (hc.id_inj hh' hh heq) hne
    · rw [Function.update_of_ne hid, hc.table]
      constructor
      · rintro ⟨hh', rfl⟩
        exact ⟨⟨fun heq => hid (by rw [heq]), hh'⟩, rfl⟩
      · rintro ⟨⟨-, hh'⟩, heq⟩
        exact ⟨hh', heq⟩
  · exact hc.valid.settle hh
  · intro h'
    change _ ↔ (c.ledger.settle h).Entered h'
    rw [Ledger.entered_settle hh]
    exact hc.bound h'

end Inv

end Callbacks

namespace IOEngine

variable {L μ : Type} [IntrusiveNode L] {σ τ : IOEngine L μ} {h : HandlerId} {id : UInt32}
  {clock now : Int} {packet : IOPacket μ} {a : Action μ}

def callbacks (σ : IOEngine L μ) : Callbacks where
  table := σ.callbackHandlers
  live := IntrusiveNode.toList σ.callbackTimeOutList
  cbId h := (σ.handler h).cbId
  last := σ.nextCallbackId
  called := σ.called.map Prod.fst

theorem toNat_idAfter (last : UInt32) :
    (idAfter last).toNat = Cyclic.next Callbacks.maxId last.toNat := by
  unfold idAfter Cyclic.next Callbacks.maxId
  by_cases hlt : last < 0xffffffff
  · have hnat : last.toNat < 0xffffffff := UInt32.lt_iff_toNat_lt.mp hlt
    rw [if_pos hlt, if_pos hnat, UInt32.toNat_add]
    exact Nat.mod_eq_of_lt (by simp; omega)
  · have hnat : ¬last.toNat < 0xffffffff := fun hnat => hlt (UInt32.lt_iff_toNat_lt.mpr hnat)
    rw [if_neg hlt, if_neg hnat]
    rfl

/-- What `makeCallbackId` does when it gives an id. -/
theorem makeCallbackId_spec (hmake : σ.makeCallbackId = (id, τ)) (hne : id ≠ 0) :
    id.toNat = Cyclic.next Callbacks.maxId σ.nextCallbackId.toNat ∧
      σ.callbacks.ids.head? ≠ some id.toNat ∧ τ = { σ with nextCallbackId := id } := by
  have hhead : σ.callbacks.ids.head? =
      (IntrusiveNode.front σ.callbackTimeOutList).map fun h => (σ.handler h).cbId.toNat := by
    rw [IntrusiveNode.front_eq]
    exact List.head?_map
  rw [hhead]
  simp only [makeCallbackId] at hmake
  split at hmake
  · next front hfront =>
    split at hmake
    · exact absurd (Prod.mk.inj hmake).1.symm hne
    · next hfresh =>
      obtain ⟨rfl, rfl⟩ := Prod.mk.inj hmake
      refine ⟨toNat_idAfter _, ?_, rfl⟩
      rw [hfront, Option.map_some, ne_eq, Option.some.injEq]
      exact fun heq => hfresh (UInt32.toNat_inj.mp heq)
  · next hnone =>
    obtain ⟨rfl, rfl⟩ := Prod.mk.inj hmake
    exact ⟨toNat_idAfter _, by simp [hnone], rfl⟩

/-- What a bind that does not fail does. -/
theorem bind_callbacks (hc : σ.callbacks.Inv)
    (hbind : σ.bindCallbackHandler h clock = .ok (id, τ)) :
    σ.callbacks.Bindable h id ∧ τ.callbacks = σ.callbacks.bind h id := by
  obtain ⟨_, hunbound, hbind⟩ := of_bind_ok hbind
  have hunbound := of_require hunbound
  cases hmake : σ.makeCallbackId with
  | mk cbId σ₁ =>
  rw [hmake] at hbind
  obtain ⟨_, hne, hbind⟩ := of_bind_ok hbind
  obtain ⟨hnext, hfront, rfl⟩ := makeCallbackId_spec hmake (of_require hne)
  obtain ⟨rfl, rfl⟩ := Prod.mk.inj (Except.ok.inj hbind)
  have hnew : h ∉ σ.callbacks.live := fun hh => (hc.bound h).mpr (.inl hh) hunbound
  refine ⟨⟨hunbound, hnext, hfront⟩, Callbacks.ext rfl ?_ (funext fun h' => ?_) rfl rfl⟩
  · exact IntrusiveNode.toList_pushBack _ _ hnew
  · exact Function.apply_update (fun _ => CallbackHandler.cbId) ..

/-- What is sent is noted in a handler without changing its id. -/
theorem bindRequest_callbacks (hc : σ.callbacks.Inv)
    (hbind : σ.bindRequest h packet clock = .ok (id, τ)) :
    σ.callbacks.Bindable h id ∧ τ.callbacks = σ.callbacks.bind h id := by
  obtain ⟨⟨cbId, σ₁⟩, hinner, hset⟩ := of_bind_ok hbind
  obtain ⟨rfl, rfl⟩ := Prod.mk.inj (Except.ok.inj hset)
  obtain ⟨hb, hσ₁⟩ := bind_callbacks hc hinner
  refine ⟨hb, hσ₁ ▸ Callbacks.ext rfl rfl (funext fun h' => ?_) rfl rfl⟩
  apply (Function.apply_update (fun _ => CallbackHandler.cbId) ..).trans
  exact congrFun (Function.update_eq_self ..) h'

theorem complete_callbacks (hc : σ.callbacks.Inv) (hid : (σ.handler h).cbId = id) :
    (σ.complete id h packet).callbacks = σ.callbacks.complete h := by
  have hnodup : σ.callbacks.live.Nodup := List.Nodup.of_append_left hc.valid
  refine Callbacks.ext ?_ (IntrusiveNode.toList_leave _ _ hnodup) rfl rfl List.map_append
  exact congrArg (fun id => Function.update σ.callbackHandlers id none) hid.symm

/-! ### Steps -/

/-- What a step does to the callbacks: nothing, or it binds a handler, or completes one. -/
inductive Changed (c : Callbacks) : Callbacks → Prop
  | same : Changed c c
  | bind {h : HandlerId} {id : UInt32} (hb : c.Bindable h id) : Changed c (c.bind h id)
  | complete {h : HandlerId} (hh : h ∈ c.live) : Changed c (c.complete h)

theorem Changed.inv {c c' : Callbacks} (hchanged : Changed c c') (hc : c.Inv) : c'.Inv := by
  cases hchanged with
  | same => exact hc
  | bind hb => exact hc.bind hb
  | complete hh => exact hc.complete hh

theorem callbacks_congr (hsame : τ.waiters = σ.waiters) :
    τ.callbacks = σ.callbacks := by
  obtain ⟨htable, hlist, hlast, hhandler, hcalled⟩ := Waiters.ext_iff.mp hsame
  exact Callbacks.ext htable (congrArg IntrusiveNode.toList hlist)
    (congrArg (fun handler h => (handler h).cbId) hhandler) hlast (congrArg (List.map Prod.fst) hcalled)

theorem exec_changed (hc : σ.callbacks.Inv) (hexec : σ.exec a = .ok τ) :
    Changed σ.callbacks τ.callbacks := by
  cases exec_progress hexec with
  | same hsame => exact callbacks_congr hsame ▸ .same
  | bound _ _ hbind hτ =>
    obtain ⟨hb, hσ₁⟩ := bindRequest_callbacks hc hbind
    rw [callbacks_congr hτ, hσ₁]
    exact .bind hb
  | replied _ _ hfound _ hτ =>
    obtain ⟨hh, hid⟩ := (hc.table _ _).mp hfound
    rw [callbacks_congr hτ, complete_callbacks hc hid]
    exact .complete hh
  | timedOut _ hfront _ hτ =>
    rw [IntrusiveNode.front_eq] at hfront
    rw [callbacks_congr hτ, complete_callbacks hc rfl]
    exact .complete (List.mem_of_mem_head? hfront)

/-! ### Runs -/

theorem inv_init : (init : IOEngine L μ).callbacks.Inv where
  window := by
    change Cyclic.Window _ _ (List.map _ (IntrusiveNode.toList IntrusiveNode.empty))
    rw [IntrusiveNode.toList_empty]
    exact .nil (Nat.zero_le _)
  table id h := by
    change none = some h ↔ h ∈ IntrusiveNode.toList IntrusiveNode.empty ∧ _
    simp [IntrusiveNode.toList_empty]
  valid := by
    change (IntrusiveNode.toList IntrusiveNode.empty ++ []).Nodup
    simp [IntrusiveNode.toList_empty]
  bound h := by
    change (0 : UInt32) ≠ 0 ↔ h ∈ IntrusiveNode.toList IntrusiveNode.empty ∨ h ∈ []
    simp [IntrusiveNode.toList_empty]

theorem inv_run {as : List (Action μ)} (run : Run Step init as σ) : σ.callbacks.Inv :=
  run.invariant (fun σ => σ.callbacks.Inv) (fun _ _ _ h hstep => (exec_changed h hstep.2).inv h)
    inv_init

theorem timeout_step (htimeout : σ.timeoutFront now = some τ) : Step σ (.timeout now) τ :=
  ⟨by rintro _ ⟨⟩, by simp only [exec, htimeout]; rfl⟩

theorem sends_run {sends : List (Request μ)} (hsends : sends.foldlM (fun σ r => σ.send r) σ = .ok τ) :
    Run Step σ (sends.map .send) τ := by
  induction sends generalizing σ with
  | nil =>
    obtain rfl := Except.ok.inj hsends
    exact .nil
  | cons r sends ih =>
    obtain ⟨σ₁, hsend, hsends⟩ := of_bind_ok hsends
    exact Run.cons ⟨by rintro _ ⟨⟩, hsend⟩ (ih hsends)

/-- A whole loop of `onTimerCallbackTimeout`, with what the handlers that it calls send, is a part
of a run. -/
theorem onTimerCallbackTimeout_run {requests : List (List (Request μ))}
    (hloop : onTimerCallbackTimeout now requests σ = .ok τ) :
    ∃ n, Run Step σ (timeoutActions now (requests.take n)) τ := by
  induction requests generalizing σ with
  | nil =>
    unfold onTimerCallbackTimeout at hloop
    split at hloop
    · obtain rfl := Except.ok.inj hloop
      exact ⟨0, .nil⟩
    · cases hloop
  | cons sends requests ih =>
    unfold onTimerCallbackTimeout at hloop
    split at hloop
    · obtain rfl := Except.ok.inj hloop
      exact ⟨0, .nil⟩
    · next σ₁ hfront =>
      obtain ⟨σ₂, hsends, hloop⟩ := of_bind_ok hloop
      obtain ⟨n, hrest⟩ := ih hloop
      exact ⟨n + 1, Run.cons (timeout_step hfront) ((sends_run hsends).append hrest)⟩

/-- In every run, the id that a bind takes is not 0, and no handler that is live has it. -/
theorem callback_id_fresh {as : List (Action μ)} (run : Run Step init as σ)
    (hbind : σ.bindCallbackHandler h clock = .ok (id, τ)) :
    id ≠ 0 ∧ σ.callbackHandlers id = none ∧
      ∀ h' ∈ IntrusiveNode.toList σ.callbackTimeOutList, (σ.handler h').cbId ≠ id := by
  have hc := inv_run run
  obtain ⟨hne, hfresh⟩ := hc.fresh (bind_callbacks hc hbind).1
  refine ⟨hne, ?_, hfresh⟩
  rw [Option.eq_none_iff_forall_ne_some]
  intro h' hfound
  obtain ⟨hh', hid⟩ := (hc.table id h').mp hfound
  exact hfresh h' hh' hid

/-- A bind while another handler is live. -/
theorem callback_id_fresh_second :
    ∃ (as : List (Action Unit)) (σ τ : IOEngine (List HandlerId) Unit),
      @Run _ _ (@Step _ _ .list) (@init _ _ .list) as σ ∧ σ.callbackTimeOutList = [0] ∧
      @bindCallbackHandler _ _ σ .list 1 0 = .ok (2, τ) ∧ (σ.handler 0).cbId ≠ 2 := by
  let _ := IntrusiveNode.list
  obtain ⟨as, σ, τ, run, hlive, hbind⟩ : ∃ (as : List (Action Unit))
      (σ τ : IOEngine (List HandlerId) Unit), Run Step init as σ ∧ σ.callbackTimeOutList = [0] ∧
      σ.bindCallbackHandler 1 0 = .ok (2, τ) :=
    ⟨_, _, _, Run.single (show Step init (.send ⟨some 0, ⟨0, 7, 0, 0, none⟩, 100⟩) _ from
      ⟨by rintro _ ⟨⟩, rfl⟩), rfl, rfl⟩
  refine ⟨as, σ, τ, run, hlive, hbind, (callback_id_fresh run hbind).2.2 0 ?_⟩
  rw [hlive]
  exact List.mem_singleton.mpr rfl

/-- In every run, the ids of the table are those of the time-out list, and a handler that was bound
is either in both and was not called, or in neither and was called once. -/
theorem callback_once {as : List (Action μ)} (run : Run Step init as σ) :
    (∀ id, (σ.callbackHandlers id).isSome ↔
      ∃ h ∈ IntrusiveNode.toList σ.callbackTimeOutList, (σ.handler h).cbId = id) ∧
    ∀ h, (σ.handler h).cbId ≠ 0 →
      σ.callbackHandlers (σ.handler h).cbId = some h ∧
        h ∈ IntrusiveNode.toList σ.callbackTimeOutList ∧ (σ.called.map Prod.fst).count h = 0 ∨
      (∀ id, σ.callbackHandlers id ≠ some h) ∧
        h ∉ IntrusiveNode.toList σ.callbackTimeOutList ∧ (σ.called.map Prod.fst).count h = 1 := by
  have hc := inv_run run
  constructor
  · intro id
    rw [Option.isSome_iff_exists]
    exact exists_congr fun h => hc.table id h
  · intro h hbound
    rcases hc.valid.once ((hc.bound h).mp hbound) with ⟨hlive, hnone⟩ | ⟨hgone, hone⟩
    · exact .inl ⟨(hc.table _ h).mpr ⟨hlive, rfl⟩, hlive, hnone⟩
    · exact .inr ⟨fun id hfound => hgone ((hc.table id h).mp hfound).1, hgone, hone⟩

/-- Two sends of which the first is timed out. -/
theorem callback_once_timeout :
    ∃ (as : List (Action Unit)) (σ : IOEngine (List HandlerId) Unit),
      @Run _ _ (@Step _ _ .list) (@init _ _ .list) as σ ∧
      σ.callbackHandlers 1 = none ∧ (σ.called.map Prod.fst).count 0 = 1 ∧
      σ.callbackHandlers 2 = some 1 ∧ (σ.called.map Prod.fst).count 1 = 0 := by
  let _ := IntrusiveNode.list
  let send (h : HandlerId) (clock : Int) : Action Unit := .send ⟨some h, ⟨0, 7, 0, 0, none⟩, clock⟩
  have h1 : Run Step (init : IOEngine (List HandlerId) Unit) _ _ :=
    Run.single (a := send 0 100) ⟨by rintro _ ⟨⟩, rfl⟩
  have h2 := h1.snoc (a := send 1 200) ⟨by rintro _ ⟨⟩, rfl⟩
  have h3 := h2.snoc (a := .timeout 10150) ⟨by rintro _ ⟨⟩, rfl⟩
  have honce := (callback_once h3).2
  rcases honce 0 (by decide) with ⟨-, hlive, -⟩ | ⟨hnone, -, hone⟩
  · exact absurd hlive (by decide)
  rcases honce 1 (by decide) with ⟨hfound, -, hzero⟩ | ⟨-, hgone, -⟩
  · exact ⟨_, _, h3, by decide, hone, hfound, hzero⟩
  · exact absurd hgone (by decide)

end IOEngine

end ZlNet.Engine
