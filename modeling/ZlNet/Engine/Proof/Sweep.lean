import Mathlib.Data.Finset.Dedup
import Mathlib.Data.Finset.Order
import ZlNet.Engine.Proof.SendError

/-! The sweep of the time-out list.  A send binds its handler behind those that were bound before,
with a later deadline, so that the handlers whose time is over are the first ones of the list. -/

namespace ZlNet.Engine

open Lib

/-- The time that a send reads from the clock. -/
def Action.clock {μ : Type} : Action μ → Option Int
  | .send r => some r.clock
  | _ => none

/-- The clock is never before what an earlier send has read from it. -/
def Clocked {μ : Type} (as : List (Action μ)) : Prop :=
  (as.filterMap Action.clock).Pairwise (· ≤ ·)

namespace IOEngine

variable {L μ : Type} [IntrusiveNode L] {σ τ : IOEngine L μ} {h : HandlerId} {id : UInt32} {packet : IOPacket μ}
  {a : Action μ} {r : Request μ} {clock clock' now : Int}

/-- What a bind does to the handler's deadline. -/
theorem bindRequest_deadline (hbind : σ.bindRequest h packet clock = .ok (id, τ)) :
    (τ.handler h).toMs = clock + σ.callbackTimeoutMs := by
  obtain ⟨-, rfl⟩ := bindRequest_spec hbind
  simp

/-! ### The deadlines of those that wait -/

def Sorted (σ : IOEngine L μ) : Prop :=
  σ.live.Pairwise fun h h' => (σ.handler h).toMs ≤ (σ.handler h').toMs

/-- The handlers that wait are sorted, and were bound at `clock` or before. -/
structure Timed (σ : IOEngine L μ) (clock : Int) : Prop where
  sorted : σ.Sorted
  before : ∀ h ∈ σ.live, (σ.handler h).toMs ≤ clock + σ.callbackTimeoutMs

theorem Timed.mono (ht : σ.Timed clock) (hle : clock ≤ clock') : σ.Timed clock' :=
  ⟨ht.sorted, fun h hh => (ht.before h hh).trans (by omega)⟩

theorem Timed.congr (ht : σ.Timed clock) (hsame : τ.waiters = σ.waiters)
    (htimeout : τ.callbackTimeoutMs = σ.callbackTimeoutMs) : τ.Timed clock := by
  have hhandler : τ.handler = σ.handler := funext fun h => handler_congr hsame
  constructor
  · rw [Sorted, live_congr hsame, hhandler]
    exact ht.sorted
  · rw [live_congr hsame, hhandler, htimeout]
    exact ht.before

theorem Timed.complete (ht : σ.Timed clock) (hc : σ.callbacks.Inv) (h : HandlerId)
    (packet : IOPacket μ) : (σ.complete id h packet).Timed clock := by
  constructor
  · rw [Sorted, live_complete hc]
    exact ht.sorted.sublist List.erase_sublist
  · rw [live_complete hc]
    exact fun h' hh' => ht.before h' (List.mem_of_mem_erase hh')

theorem live_bound (hc : σ.callbacks.Inv) (hbind : σ.bindRequest h packet clock = .ok (id, τ)) :
    τ.live = σ.live ++ [h] ∧ ∀ h' ∈ σ.live, τ.handler h' = σ.handler h' := by
  obtain ⟨hb, hτ⟩ := bindRequest_callbacks hc hbind
  obtain ⟨-, -, -, hother, -⟩ := bindRequest_handler hbind
  refine ⟨congrArg Callbacks.live hτ, fun h' hh' => hother h' ?_⟩
  rintro rfl
  exact (hc.bound h').mpr (.inl hh') hb.unbound

theorem Timed.bind (ht : σ.Timed clock) (hc : σ.callbacks.Inv)
    (hbind : σ.bindRequest h packet clock = .ok (id, τ)) : τ.Timed clock := by
  obtain ⟨hlive, hother⟩ := live_bound hc hbind
  have hdeadline := bindRequest_deadline hbind
  have htimeout := bindRequest_timeout hbind
  constructor
  · rw [Sorted, hlive, List.pairwise_append]
    refine ⟨ht.sorted.imp_of_mem fun hh hh' hle => ?_, List.pairwise_singleton ..,
      fun h' hh' h'' hh'' => ?_⟩
    · rwa [hother _ hh, hother _ hh']
    · obtain rfl := List.mem_singleton.mp hh''
      rw [hother h' hh', hdeadline]
      exact ht.before h' hh'
  · rw [hlive, htimeout]
    intro h' hh'
    rcases List.mem_append.mp hh' with hh' | hh'
    · rw [hother h' hh']
      exact ht.before h' hh'
    · obtain rfl := List.mem_singleton.mp hh'
      exact Int.le_of_eq hdeadline

/-- A step at `clock` or later keeps the handlers sorted. -/
theorem Timed.step (ht : σ.Timed clock) (hc : σ.callbacks.Inv) (hexec : σ.exec a = .ok τ)
    (ha : ∀ c ∈ a.clock, c = clock) : τ.Timed clock := by
  have htimeout := (exec_continues hexec).timeout
  cases exec_progress hexec with
  | same hsame => exact ht.congr hsame htimeout
  | @bound r h id σ₁ hsend hhandler hbind hτ =>
    have hclock : r.clock = clock := ha _ (by rw [hsend]; rfl)
    rw [hclock] at hbind
    exact (ht.bind hc hbind).congr hτ (htimeout.trans (bindRequest_timeout hbind).symm)
  | replied _ _ hfound _ hτ => exact (ht.complete hc _ _).congr hτ htimeout
  | timedOut _ hfront _ hτ => exact (ht.complete hc _ _).congr hτ htimeout

theorem timed_init : (init : IOEngine L μ).Timed clock := by
  have hlive : (init : IOEngine L μ).live = [] := IntrusiveNode.toList_empty
  constructor
  · rw [Sorted, hlive]
    exact List.Pairwise.nil
  · rw [hlive]
    intro h hh
    cases hh

/-- In every run with such a clock, the list is sorted. -/
theorem timed_run {as : List (Action μ)} (run : Run Step init as σ) (hclock : Clocked as)
    (hlast : ∀ c ∈ as.filterMap Action.clock, c ≤ clock) : σ.Timed clock := by
  induction run generalizing clock with
  | nil => exact timed_init
  | @snoc as σ τ a hprev hstep ih =>
    have hc := inv_run hprev
    rw [Clocked, List.filterMap_append, List.pairwise_append] at hclock
    rw [List.filterMap_append] at hlast
    cases hnow : a.clock with
    | none =>
      have hσ := ih hclock.1 fun c hmem => hlast c (List.mem_append_left _ hmem)
      exact hσ.step hc hstep.2 (by simp [hnow])
    | some now =>
      have hmem : now ∈ [a].filterMap Action.clock := by simp [hnow]
      have hσ := ih hclock.1 fun c hc => hclock.2.2 c hc now hmem
      have hτ := hσ.step hc hstep.2 (by simp [hnow])
      exact hτ.mono (hlast now (List.mem_append_right _ hmem))

theorem timeoutMs_run {as : List (Action μ)} (run : Run Step init as σ) :
    σ.callbackTimeoutMs = 10000 :=
  run.invariant (fun σ => σ.callbackTimeoutMs = 10000)
    (fun _ _ _ h hstep => (exec_continues hstep.2).timeout.trans h) rfl

theorem sorted_run {as : List (Action μ)} (run : Run Step init as σ) (hclock : Clocked as) :
    σ.Sorted := by
  obtain ⟨clock, hlast⟩ := (as.filterMap Action.clock).toFinset.exists_le
  exact (timed_run run hclock fun c hc => hlast c (List.mem_toFinset.mpr hc)).sorted

/-! ### The sweep -/

/-- The handlers whose time is over at `now`, in the order of the list. -/
def expired (σ : IOEngine L μ) (now : Int) : List HandlerId :=
  σ.live.filter fun h => (σ.handler h).toMs ≤ now

/-- What a sweep at `now` ends with whose handlers make the sends of `sends`: it returns, has called
the handlers whose time was over and no other, in order, and all that wait have time; or one of
the sends has failed. -/
inductive Swept (σ : IOEngine L μ) (now : Int) (sends : List (Request μ)) :
    Except Fault (IOEngine L μ) → Prop
  | returned {τ : IOEngine L μ} {calls : List (HandlerId × IOPacket μ)}
      (hlive : ∀ h ∈ τ.live, now < (τ.handler h).toMs) (hcalled : τ.called = σ.called ++ calls)
      (hexpired : calls.map Prod.fst = σ.expired now)
      (herror : ∀ call ∈ calls, call.2.error = ErrCode_Timeout) : Swept σ now sends (.ok τ)
  | aborted {υ : IOEngine L μ} {r : Request μ} {site : Site} (hr : r ∈ sends)
      (hsend : υ.send r = .error (.assertion site)) : Swept σ now sends (.error (.assertion site))

/-- A turn that finds no handler whose time is over finds that all have time. -/
theorem expired_none (hs : σ.Sorted) (htimeout : σ.timeoutFront now = none) :
    ∀ h ∈ σ.live, now < (σ.handler h).toMs := by
  simp only [timeoutFront, IntrusiveNode.front_eq] at htimeout
  rw [Sorted] at hs
  rw [show IntrusiveNode.toList σ.callbackTimeOutList = σ.live from rfl] at htimeout
  cases hlive : σ.live with
  | nil =>
    intro h hh
    cases hh
  | cons front rest =>
    rw [hlive] at htimeout hs
    simp only [List.head?_cons] at htimeout
    split at htimeout
    · next hfront =>
      intro h hh
      rcases List.mem_cons.mp hh with rfl | hh
      · exact hfront
      · exact hfront.trans_le ((List.pairwise_cons.mp hs).1 h hh)
    · cases htimeout

/-- A turn that finds one calls it, and leaves the others. -/
theorem expired_turn (hc : σ.callbacks.Inv) (htimeout : σ.timeoutFront now = some τ) :
    ∃ h packet, σ.expired now = h :: τ.expired now ∧ τ.called = σ.called ++ [(h, packet)] ∧
      packet.error = ErrCode_Timeout := by
  obtain ⟨h, hfront, hover, rfl⟩ := timeoutFront_cases htimeout
  refine ⟨h, _, ?_, rfl, rfl⟩
  rw [IntrusiveNode.front_eq] at hfront
  obtain ⟨rest, hlive⟩ := List.head?_eq_some_iff.mp hfront
  have hlive : σ.live = h :: rest := hlive
  rw [expired, expired, live_complete hc, hlive, List.erase_cons_head]
  exact List.filter_cons_of_pos (by simpa using hover)

/-- A send calls no handler. -/
theorem send_called (hsend : σ.send r = .ok τ) : τ.called = σ.called := by
  cases send_cases hsend with
  | dropped => rfl
  | event => rfl
  | request _ _ hbind =>
    obtain ⟨-, -, -, -, hcalled⟩ := bindRequest_handler hbind
    exact hcalled
  | failed _ _ _ hbind =>
    obtain ⟨-, -, -, -, hcalled⟩ := bindRequest_handler hbind
    exact hcalled

theorem sends_called {sends : List (Request μ)}
    (hsends : sends.foldlM (fun σ r => σ.send r) σ = .ok τ) : τ.called = σ.called := by
  induction sends generalizing σ with
  | nil =>
    obtain rfl := Except.ok.inj hsends
    rfl
  | cons r sends ih =>
    obtain ⟨σ₁, hsend, hsends⟩ := of_bind_ok hsends
    exact (ih hsends).trans (send_called hsend)

/-- A send at `now` or later binds a handler that has time. -/
theorem expired_send (hc : σ.callbacks.Inv) (hpos : 0 < σ.callbackTimeoutMs) (hnow : now ≤ r.clock)
    (hsend : σ.send r = .ok τ) : τ.expired now = σ.expired now := by
  have hbound {h : HandlerId} {id : UInt32} {σ₁ : IOEngine L μ}
      (hbind : σ.bindRequest h r.packet r.clock = .ok (id, σ₁)) :
      σ₁.expired now = σ.expired now := by
    obtain ⟨hlive, hother⟩ := live_bound hc hbind
    have hdeadline := bindRequest_deadline hbind
    have hlate : ¬(σ₁.handler h).toMs ≤ now := by omega
    rw [expired, expired, hlive, List.filter_append, List.filter_cons_of_neg (by simpa using hlate),
      List.filter_nil, List.append_nil]
    exact List.filter_congr fun h' hh' => by rw [hother h' hh']
  cases send_cases hsend with
  | dropped => rfl
  | event => rfl
  | request _ _ hbind =>
    have hexpired := hbound hbind
    exact hexpired
  | failed _ _ _ hbind =>
    have hexpired := hbound hbind
    exact hexpired

theorem expired_sends {as : List (Action μ)} (run : Run Step init as σ) {sends : List (Request μ)}
    (hnow : ∀ r ∈ sends, now ≤ r.clock)
    (hsends : sends.foldlM (fun σ r => σ.send r) σ = .ok τ) : τ.expired now = σ.expired now := by
  induction sends generalizing as σ with
  | nil =>
    obtain rfl := Except.ok.inj hsends
    rfl
  | cons r sends ih =>
    obtain ⟨σ₁, hsend, hsends⟩ := of_bind_ok hsends
    have hpos : 0 < σ.callbackTimeoutMs := by rw [timeoutMs_run run]; decide
    have hexpired := expired_send (inv_run run) hpos (hnow r List.mem_cons_self) hsend
    have hrun := run.snoc (show Step σ (.send r) σ₁ from ⟨by rintro _ ⟨⟩, hsend⟩)
    exact (ih hrun (fun r hr => hnow r (List.mem_cons_of_mem _ hr)) hsends).trans hexpired

/-- Whatever fails is an assertion. -/
def Asserts (f : Fault) : Prop := ∃ site, f = .assertion site

theorem require_asserts (p : Prop) [Decidable p] (site : Site) :
    Outcome Asserts (fun _ => True) (require p site) := by
  unfold require
  split
  · trivial
  · exact ⟨site, rfl⟩

theorem bindRequest_asserts (h : HandlerId) (packet : IOPacket μ) (clock : Int) :
    Outcome Asserts (fun _ => True) (σ.bindRequest h packet clock) := by
  unfold bindRequest bindCallbackHandler
  refine .bind (?_ : Outcome Asserts (fun _ => True) _) fun _ _ => trivial
  refine .bind (require_asserts _ _) fun _ _ => ?_
  exact .bind (require_asserts _ _) fun _ _ => trivial

theorem send_asserts (σ : IOEngine L μ) (r : Request μ) :
    Outcome Asserts (fun _ => True) (σ.send r) := by
  simp only [send]
  split
  · split
    · split
      · exact .bind (bindRequest_asserts ..) fun _ _ => trivial
      · trivial
    · refine .bind (require_asserts _ _) fun _ _ => ?_
      split
      · exact .bind (bindRequest_asserts ..) fun _ _ => trivial
      · trivial
  · split
    · refine .bind (require_asserts _ _) fun _ _ => ?_
      split
      · trivial
      · trivial
    · exact ⟨_, rfl⟩

theorem sends_error {f : Fault} {sends : List (Request μ)}
    (hsends : sends.foldlM (fun σ r => σ.send r) σ = .error f) :
    ∃ υ : IOEngine L μ, ∃ r ∈ sends, υ.send r = .error f := by
  induction sends generalizing σ with
  | nil => cases hsends
  | cons r sends ih =>
    rw [List.foldlM_cons] at hsends
    cases hsend : σ.send r with
    | error e =>
      rw [hsend] at hsends
      exact ⟨σ, r, List.mem_cons_self, hsend.trans hsends⟩
    | ok σ₁ =>
      rw [hsend] at hsends
      obtain ⟨υ, r', hr', hfail⟩ := ih hsends
      exact ⟨υ, r', List.mem_cons_of_mem _ hr', hfail⟩

/-- A turn, and the sends of the handler that it calls, before a sweep. -/
theorem Swept.cons {σ₁ σ₂ : IOEngine L μ} {packet : IOPacket μ} {sends sends' : List (Request μ)}
    {x : Except Fault (IOEngine L μ)} (hexpired : σ.expired now = h :: σ₁.expired now)
    (hcalled : σ₁.called = σ.called ++ [(h, packet)]) (herror : packet.error = ErrCode_Timeout)
    (hexpired' : σ₂.expired now = σ₁.expired now) (hcalled' : σ₂.called = σ₁.called)
    (hswept : Swept σ₂ now sends' x) : Swept σ now (sends ++ sends') x := by
  cases hswept with
  | @returned τ calls hlive hrest hmap hcalls =>
    have hall : τ.called = σ.called ++ (h, packet) :: calls := by
      rw [hrest, hcalled', hcalled, List.append_assoc]
      rfl
    refine .returned hlive hall ?_ ?_
    · rw [List.map_cons, hmap, hexpired', hexpired]
    · intro call hcall
      rcases List.mem_cons.mp hcall with rfl | hcall
      · exact herror
      · exact hcalls call hcall
  | aborted hr hsend => exact .aborted (List.mem_append_right _ hr) hsend

theorem swept_now (hs : σ.Sorted) (htimeout : σ.timeoutFront now = none)
    (sends : List (Request μ)) : Swept σ now sends (.ok σ) := by
  have hlive := expired_none hs htimeout
  have hcalled : σ.called = σ.called ++ [] := (List.append_nil _).symm
  refine .returned hlive hcalled ?_ (by simp)
  exact (List.filter_eq_nil_iff.mpr fun h hh => by simpa using hlive h hh).symm

/-- The measure is the number of the handlers whose time is over: each turn takes one of them, and
no send adds one. -/
theorem sweep_run {as : List (Action μ)} (run : Run Step init as σ)
    {requests : List (List (Request μ))} (hclock : Clocked (as ++ timeoutActions now requests))
    (hnow : ∀ r ∈ requests.flatten, now ≤ r.clock)
    (hmany : (σ.expired now).length ≤ requests.length) :
    Swept σ now requests.flatten (onTimerCallbackTimeout now requests σ) := by
  have hsorted : σ.Sorted := by
    rw [Clocked, List.filterMap_append, List.pairwise_append] at hclock
    exact sorted_run run hclock.1
  induction requests generalizing as σ with
  | nil =>
    cases htimeout : σ.timeoutFront now with
    | none =>
      simp only [onTimerCallbackTimeout, htimeout]
      exact swept_now hsorted htimeout _
    | some τ =>
      obtain ⟨h, packet, hexpired, -⟩ := expired_turn (inv_run run) htimeout
      rw [hexpired] at hmany
      cases hmany
  | cons sends requests ih =>
    cases htimeout : σ.timeoutFront now with
    | none =>
      simp only [onTimerCallbackTimeout, htimeout]
      exact swept_now hsorted htimeout _
    | some σ₁ =>
      obtain ⟨h, packet, hexpired, hcalled, herror⟩ := expired_turn (inv_run run) htimeout
      have hrun := run.snoc (timeout_step htimeout)
      have hsends_now : ∀ r ∈ sends, now ≤ r.clock := fun r hr =>
        hnow r (by rw [List.flatten_cons]; exact List.mem_append_left _ hr)
      simp only [onTimerCallbackTimeout, htimeout, List.flatten_cons]
      cases hsends : sends.foldlM (fun σ r => σ.send r) σ₁ with
      | error f =>
        obtain ⟨υ, r, hr, hfail⟩ := sends_error hsends
        have hassert := send_asserts υ r
        rw [hfail] at hassert
        obtain ⟨site, rfl⟩ := hassert
        exact .aborted (List.mem_append_left _ hr) hfail
      | ok σ₂ =>
        have hexpired' := expired_sends hrun hsends_now hsends
        have hcalled' := sends_called hsends
        have hrun' := hrun.append (sends_run hsends)
        have hclock' : Clocked (as ++ [.timeout now] ++ sends.map .send ++
            timeoutActions now requests) := by
          simpa [timeoutActions] using hclock
        have hsorted' : σ₂.Sorted := by
          rw [Clocked, List.filterMap_append, List.pairwise_append] at hclock'
          exact sorted_run hrun' hclock'.1
        have hmany' : (σ₂.expired now).length ≤ requests.length := by
          rw [hexpired, List.length_cons, List.length_cons] at hmany
          rw [hexpired']
          omega
        have hrest := ih hrun' hclock'
          (fun r hr => hnow r (by rw [List.flatten_cons]; exact List.mem_append_right _ hr))
          hmany' hsorted'
        exact hrest.cons hexpired hcalled herror hexpired' hcalled'

end IOEngine

end ZlNet.Engine
