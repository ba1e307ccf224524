import ZlNet.Engine.Proof.Callbacks
import ZlNet.Engine.Proof.Connections

/-! Sends that find no connection.  The handler of such a send waits, whatever the engine does, until
its time is over: the packet that tells that the send failed does not reach it. -/

namespace ZlNet.Engine

open Lib

/-! ### Those who wait in front -/

section Ahead

variable {α : Type} [DecidableEq α] {l : List α} {a b : α}

/-- The items of a list in front of `a`. -/
def ahead (l : List α) (a : α) : List α := l.takeWhile (· ≠ a)

theorem ahead_cons_ne (hne : b ≠ a) : ahead (b :: l) a = b :: ahead l a :=
  List.takeWhile_cons_of_pos (by simpa using hne)

theorem ahead_cons_self : ahead (a :: l) a = [] :=
  List.takeWhile_cons_of_neg (by simp)

theorem ahead_append (ha : a ∈ l) (l' : List α) : ahead (l ++ l') a = ahead l a := by
  induction l with
  | nil => cases ha
  | cons b l ih =>
    rw [List.cons_append]
    by_cases hb : b = a
    · rw [hb, ahead_cons_self, ahead_cons_self]
    · rw [ahead_cons_ne hb, ahead_cons_ne hb, ih ((List.mem_cons.mp ha).resolve_left (Ne.symm hb))]

theorem ahead_last (ha : a ∉ l) : ahead (l ++ [a]) a = l := by
  induction l with
  | nil => exact ahead_cons_self
  | cons b l ih =>
    obtain ⟨hne, ha⟩ := not_or.mp (mt List.mem_cons.mpr ha)
    rw [List.cons_append, ahead_cons_ne (Ne.symm hne), ih ha]

theorem ahead_erase (hne : b ≠ a) : (ahead (l.erase b) a).Sublist (ahead l a) := by
  induction l with
  | nil => exact .slnil
  | cons c l ih =>
    by_cases hc : c = b
    · rw [hc, List.erase_cons_head, ahead_cons_ne hne]
      exact List.sublist_cons_self ..
    · rw [List.erase_cons_tail (by simpa using hc)]
      by_cases hca : c = a
      · rw [hca, ahead_cons_self, ahead_cons_self]
      · rw [ahead_cons_ne hca, ahead_cons_ne hca]
        exact ih.cons_cons c

theorem ahead_length_lt (ha : a ∈ l) : (ahead l a).length < l.length := by
  induction l with
  | nil => cases ha
  | cons b l ih =>
    by_cases hb : b = a
    · rw [hb, ahead_cons_self]
      exact Nat.succ_pos _
    · rw [ahead_cons_ne hb]
      exact Nat.succ_lt_succ (ih ((List.mem_cons.mp ha).resolve_left (Ne.symm hb)))

end Ahead

namespace IOEngine

variable {L μ : Type} [IntrusiveNode L] {σ τ υ : IOEngine L μ} {h : HandlerId} {id : UInt32}
  {a : Action μ} {r : Request μ} {limit : Int}

/-- The handlers of the time-out list, in its order. -/
def live (σ : IOEngine L μ) : List HandlerId := IntrusiveNode.toList σ.callbackTimeOutList

omit [IntrusiveNode L] in
/-- The packets that a handler was called with. -/
def answers (σ : IOEngine L μ) (h : HandlerId) : List (IOPacket μ) :=
  (σ.called.filter fun call => call.1 = h).map Prod.snd

/-- The handler is in the table and in the time-out list, and was not called. -/
structure Awaits (σ : IOEngine L μ) (h : HandlerId) (id : UInt32) : Prop where
  table : σ.callbackHandlers id = some h
  live : h ∈ σ.live
  answers : σ.answers h = []

/-- The handler is neither in the table nor in the time-out list, and was called once. -/
structure Answered (σ : IOEngine L μ) (h : HandlerId) (packet : IOPacket μ) : Prop where
  table : ∀ id, σ.callbackHandlers id ≠ some h
  live : h ∉ σ.live
  answers : σ.answers h = [packet]

/-- The handler was called once, with an error. -/
def Failed (σ : IOEngine L μ) (h : HandlerId) : Prop :=
  ∃ packet, packet.error ≠ 0 ∧ σ.Answered h packet

omit [IntrusiveNode L] in
theorem answers_of_called (hcalled : τ.called = σ.called) : τ.answers h = σ.answers h :=
  congrArg (fun called => (called.filter fun call => call.1 = h).map Prod.snd) hcalled

omit [IntrusiveNode L] in
theorem answers_congr (hsame : τ.waiters = σ.waiters) : τ.answers h = σ.answers h := by
  obtain ⟨-, -, -, -, hcalled⟩ := Waiters.ext_iff.mp hsame
  exact answers_of_called hcalled

theorem live_congr (hsame : τ.waiters = σ.waiters) : τ.live = σ.live := by
  obtain ⟨-, hlist, -⟩ := Waiters.ext_iff.mp hsame
  exact congrArg IntrusiveNode.toList hlist

omit [IntrusiveNode L] in
theorem handler_congr (hsame : τ.waiters = σ.waiters) : τ.handler h = σ.handler h := by
  obtain ⟨-, -, -, hhandler, -⟩ := Waiters.ext_iff.mp hsame
  exact congrFun hhandler h

omit [IntrusiveNode L] in
theorem table_congr (hsame : τ.waiters = σ.waiters) :
    τ.callbackHandlers = σ.callbackHandlers := by
  obtain ⟨htable, -⟩ := Waiters.ext_iff.mp hsame
  exact htable

theorem Awaits.bound (hw : σ.Awaits h id) (hc : σ.callbacks.Inv) : (σ.handler h).cbId = id :=
  ((hc.table id h).mp hw.table).2

theorem Awaits.ne_zero (hw : σ.Awaits h id) (hc : σ.callbacks.Inv) : (σ.handler h).cbId ≠ 0 :=
  (hc.bound h).mpr (.inl hw.live)

/-! ### What a step does to a handler -/

/-- What a bind does besides what it does to the callbacks: it notes what is sent in the handler, and
changes no other one. -/
theorem bindRequest_handler {packet : IOPacket μ} {clock : Int}
    (hbind : σ.bindRequest h packet clock = .ok (id, τ)) :
    (σ.handler h).cbId = 0 ∧ (τ.handler h).uid = packet.uid ∧ (τ.handler h).cbId = id ∧
      (∀ h', h' ≠ h → τ.handler h' = σ.handler h') ∧ τ.called = σ.called := by
  obtain ⟨hunbound, rfl⟩ := bindRequest_spec hbind
  refine ⟨hunbound, ?_, ?_, fun h' hne => ?_, rfl⟩
  · simp
  · simp
  · simp [hne]

theorem answers_complete (h' : HandlerId) (packet : IOPacket μ) :
    (σ.complete id h' packet).answers h = σ.answers h ++ if h' = h then [packet] else [] := by
  simp only [complete, answers, List.filter_append, List.map_append]
  split
  · next heq => simp [heq]
  · next hne => simp [hne]

theorem live_complete (hc : σ.callbacks.Inv) (h' : HandlerId) (packet : IOPacket μ) :
    (σ.complete id h' packet).live = σ.live.erase h' :=
  IntrusiveNode.toList_leave _ _ (List.Nodup.of_append_left hc.valid)

/-- A handler that is completed was called once, with the packet. -/
theorem Awaits.complete (hw : σ.Awaits h id) (hc : σ.callbacks.Inv) (packet : IOPacket μ) :
    (σ.complete id h packet).Answered h packet where
  table id' := by
    intro hfound
    have hcomplete := hc.complete hw.live
    rw [← show (σ.complete id h packet).callbacks = _ from complete_callbacks hc (hw.bound hc)]
      at hcomplete
    have hlive : h ∈ (σ.complete id h packet).live := ((hcomplete.table id' h).mp hfound).1
    rw [live_complete hc] at hlive
    exact List.Nodup.not_mem_erase (List.Nodup.of_append_left hc.valid) hlive
  live := by
    rw [live_complete hc]
    exact List.Nodup.not_mem_erase (List.Nodup.of_append_left hc.valid)
  answers := by
    rw [answers_complete, hw.answers, if_pos rfl]
    rfl

theorem Awaits.complete_ne (hw : σ.Awaits h id) (hc : σ.callbacks.Inv) {h' : HandlerId}
    {id' : UInt32} (hfound : σ.callbackHandlers id' = some h') (hne : h' ≠ h)
    (packet : IOPacket μ) : (σ.complete id' h' packet).Awaits h id where
  table := by
    have hid : id ≠ id' := by
      rintro rfl
      exact hne (Option.some.inj (hfound.symm.trans hw.table))
    exact (Function.update_of_ne hid ..).trans hw.table
  live := by
    rw [live_complete hc]
    exact (List.mem_erase_of_ne (Ne.symm hne)).mpr hw.live
  answers := by
    rw [answers_complete, hw.answers, if_neg hne]
    rfl

theorem Awaits.congr (hw : σ.Awaits h id) (hsame : τ.waiters = σ.waiters) :
    τ.Awaits h id where
  table := (congrFun (table_congr hsame) id).trans hw.table
  live := (live_congr hsame) ▸ hw.live
  answers := (answers_congr hsame).trans hw.answers

theorem Answered.congr {packet : IOPacket μ} (ha : σ.Answered h packet)
    (hsame : τ.waiters = σ.waiters) : τ.Answered h packet where
  table id := by
    rw [table_congr hsame]
    exact ha.table id
  live := by
    rw [live_congr hsame]
    exact ha.live
  answers := (answers_congr hsame).trans ha.answers

/-- The time of the handler, and of those in front of it, is over at `now`. -/
def Due (σ : IOEngine L μ) (h : HandlerId) (now : Int) : Prop :=
  (σ.handler h).toMs ≤ now ∧ ∀ h' ∈ ahead σ.live h, (σ.handler h').toMs ≤ now

/-- What becomes of a handler that waits: it waits on, with no more handlers in front of it, or fewer
if the timer found that it was due; or it gets an answer from the connection that its request went
to, or its time is over. -/
inductive Fate (σ : IOEngine L μ) (h : HandlerId) (id : UInt32) (a : Action μ)
    (τ : IOEngine L μ) : Prop
  | waits (hw : τ.Awaits h id) (hkept : ∀ h' ∈ σ.live, τ.handler h' = σ.handler h')
      (hahead : (ahead τ.live h).Sublist (ahead σ.live h))
      (hturn : ∀ now, a = .timeout now → σ.Due h now →
        (ahead τ.live h).length < (ahead σ.live h).length)
  | replied {packet : IOPacket μ} (ha : a = .dispatch (.msg packet))
      (havail : σ.isAvailable packet.uid = true) (huid : (σ.handler h).uid = packet.uid)
      (hanswered : τ.Answered h packet)
  | timedOut {now : Int} (ha : a = .timeout now) (hover : (σ.handler h).toMs ≤ now)
      (hanswered : τ.Answered h
        ⟨(σ.handler h).uid, (σ.handler h).cmd, (σ.handler h).cbId, ErrCode_Timeout, none⟩)

theorem ahead_front {front : HandlerId} (hfront : IntrusiveNode.front σ.callbackTimeOutList = some front)
    (hne : front ≠ h) : ahead σ.live h = front :: ahead (σ.live.erase front) h := by
  rw [IntrusiveNode.front_eq] at hfront
  obtain ⟨rest, hlive⟩ := List.head?_eq_some_iff.mp hfront
  rw [live, hlive, ahead_cons_ne hne, List.erase_cons_head]

theorem ahead_of_front (hfront : IntrusiveNode.front σ.callbackTimeOutList = some h) :
    ahead σ.live h = [] := by
  rw [IntrusiveNode.front_eq] at hfront
  obtain ⟨rest, hlive⟩ := List.head?_eq_some_iff.mp hfront
  rw [live, hlive, ahead_cons_self]

/-- The timer completes the handler that is due, or one in front of it. -/
theorem timeout_fate (hc : σ.callbacks.Inv) (hw : σ.Awaits h id) (now : Int) :
    Fate σ h id (.timeout now) ((σ.timeoutFront now).getD σ) := by
  cases htimeout : σ.timeoutFront now with
  | none =>
    refine .waits hw (fun _ _ => rfl) (.refl _) ?_
    rintro _ ⟨⟩ ⟨hdue, hahead⟩
    -- the list is not empty, and its front is due
    simp only [timeoutFront] at htimeout
    split at htimeout
    · next hnone =>
      rw [IntrusiveNode.front_eq, List.head?_eq_none_iff] at hnone
      exact absurd hw.live (by simp [live, hnone])
    next front hfront =>
    split at htimeout
    · next hearly =>
      by_cases heq : front = h
      · rw [heq] at hearly
        omega
      · have hover := hahead front (by rw [ahead_front hfront heq]; exact List.mem_cons_self)
        omega
    · cases htimeout
  | some τ =>
    obtain ⟨front, hfront, hover, rfl⟩ := timeoutFront_cases htimeout
    by_cases heq : front = h
    · subst heq
      rw [Option.getD_some, hw.bound hc]
      exact .timedOut rfl hover (hw.bound hc ▸ hw.complete hc _)
    · have hmem : front ∈ σ.callbacks.live :=
        List.mem_of_mem_head? (IntrusiveNode.front_eq σ.callbackTimeOutList ▸ hfront)
      have hshorter := ahead_front (h := h) hfront heq
      refine .waits (hw.complete_ne hc ((hc.table _ _).mpr ⟨hmem, rfl⟩) heq _) (fun _ _ => rfl) ?_ ?_
      · rw [Option.getD_some, live_complete hc]
        exact ahead_erase heq
      · rintro _ - -
        rw [Option.getD_some, live_complete hc, hshorter]
        exact Nat.lt_succ_self _

theorem awaits_fate (hc : σ.callbacks.Inv) (hw : σ.Awaits h id) (hexec : σ.exec a = .ok τ) :
    Fate σ h id a τ := by
  have keep (hne : ∀ now, a ≠ .timeout now) (hw' : τ.Awaits h id)
      (hkept : ∀ h' ∈ σ.live, τ.handler h' = σ.handler h')
      (hahead : (ahead τ.live h).Sublist (ahead σ.live h)) : Fate σ h id a τ :=
    .waits hw' hkept hahead fun now ha _ => absurd ha (hne now)
  by_cases hturn : ∃ now, a = .timeout now
  · obtain ⟨now, rfl⟩ := hturn
    obtain rfl := Except.ok.inj hexec
    exact timeout_fate hc hw now
  have hne : ∀ now, a ≠ .timeout now := fun now ha => hturn ⟨now, ha⟩
  cases exec_progress hexec with
  | same hsame =>
    exact keep hne (hw.congr hsame) (fun _ _ => handler_congr hsame) (live_congr hsame ▸ .refl _)
  | @bound r h' id' σ₁ _ _ hbind hτ =>
    obtain ⟨hunbound, -, -, hothers, hcalled⟩ := bindRequest_handler hbind
    obtain ⟨hb, hσ₁⟩ := bindRequest_callbacks hc hbind
    have hnew : ∀ h'' ∈ σ.live, h'' ≠ h' := by
      rintro _ hmem rfl
      exact (hc.bound _).mpr (.inl hmem) hunbound
    have hlive : σ₁.live = σ.live ++ [h'] := congrArg Callbacks.live hσ₁
    have hid : id ≠ id' := by
      rintro rfl
      exact (hc.fresh hb).2 h hw.live (hw.bound hc)
    have hw₁ : σ₁.Awaits h id := by
      refine ⟨?_, ?_, ?_⟩
      · have htable : σ₁.callbackHandlers = _ := congrArg Callbacks.table hσ₁
        rw [htable]
        exact (Function.update_of_ne hid ..).trans hw.table
      · rw [hlive]
        exact List.mem_append_left _ hw.live
      · exact (answers_of_called hcalled).trans hw.answers
    refine keep hne (hw₁.congr hτ) ?_ ?_
    · intro h'' hmem
      rw [handler_congr hτ]
      exact hothers h'' (hnew h'' hmem)
    · rw [live_congr hτ, hlive, ahead_append hw.live]
  | @replied packet h' ha havail hfound huid hτ =>
    by_cases heq : h' = h
    · subst heq
      obtain rfl : packet.callbackId = id := ((hc.table _ _).mp hfound).2.symm.trans (hw.bound hc)
      exact .replied ha havail huid ((hw.complete hc packet).congr hτ)
    · refine keep hne ((hw.complete_ne hc hfound heq packet).congr hτ) ?_ ?_
      · intro h'' _
        rw [handler_congr hτ]
        rfl
      · rw [live_congr hτ, live_complete hc]
        exact ahead_erase heq
  | timedOut ha => exact absurd ha (hne _)

theorem Answered.ne_zero (hc : σ.callbacks.Inv) {packet : IOPacket μ} (ha : σ.Answered h packet) :
    (σ.handler h).cbId ≠ 0 := by
  have hmem : packet ∈ σ.answers h := by simp [ha.answers]
  obtain ⟨call, hcall, -⟩ := List.mem_map.mp hmem
  obtain ⟨hcalled, heq⟩ := List.mem_filter.mp hcall
  refine (hc.bound h).mpr (.inr (List.mem_map.mpr ⟨call, hcalled, by simpa using heq⟩))

/-- A handler that was called is not called again. -/
theorem Answered.step (hc : σ.callbacks.Inv) {packet : IOPacket μ} (ha : σ.Answered h packet)
    (hexec : σ.exec a = .ok τ) : τ.Answered h packet := by
  have complete {id : UInt32} {h' : HandlerId} {packet' : IOPacket μ} (hmem : h' ∈ σ.live)
      (hid : (σ.handler h').cbId = id)
      (hτ : τ.waiters = (σ.complete id h' packet').waiters) : τ.Answered h packet := by
    have hne : h' ≠ h := by
      rintro rfl
      exact ha.live hmem
    refine Answered.congr ⟨?_, ?_, ?_⟩ hτ
    · intro id' hfound
      by_cases hsame : id' = id
      · simp [IOEngine.complete, hsame] at hfound
      · exact ha.table id' (by simpa [IOEngine.complete, hsame] using hfound)
    · rw [live_complete hc]
      exact fun hmem => ha.live (List.mem_of_mem_erase hmem)
    · rw [answers_complete, ha.answers, if_neg hne]
      rfl
  cases exec_progress hexec with
  | same hsame => exact ha.congr hsame
  | @bound r h' id' σ₁ _ _ hbind hτ =>
    obtain ⟨hunbound, -, -, -, hcalled⟩ := bindRequest_handler hbind
    obtain ⟨hb, hσ₁⟩ := bindRequest_callbacks hc hbind
    have hne : h' ≠ h := by
      rintro rfl
      exact ha.ne_zero hc hunbound
    refine Answered.congr ⟨?_, ?_, ?_⟩ hτ
    · intro id'' hfound
      have htable : σ₁.callbackHandlers = _ := congrArg Callbacks.table hσ₁
      rw [htable] at hfound
      by_cases hsame : id'' = id'
      · exact hne (by simpa [Callbacks.bind, hsame] using hfound)
      · exact ha.table id'' (by simpa [Callbacks.bind, callbacks, hsame] using hfound)
    · rw [show σ₁.live = σ.live ++ [h'] from congrArg Callbacks.live hσ₁]
      simp [ha.live, Ne.symm hne]
    · exact (answers_of_called hcalled).trans ha.answers
  | replied _ _ hfound _ hτ =>
    obtain ⟨hmem, hid⟩ := (hc.table _ _).mp hfound
    exact complete hmem hid hτ
  | timedOut _ hfront _ hτ =>
    exact complete (List.mem_of_mem_head? (IntrusiveNode.front_eq σ.callbackTimeOutList ▸ hfront))
      rfl hτ

/-! ### Runs -/

/-- What every run keeps. -/
structure Reached (σ : IOEngine L μ) : Prop where
  callbacks : σ.callbacks.Inv
  connections : σ.connections.Sound

theorem Reached.step (hσ : σ.Reached) (hstep : σ.Permitted a τ) : τ.Reached :=
  ⟨(exec_changed hσ.callbacks hstep.1.2).inv hσ.callbacks,
    (step_change hσ.connections hstep).sound hσ.connections⟩

theorem Reached.run {as : List (Action μ)} (hσ : σ.Reached) (run : Run Permitted σ as τ) :
    τ.Reached :=
  run.invariant Reached (fun _ _ _ hσ hstep => hσ.step hstep) hσ

theorem reached_run {as : List (Action μ)} (run : Run Permitted init as σ) : σ.Reached :=
  Reached.run ⟨inv_init, sound_init⟩ run

/-- No connection is found under 0, so nothing that comes from one is for 0. -/
theorem Reached.zero (hσ : σ.Reached) : σ.isAvailable 0 = false := by
  have hzero : σ.protocols 0 = none := hσ.connections.zero
  simp [isAvailable, getProtocol, hzero]

/-- How many turns of its loop the timer makes at `limit` or later. -/
def turns (limit : Int) (as : List (Action μ)) : Nat :=
  as.countP fun
    | .timeout now => limit ≤ now
    | _ => false

/-- A handler of a request that went to no connection, after a run: its time was over and it was
called once, with the error of that; or it waits, none is in front of it that was not before, and
each turn of the timer since it is due has taken one of those. -/
theorem unsent_run {as : List (Action μ)} (hσ : σ.Reached) (hw : σ.Awaits h id)
    (huid : (σ.handler h).uid = 0) (run : Run Permitted σ as τ) :
    (τ.Failed h ∧ ∃ now, .timeout now ∈ as ∧ (σ.handler h).toMs ≤ now) ∨
      τ.Awaits h id ∧ τ.handler h = σ.handler h ∧ (ahead τ.live h).Sublist (ahead σ.live h) ∧
        ∀ limit, σ.Due h limit → τ.Due h limit ∧
          turns limit as + (ahead τ.live h).length ≤ (ahead σ.live h).length := by
  induction run with
  | nil => exact .inr ⟨hw, rfl, .refl _, fun limit hdue => ⟨hdue, by simp [turns]⟩⟩
  | @snoc as τ υ a hprev hlast ih =>
    have hτ := hσ.run hprev
    rcases ih with ⟨⟨packet, herror, hanswered⟩, now, hnow, hover⟩ | ⟨hwait, hsame, hfewer, hdue⟩
    · exact .inl ⟨⟨packet, herror, hanswered.step hτ.callbacks hlast.1.2⟩, now,
        List.mem_append_left _ hnow, hover⟩
    rw [← hsame] at huid
    cases awaits_fate hτ.callbacks hwait hlast.1.2 with
    | replied _ havail huid' =>
      rw [← huid', huid, hτ.zero] at havail
      cases havail
    | @timedOut now ha hover hanswered =>
      have herror : ErrCode_Timeout ≠ 0 := by decide
      exact .inl ⟨⟨_, herror, hanswered⟩, now, by simp [ha], by rwa [← hsame]⟩
    | waits hwait' hkept hahead hturn =>
      have hsame' : υ.handler h = σ.handler h := (hkept h hwait.live).trans hsame
      refine .inr ⟨hwait', hsame', hahead.trans hfewer, fun limit hlimit => ?_⟩
      obtain ⟨⟨hover, hfront⟩, hcount⟩ := hdue limit hlimit
      refine ⟨⟨by rwa [hkept h hwait.live], fun h' hh' => ?_⟩, ?_⟩
      · have hmem := hahead.subset hh'
        rw [hkept h' ((List.takeWhile_sublist _).subset hmem)]
        exact hfront h' hmem
      · rw [turns, List.countP_append, ← turns]
        have hle := hahead.length_le
        by_cases hlate : ∃ now, a = .timeout now ∧ limit ≤ now
        · obtain ⟨now, ha, hle'⟩ := hlate
          have hlt := hturn now ha ⟨by omega, fun h' hh' => (hfront h' hh').trans hle'⟩
          simp only [ha, List.countP_singleton]
          split <;> omega
        · have hzero : [a].countP (fun
              | .timeout now => decide (limit ≤ now)
              | _ => false) = 0 := by
            rw [List.countP_singleton]
            cases a with
            | timeout now =>
              have : ¬limit ≤ now := fun hle' => hlate ⟨now, rfl, hle'⟩
              simp [this]
            | _ => rfl
          omega

/-! ### Sends -/

/-- The handler was never bound, and the id that comes next is not the one at the front. -/
def CanBind (σ : IOEngine L μ) (h : HandlerId) : Prop :=
  (σ.handler h).cbId = 0 ∧ ∀ front, IntrusiveNode.front σ.callbackTimeOutList = some front →
    (σ.handler front).cbId ≠ idAfter σ.nextCallbackId

theorem idAfter_ne_zero (last : UInt32) : idAfter last ≠ 0 := by
  intro hzero
  have hrange := Cyclic.next_range (M := Callbacks.maxId) (c := last.toNat) (by decide)
  rw [← toNat_idAfter, hzero] at hrange
  exact absurd hrange.1 (by decide)

theorem makeCallbackId_fst : (σ.makeCallbackId).1 ≠ 0 ↔
    ∀ front, IntrusiveNode.front σ.callbackTimeOutList = some front →
      (σ.handler front).cbId ≠ idAfter σ.nextCallbackId := by
  simp only [makeCallbackId]
  split
  · next front hfront =>
    rw [hfront]
    split
    · next heq => simpa using heq
    · next hne => simpa [idAfter_ne_zero] using hne
  · next hnone => simp [hnone, idAfter_ne_zero]

theorem bindRequest_ok_iff (packet : IOPacket μ) (clock : Int) :
    (∃ id τ, σ.bindRequest h packet clock = .ok (id, τ)) ↔ σ.CanBind h := by
  rw [CanBind, ← makeCallbackId_fst]
  constructor
  · rintro ⟨id, τ, hbind⟩
    obtain ⟨_, hinner, -⟩ := of_bind_ok hbind
    obtain ⟨_, hunbound, hinner⟩ := of_bind_ok hinner
    obtain ⟨_, hne, -⟩ := of_bind_ok hinner
    exact ⟨of_require hunbound, of_require hne⟩
  · rintro ⟨hunbound, hne⟩
    simp only [bindRequest, bindCallbackHandler, require_of_true hunbound, require_of_true hne,
      ok_bind]
    exact ⟨_, _, rfl⟩

/-- A handler that was just bound waits. -/
theorem bindRequest_awaits (hc : σ.callbacks.Inv) {packet : IOPacket μ} {clock : Int}
    (hbind : σ.bindRequest h packet clock = .ok (id, τ)) : τ.Awaits h id := by
  obtain ⟨hunbound, -, -, -, hcalled⟩ := bindRequest_handler hbind
  obtain ⟨-, hτ⟩ := bindRequest_callbacks hc hbind
  refine ⟨?_, ?_, ?_⟩
  · rw [show τ.callbackHandlers = _ from congrArg Callbacks.table hτ]
    exact Function.update_self ..
  · rw [show τ.live = σ.live ++ [h] from congrArg Callbacks.live hτ]
    exact List.mem_append_right _ (List.mem_singleton.mpr rfl)
  · rw [answers_of_called hcalled, answers, List.map_eq_nil_iff, List.filter_eq_nil_iff]
    intro call hcall heq
    refine (hc.bound h).mpr (.inr (List.mem_map.mpr ⟨call, hcall, by simpa using heq⟩)) hunbound

theorem Reached.bind (hσ : σ.Reached) {packet : IOPacket μ} {clock : Int}
    (hbind : σ.bindRequest h packet clock = .ok (id, τ)) : τ.Reached := by
  obtain ⟨hb, hτ⟩ := bindRequest_callbacks hσ.callbacks hbind
  constructor
  · rw [hτ]
    exact hσ.callbacks.bind hb
  · rw [bindRequest_connections hbind]
    exact hσ.connections

/-- A request that finds no connection and is for none: its handler is bound, and the error posted. -/
theorem send_unavailable (hσ : σ.Reached) (hcmd : r.packet.cmd ≠ 0)
    (havail : σ.isAvailable r.packet.uid = false) (hhandler : r.callbackHander = some h)
    (hsend : σ.send r = .ok τ) : ∃ id, τ.Reached ∧ τ.Awaits h id ∧ (τ.handler h).uid = 0 ∧
      τ.live = σ.live ++ [h] ∧ ahead τ.live h = σ.live ∧ τ.events = σ.events ∧
      τ.msgqueue = σ.msgqueue ++ [.msg ⟨0, 0, id, ErrCode_CallbackBySendError, none⟩] := by
  simp only [send, if_pos hcmd, havail, Bool.false_eq_true, if_false, hhandler] at hsend
  obtain ⟨_, huid, hsend⟩ := of_bind_ok hsend
  obtain ⟨⟨id, σ₁⟩, hbind, hsend⟩ := of_bind_ok hsend
  obtain rfl := Except.ok.inj hsend
  obtain ⟨hunbound, hsame, -⟩ := bindRequest_handler hbind
  obtain ⟨hevents, hqueue⟩ := bindRequest_events hbind
  obtain ⟨-, hcallbacks⟩ := bindRequest_callbacks hσ.callbacks hbind
  have hlive : σ₁.live = σ.live ++ [h] := congrArg Callbacks.live hcallbacks
  have hnot : h ∉ σ.live := fun hmem => (hσ.callbacks.bound h).mpr (.inl hmem) hunbound
  have hbound := hσ.bind hbind
  refine ⟨id, ⟨hbound.callbacks, ?_⟩, (bindRequest_awaits hσ.callbacks hbind).congr rfl,
    hsame.trans (of_require huid), hlive, ?_, hevents, congrArg (· ++ _) hqueue⟩
  · rw [postMsg_connections]
    exact hbound.connections
  · exact (congrArg (ahead · h) hlive).trans (ahead_last hnot)

/-- The failure of a send has reached its callback. -/
def FailureDelivered (σ : IOEngine L μ) (h : HandlerId) : Prop :=
  ∃ packet, packet.error = ErrCode_CallbackBySendError ∧ σ.Answered h packet

/-- The packet that tells that a send failed reaches no callback: in every reachable state, after a
send that finds no connection, whatever the engine handles, the handler waits until its time is
over. -/
theorem send_error_lost {as : List (Action μ)} (run : Run Permitted init as σ)
    (hcmd : r.packet.cmd ≠ 0) (hhandler : r.callbackHander = some h)
    (havail : σ.isAvailable r.packet.uid = false) (hsend : σ.send r = .ok τ) :
    ∃ id, τ.msgqueue = σ.msgqueue ++ [.msg ⟨0, 0, id, ErrCode_CallbackBySendError, none⟩] ∧
      ∀ bs υ, Run Permitted τ bs υ → (∀ now, .timeout now ∈ bs → now < (τ.handler h).toMs) →
        υ.Awaits h id ∧ ¬υ.FailureDelivered h := by
  obtain ⟨id, hτ, hwait, huid, -, -, -, hqueue⟩ :=
    send_unavailable (reached_run run) hcmd havail hhandler hsend
  refine ⟨id, hqueue, fun bs υ run' hearly => ?_⟩
  rcases unsent_run hτ hwait huid run' with ⟨-, now, hnow, hover⟩ | ⟨hwait', -⟩
  · exact absurd (hearly now hnow) (by omega)
  · refine ⟨hwait', ?_⟩
    rintro ⟨packet, -, hanswered⟩
    exact hanswered.live hwait'.live

/-- The engine after a request that it has no connection for. -/
def lost : IOEngine (List HandlerId) Unit :=
  let _ := IntrusiveNode.list
  init.next (.send ⟨some 0, ⟨0, 7, 0, 0, none⟩, 100⟩)

theorem lost_dispatch : @Run _ _ (@Permitted _ _ .list) lost
    [.dispatch (.msg ⟨0, 0, 1, ErrCode_CallbackBySendError, none⟩)] { lost with msgqueue := [] } := by
  let _ := IntrusiveNode.list
  exact Run.single ⟨⟨by rintro _ ⟨⟩; rfl, rfl⟩, trivial⟩

/-- The handler of the request waits when the engine has handled the packet that tells that it
failed. -/
theorem send_error_lost_local : ∃ id, @Awaits _ _ .list { lost with msgqueue := [] } 0 id := by
  let _ := IntrusiveNode.list
  obtain ⟨id, -, hlost⟩ := send_error_lost (τ := lost) (r := ⟨some 0, ⟨0, 7, 0, 0, none⟩, 100⟩) .nil
    (by decide) rfl rfl rfl
  exact ⟨id, (hlost _ _ lost_dispatch (by simp)).1⟩

/-- The packet is handled, and the handler was not called. -/
theorem send_error_undelivered :
    @send _ _ (@init _ _ .list) .list ⟨some 0, ⟨0, 7, 0, 0, none⟩, 100⟩ = .ok lost ∧
    lost.msgqueue = [.msg ⟨0, 0, 1, ErrCode_CallbackBySendError, none⟩] ∧
    @Run _ _ (@Permitted _ _ .list) lost
      [.dispatch (.msg ⟨0, 0, 1, ErrCode_CallbackBySendError, none⟩)]
      { lost with msgqueue := [] } ∧
    ¬@FailureDelivered _ _ .list { lost with msgqueue := [] } 0 := by
  let _ := IntrusiveNode.list
  refine ⟨rfl, rfl, lost_dispatch, ?_⟩
  rintro ⟨packet, -, hanswered⟩
  exact hanswered.live (List.mem_singleton.mpr rfl)

end IOEngine

end ZlNet.Engine
