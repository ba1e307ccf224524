import ZlNet.Engine.Owners
import ZlNet.Engine.Proof.Sweep

/-! Whether the handlers that a sweep of the time-out list uses are owned.  The table has each handler of
the list, and the sweep takes the handler out of the table before it is done with it.  A sweep that
finds an owner outside of the engine for each handler that it calls ends as it should. -/

namespace ZlNet.Engine.IOEngine

open Lib

variable {L μ : Type} [IntrusiveNode L] {σ τ υ : IOEngine L μ} {h : HandlerId} {now : Int} {rounds : List (Round μ)}

/-- The first handler of the list, and its time is over. -/
def Over (σ : IOEngine L μ) (now : Int) (h : HandlerId) : Prop :=
  IntrusiveNode.front σ.callbackTimeOutList = some h ∧ (σ.handler h).toMs ≤ now

/-- Whatever handler a turn of the loop finds to be over, someone outside of the engine has it. -/
def Held (now : Int) : List (Round μ) → IOEngine L μ → Prop
  | [], _ => True
  | round :: rounds, σ =>
    (∀ h, σ.Over now h → h ∈ round.outside) ∧
      ∀ τ υ, σ.timeoutFront now = some τ → round.sends.foldlM (fun σ r => σ.send r) τ = .ok υ →
        Held now rounds υ

/-! ### A turn of the loop -/

/-- The statements of a turn do what `timeoutFront` does. -/
theorem timeoutTurn_snd (outside : Set HandlerId) : (σ.timeoutTurn now outside).2 = σ.timeoutFront now := by
  cases hfront : IntrusiveNode.front σ.callbackTimeOutList with
  | none => simp only [timeoutTurn, timeoutFront, hfront]
  | some h =>
    simp only [timeoutTurn, timeoutFront, hfront]
    split
    · rfl
    · rfl

/-- A handler of the list is in the table, under its id. -/
theorem table_of_front (hc : σ.callbacks.Inv)
    (hfront : IntrusiveNode.front σ.callbackTimeOutList = some h) :
    σ.callbackHandlers (σ.handler h).cbId = some h := by
  rw [IntrusiveNode.front_eq] at hfront
  exact (hc.table _ h).mpr ⟨List.mem_of_mem_head? hfront, rfl⟩

/-- It is under no other, so that it is not in the table once its id is removed. -/
theorem removed_table (hc : σ.callbacks.Inv) (id : UInt32) :
    (σ.removeCallbackHandler (σ.handler h).cbId).callbackHandlers id ≠ some h := by
  change Function.update σ.callbackHandlers (σ.handler h).cbId none id ≠ some h
  intro hfound
  by_cases hid : id = (σ.handler h).cbId
  · rw [hid, Function.update_self] at hfound
    cases hfound
  · rw [Function.update_of_ne hid] at hfound
    exact hid ((hc.table id h).mp hfound).2.symm

/-- The accesses of a turn are to handlers that are owned exactly where the handler that it calls, if
there is one, is owned from outside. -/
theorem timeoutTurn_owned (hc : σ.callbacks.Inv) (now : Int) (outside : Set HandlerId) :
    (∀ access ∈ (σ.timeoutTurn now outside).1, access.Owned) ↔ ∀ h, σ.Over now h → h ∈ outside := by
  unfold timeoutTurn
  split
  · next hnone =>
    refine iff_of_true (fun access haccess => by cases haccess) fun h hover => ?_
    cases hnone.symm.trans hover.1
  next h hfront =>
  have htable : ∃ id, σ.callbackHandlers id = some h := ⟨_, table_of_front hc hfront⟩
  split
  · next hearly =>
    refine iff_of_true (fun access haccess => ?_) fun h' hover => ?_
    · obtain rfl := List.mem_singleton.mp haccess
      exact .inl htable
    · obtain rfl := Option.some.inj (hfront.symm.trans hover.1)
      exact absurd hover.2 (Int.not_le.mpr hearly)
  · next hlate =>
    have hover : σ.Over now h := ⟨hfront, Int.not_lt.mp hlate⟩
    constructor
    · intro howned h' hover'
      obtain rfl := Option.some.inj (hfront.symm.trans hover'.1)
      -- from `leave` on, the table does not have the handler any more
      have hleave := howned
        ⟨σ.removeCallbackHandler (σ.handler h).cbId, outside, h, .leaveExistList⟩ (by simp)
      exact hleave.resolve_left fun ⟨id, hid⟩ => removed_table hc id hid
    · intro houtside access haccess
      have hout : h ∈ outside := houtside h hover
      simp only [List.mem_cons, List.not_mem_nil, or_false] at haccess
      rcases haccess with rfl | rfl | rfl | rfl | rfl | rfl | rfl
      all_goals exact .inr hout

/-- The calls among the accesses. -/
def calls (accesses : List (Access L μ)) : List HandlerId :=
  (accesses.filter fun access => access.use = .onPacket).map Access.handler

omit [IntrusiveNode L] in
theorem calls_append (accesses accesses' : List (Access L μ)) :
    calls (accesses ++ accesses') = calls accesses ++ calls accesses' := by
  rw [calls, List.filter_append, List.map_append]
  rfl

/-- A turn calls the handler that `timeoutFront` calls. -/
theorem timeoutTurn_called (htimeout : σ.timeoutFront now = some τ) (outside : Set HandlerId) :
    τ.called.map Prod.fst = σ.called.map Prod.fst ++ calls (σ.timeoutTurn now outside).1 := by
  obtain ⟨h, hfront, hover, rfl⟩ := timeoutFront_cases htimeout
  simp only [timeoutTurn, hfront, if_neg (Int.not_lt.mpr hover)]
  exact List.map_append

theorem timeoutTurn_quiet (htimeout : σ.timeoutFront now = none) (outside : Set HandlerId) :
    calls (σ.timeoutTurn now outside).1 = [] := by
  rw [← timeoutTurn_snd outside] at htimeout
  unfold timeoutTurn at htimeout ⊢
  split
  · rfl
  · split
    · rfl
    · next hfront hlate =>
      simp only [hfront, if_neg hlate] at htimeout
      cases htimeout

/-! ### The loop -/

theorem timeoutAccesses_last {round : Round μ} (htimeout : σ.timeoutFront now = none) :
    timeoutAccesses now (round :: rounds) σ = (σ.timeoutTurn now round.outside).1 := by
  simp only [timeoutAccesses, timeoutTurn_snd, htimeout, List.append_nil]

theorem timeoutAccesses_failed {round : Round μ} {f : Fault} (htimeout : σ.timeoutFront now = some τ)
    (hsends : round.sends.foldlM (fun σ r => σ.send r) τ = .error f) :
    timeoutAccesses now (round :: rounds) σ = (σ.timeoutTurn now round.outside).1 := by
  simp only [timeoutAccesses, timeoutTurn_snd, htimeout, hsends, List.append_nil]

theorem timeoutAccesses_next {round : Round μ} (htimeout : σ.timeoutFront now = some τ)
    (hsends : round.sends.foldlM (fun σ r => σ.send r) τ = .ok υ) :
    timeoutAccesses now (round :: rounds) σ =
      (σ.timeoutTurn now round.outside).1 ++ timeoutAccesses now rounds υ := by
  simp only [timeoutAccesses, timeoutTurn_snd, htimeout, hsends]

/-- The handlers that the loop calls are those of the accesses that are calls, in this order. -/
theorem timeoutAccesses_called
    (hloop : onTimerCallbackTimeout now (rounds.map Round.sends) σ = .ok τ) :
    τ.called.map Prod.fst = σ.called.map Prod.fst ++ calls (timeoutAccesses now rounds σ) := by
  induction rounds generalizing σ with
  | nil =>
    simp only [List.map_nil, onTimerCallbackTimeout] at hloop
    split at hloop
    · obtain rfl := Except.ok.inj hloop
      exact (List.append_nil _).symm
    · cases hloop
  | cons round rounds ih =>
    simp only [List.map_cons, onTimerCallbackTimeout] at hloop
    split at hloop
    · next htimeout =>
      obtain rfl := Except.ok.inj hloop
      rw [timeoutAccesses_last htimeout, timeoutTurn_quiet htimeout round.outside, List.append_nil]
    · next σ₁ htimeout =>
      obtain ⟨σ₂, hsends, hloop⟩ := of_bind_ok hloop
      have hturn := timeoutTurn_called htimeout round.outside
      rw [ih hloop, sends_called hsends, hturn, timeoutAccesses_next htimeout hsends, calls_append,
        List.append_assoc]

/-- In every run, the accesses of a sweep are to handlers that are owned exactly where every handler
that it calls is owned from outside of the engine then. -/
theorem timeout_owned_iff {as : List (Action μ)} (run : Run Step init as σ) (now : Int)
    (rounds : List (Round μ)) :
    (∀ access ∈ timeoutAccesses now rounds σ, access.Owned) ↔ Held now rounds σ := by
  induction rounds generalizing as σ with
  | nil => exact iff_of_true (fun access haccess => by cases haccess) trivial
  | cons round rounds ih =>
    have hturn := timeoutTurn_owned (inv_run run) now round.outside
    rw [Held]
    cases htimeout : σ.timeoutFront now with
    | none =>
      rw [timeoutAccesses_last htimeout, hturn]
      exact (and_iff_left fun τ υ hsome => by cases hsome).symm
    | some τ =>
      cases hsends : round.sends.foldlM (fun σ r => σ.send r) τ with
      | error f =>
        rw [timeoutAccesses_failed htimeout hsends, hturn]
        refine (and_iff_left ?_).symm
        rintro _ υ ⟨⟩ hok
        cases hsends.symm.trans hok
      | ok υ =>
        have hrest := ih ((run.snoc (timeout_step htimeout)).append (sends_run hsends))
        rw [timeoutAccesses_next htimeout hsends, List.forall_mem_append, hturn, hrest]
        refine and_congr_right fun _ => ⟨fun hheld => ?_, fun hheld => hheld τ υ rfl hsends⟩
        rintro _ υ' ⟨⟩ hok
        obtain rfl := Except.ok.inj (hsends.symm.trans hok)
        exact hheld

/-- It is enough that whoever sends with a handler keeps it until it was called. -/
theorem held_of_expired {as : List (Action μ)} (run : Run Step init as σ)
    (hnow : ∀ round ∈ rounds, ∀ r ∈ round.sends, now ≤ r.clock)
    (houtside : ∀ round ∈ rounds, ∀ h ∈ σ.expired now, h ∈ round.outside) :
    Held now rounds σ := by
  induction rounds generalizing as σ with
  | nil => trivial
  | cons round rounds ih =>
    refine ⟨fun h hover => houtside round List.mem_cons_self h ?_, fun τ υ htimeout hsends => ?_⟩
    · obtain ⟨hfront, hlate⟩ := hover
      rw [IntrusiveNode.front_eq] at hfront
      have hlive : h ∈ σ.live := List.mem_of_mem_head? hfront
      exact List.mem_filter.mpr ⟨hlive, by simpa using hlate⟩
    · have hrun := run.snoc (timeout_step htimeout)
      obtain ⟨h, packet, hexpired, -⟩ := expired_turn (inv_run run) htimeout
      have hsame := expired_sends hrun (hnow round List.mem_cons_self) hsends
      refine ih (hrun.append (sends_run hsends))
        (fun round hround => hnow round (List.mem_cons_of_mem _ hround)) fun round hround h' hh' => ?_
      rw [hsame] at hh'
      exact houtside round (List.mem_cons_of_mem _ hround) h'
        (hexpired ▸ List.mem_cons_of_mem _ hh')

/-- A connector is connected and sends with a handler. -/
def connectedActions : List (Action Unit) :=
  [.create, .connect ⟨1, 80⟩ 0 1, .post (.notify ⟨.PacketConnect, 1, 0, none, true⟩),
    .dispatch (.notify ⟨.PacketConnect, 1, 0, none, true⟩), .send ⟨some 0, ⟨1, 7, 0, 0, none⟩, 100⟩]

/-- The state after them. -/
def connected : IOEngine (List HandlerId) Unit :=
  let _ := IntrusiveNode.list
  connectedActions.foldl next init

theorem connected_run :
    @Run _ _ (@Step _ _ .list) (@init _ _ .list) connectedActions connected := by
  let _ := IntrusiveNode.list
  have h1 : Run Step (init : IOEngine (List HandlerId) Unit) [.create] _ :=
    .single ⟨by rintro _ ⟨⟩, rfl⟩
  have h2 := h1.snoc (a := .connect ⟨1, 80⟩ 0 1) ⟨by rintro _ ⟨⟩, rfl⟩
  have h3 := h2.snoc (a := .post (.notify ⟨.PacketConnect, 1, 0, none, true⟩)) ⟨by rintro _ ⟨⟩, rfl⟩
  have h4 := h3.snoc (a := .dispatch (.notify ⟨.PacketConnect, 1, 0, none, true⟩))
    ⟨by rintro _ ⟨⟩; rfl, rfl⟩
  exact h4.snoc (a := .send ⟨some 0, ⟨1, 7, 0, 0, none⟩, 100⟩) ⟨by rintro _ ⟨⟩, rfl⟩

/-- The answer does not come in time, and whoever has sent has the handler. -/
theorem timeout_owned_iff_kept :
    calls (@timeoutAccesses _ _ .list 10100 [⟨{0}, []⟩] connected) = [0] ∧
      ∀ access ∈ @timeoutAccesses _ _ .list 10100 [⟨{0}, []⟩] connected, access.Owned := by
  let _ := IntrusiveNode.list
  refine ⟨rfl, (timeout_owned_iff connected_run 10100 [⟨{0}, []⟩]).mpr ⟨fun h hover => ?_, ?_⟩⟩
  · obtain rfl := Option.some.inj hover.1
    rfl
  · exact fun _ _ _ _ => trivial

/-- The handler was made for a `std::function`, and nobody else has it.  The sweep takes it out of the
table, with which it is gone, makes it leave the lists, and calls it. -/
theorem timeout_unowned_function :
    @Run _ _ (@Step _ _ .list) (@init _ _ .list) connectedActions connected ∧
      ∃ access ∈ @timeoutAccesses _ _ .list 10100 [⟨∅, []⟩] connected,
        access.handler = 0 ∧ access.use = .onPacket ∧ ¬access.Owned := by
  let _ := IntrusiveNode.list
  let removed := connected.removeCallbackHandler 1
  refine ⟨connected_run, ⟨removed.leaveTimeoutList 0, ∅, 0, .onPacket⟩, ?_, rfl, rfl, ?_⟩
  · exact .tail _ (.tail _ (.tail _ (.tail _ (.tail _ (.tail _ (.head _))))))
  · rintro (⟨id, hid⟩ | hnone)
    · exact removed_table (h := 0) (inv_run connected_run) id hid
    · exact hnone

/-! ### The loop, where handlers are deleted -/

/-- Where the loop uses no handler that was deleted it comes to what `onTimerCallbackTimeout` returns. -/
theorem Sweeps.eq {x : Except Fault (IOEngine L μ)} (hsweeps : Sweeps now rounds σ x)
    (hx : x ≠ .error .dangling) : onTimerCallbackTimeout now (rounds.map Round.sends) σ = x := by
  induction hsweeps with
  | idle hturn => simp only [List.map_nil, onTimerCallbackTimeout, hturn]; rfl
  | stops _ hturn =>
    rw [timeoutTurn_snd] at hturn
    simp only [List.map_cons, onTimerCallbackTimeout, hturn]
    rfl
  | deleted => exact absurd rfl hx
  | aborts _ hturn hsends =>
    rw [timeoutTurn_snd] at hturn
    simp only [List.map_cons, onTimerCallbackTimeout, hturn, hsends]
    rfl
  | turns _ hturn hsends _ ih =>
    rw [timeoutTurn_snd] at hturn
    simp only [List.map_cons, onTimerCallbackTimeout, hturn, hsends, ok_bind]
    exact ih hx

theorem sweeps_of_held {as : List (Action μ)} (run : Run Step init as σ) (hheld : Held now rounds σ)
    (hends : onTimerCallbackTimeout now (rounds.map Round.sends) σ ≠ .error .diverges) :
    Sweeps now rounds σ (onTimerCallbackTimeout now (rounds.map Round.sends) σ) := by
  induction rounds generalizing as σ with
  | nil =>
    simp only [List.map_nil, onTimerCallbackTimeout] at hends ⊢
    split at hends
    · next hturn => exact .idle hturn
    · exact absurd rfl hends
  | cons round rounds ih =>
    have howned := (timeoutTurn_owned (inv_run run) now round.outside).mpr hheld.1
    have hsnd : (σ.timeoutTurn now round.outside).2 = σ.timeoutFront now :=
      timeoutTurn_snd round.outside
    simp only [List.map_cons, onTimerCallbackTimeout] at hends ⊢
    cases hturn : σ.timeoutFront now with
    | none => exact .stops howned (hsnd.trans hturn)
    | some τ =>
      simp only [hturn] at hends ⊢
      cases hsends : round.sends.foldlM (fun σ r => σ.send r) τ with
      | error f => exact .aborts howned (hsnd.trans hturn) hsends
      | ok υ =>
        simp only [hsends, ok_bind] at hends ⊢
        have hrun := (run.snoc (timeout_step hturn)).append (sends_run hsends)
        exact .turns howned (hsnd.trans hturn) hsends (ih hrun (hheld.2 τ υ hturn hsends) hends)

/-- No outcome of such a loop is the use of a deleted handler. -/
theorem Sweeps.ne_dangling {as : List (Action μ)} {x : Except Fault (IOEngine L μ)}
    (hsweeps : Sweeps now rounds σ x) (run : Run Step init as σ) (hheld : Held now rounds σ) :
    x ≠ .error .dangling := by
  induction hsweeps generalizing as with
  | idle | stops => simp
  | deleted haccess hunowned =>
    exact absurd ((timeoutTurn_owned (inv_run run) now _).mpr hheld.1 _ haccess) hunowned
  | aborts _ _ hsends =>
    obtain ⟨υ, r, -, hsend⟩ := sends_error hsends
    have hassert := send_asserts υ r
    rw [hsend] at hassert
    obtain ⟨site, rfl⟩ := hassert
    simp
  | turns _ hturn hsends _ ih =>
    rw [timeoutTurn_snd] at hturn
    exact ih ((run.snoc (timeout_step hturn)).append (sends_run hsends))
      (hheld.2 _ _ hturn hsends)

/-- Every other loop uses one. -/
theorem held_of_sweeps {as : List (Action μ)} (run : Run Step init as σ)
    (hsafe : ¬Sweeps now rounds σ (.error .dangling)) : Held now rounds σ := by
  induction rounds generalizing as σ with
  | nil => trivial
  | cons round rounds ih =>
    have howned : ∀ access ∈ (σ.timeoutTurn now round.outside).1, access.Owned := by
      intro access haccess
      by_contra hunowned
      exact hsafe (.deleted haccess hunowned)
    refine ⟨(timeoutTurn_owned (inv_run run) now round.outside).mp howned, fun τ υ hturn hsends => ?_⟩
    have hrun := (run.snoc (timeout_step hturn)).append (sends_run hsends)
    refine ih hrun fun hdangling => hsafe (.turns howned ?_ hsends hdangling)
    rwa [timeoutTurn_snd]

theorem Swept.ne_dangling {sends : List (Request μ)} {x : Except Fault (IOEngine L μ)}
    (hswept : Swept σ now sends x) : x ≠ .error .dangling ∧ x ≠ .error .diverges := by
  cases hswept with
  | returned => simp
  | aborted => simp

/-- In every run with a clock that does not go back the time-out list is sorted.  A sweep then takes no
more turns than there are handlers whose time is over, whatever its handlers send, and ends as it
should, if and only if whatever handler a turn finds to be over is owned from outside then. -/
theorem timeout_sweep_iff {as : List (Action μ)} (run : Run Step init as σ) (hclock : Clocked as) :
    σ.Sorted ∧ ∀ now (rounds : List (Round μ)),
      Clocked (as ++ timeoutActions now (rounds.map Round.sends)) →
      (∀ r ∈ (rounds.map Round.sends).flatten, now ≤ r.clock) →
      (σ.expired now).length ≤ rounds.length →
      (((∃ x, Sweeps now rounds σ x) ∧
          ∀ x, Sweeps now rounds σ x → Swept σ now (rounds.map Round.sends).flatten x) ↔
        Held now rounds σ) := by
  refine ⟨sorted_run run hclock, fun now rounds hclock hnow hmany => ?_⟩
  constructor
  · rintro ⟨-, hswept⟩
    exact held_of_sweeps run fun hdangling => (hswept _ hdangling).ne_dangling.1 rfl
  · intro hheld
    have hmany' : (σ.expired now).length ≤ (rounds.map Round.sends).length := by
      rwa [List.length_map]
    have hswept := sweep_run run hclock hnow hmany'
    refine ⟨⟨_, sweeps_of_held run hheld hswept.ne_dangling.2⟩, fun x hsweeps => ?_⟩
    obtain rfl := hsweeps.eq (hsweeps.ne_dangling run hheld)
    exact hswept

/-- The answer does not come in time; whoever has sent has the handler, which sends again. -/
theorem timeout_sweep_iff_resend :
    let rounds : List (Round Unit) := [⟨{0}, [⟨some 1, ⟨1, 7, 0, 0, none⟩, 10160⟩]⟩]
    @Sorted _ _ .list connected ∧ (∃ x, @Sweeps _ _ .list 10150 rounds connected x) ∧
      ∀ x, @Sweeps _ _ .list 10150 rounds connected x →
        @Swept _ _ .list connected 10150 [⟨some 1, ⟨1, 7, 0, 0, none⟩, 10160⟩] x := by
  let _ := IntrusiveNode.list
  have hclock : ([100] : List Int).Pairwise (· ≤ ·) := by decide
  have hclock' : ([100, 10160] : List Int).Pairwise (· ≤ ·) := by decide
  obtain ⟨hsorted, hsweep⟩ := timeout_sweep_iff connected_run hclock
  refine ⟨hsorted, (hsweep 10150 [⟨{0}, [⟨some 1, ⟨1, 7, 0, 0, none⟩, 10160⟩]⟩] hclock' (by simp)
    (by decide)).mpr ⟨fun h hover => ?_, ?_⟩⟩
  · obtain rfl := Option.some.inj hover.1
    rfl
  · exact fun _ _ _ _ => trivial

/-- The handler was made for a `std::function`: the sweep uses it when it is gone. -/
theorem timeout_sweep_deleted :
    @Run _ _ (@Step _ _ .list) (@init _ _ .list) connectedActions connected ∧
      Clocked connectedActions ∧
      ¬((∃ x, @Sweeps _ _ .list 10100 [⟨∅, []⟩] connected x) ∧
        ∀ x, @Sweeps _ _ .list 10100 [⟨∅, []⟩] connected x →
          @Swept _ _ .list connected 10100 [] x) := by
  let _ := IntrusiveNode.list
  refine ⟨connected_run, (by decide : ([100] : List Int).Pairwise (· ≤ ·)), ?_⟩
  rintro ⟨-, hswept⟩
  obtain ⟨hfront, -⟩ := held_of_sweeps connected_run fun hdangling =>
    (hswept _ hdangling).ne_dangling.1 rfl
  exact hfront 0 ⟨rfl, by decide⟩

end ZlNet.Engine.IOEngine
