import ZlNet.Engine.Proof.Transit

/-! Processes with and without the wake-up objects of their network threads send, read and post the same,
since no bytes pass through a wake-up object. -/

namespace ZlNet.Engine

open Network Network.CNetwork Lib Lib.Bytes

namespace System

variable {L : Type} [KeyPool] {σ σ' τ τ' : System L} {id : ObjectId} {o : IOObject}

/-- What passes through an object that both have is the same. -/
theorem Awake.pipe (h : Awake id o σ σ') {id₁ : ObjectId} (hne : id₁ ≠ id) :
    σ'.net.pipe id₁ = σ.net.pipe id₁ := by
  rcases h.heap_cases hne with
    ⟨hnone, hnone'⟩ | ⟨o₁, o₂, hheap, hheap', htwin⟩
  · rw [pipe_none hnone, pipe_none hnone']
  · rw [pipe_eq hheap, pipe_eq hheap', htwin.same]
    rfl

theorem Awake.sending (h : Awake id o σ σ') (id₁ : ObjectId) : σ'.sending id₁ = σ.sending id₁ := by
  have hqueued : σ'.queued = σ.queued := by
    simp only [System.queued, waiting, h.engine, h.awaits.alike.eventQueue]
  unfold System.sending
  rw [hqueued, addressee, addressee, h.awaits.alike.eventQueue]
  cases hhead : σ.net.eventQueue.head?.bind IOEvent.dataKey with
  | none => simp
  | some key =>
    rcases h.found_cases key with ⟨hnone, hnone' | ⟨rfl, -⟩⟩ |
      ⟨id₂, o₁, o₂, hget, hget', hin, hheap, htwin⟩
    · simp [hnone, hnone']
    · -- no data is for the wake-up object
      obtain ⟨event, hevent, hdata⟩ := Option.bind_eq_some_iff.mp hhead
      cases event with
      | data k =>
        obtain rfl := Option.some.inj hdata
        exact absurd rfl (h.reserved.queue _ (.inl (List.mem_of_mem_head? hevent)))
      | listen | connect | close | clear => cases hdata
    · simp only [Option.bind_some, hget, hget', Option.some.injEq]
      by_cases heq : id₂ = id₁
      · subst heq
        rw [hheap, hin.heap, htwin.same]
        rfl
      · simp [heq]

theorem Awake.takes (h : Awake id o σ σ') (a : SystemAction) : σ'.takes a = σ.takes a := by
  funext id₁
  cases a with
  | network b =>
    cases b with
    | dispatch ans => simp only [System.takes, h.sending]
    | _ => rfl
  | _ => rfl

theorem Awake.reads (h : Awake id o σ σ') (a : SystemAction) : σ'.reads a = σ.reads a := by
  funext id₁
  cases a with
  | network b =>
    cases b with
    | poll key event ans =>
      simp only [System.reads]
      rcases h.found_cases key with ⟨hnone, hnone' | ⟨rfl, hself⟩⟩ |
        ⟨id₂, o₁, o₂, hget, hget', hin, hheap, htwin⟩
      · simp [hnone, hnone']
      · simp [hnone, hself, incoming, h.awaits.heap, h.awaits.wakeup.readCallback]
      · rw [hget, hget']
        have hincoming : σ'.net.incoming key event ans = σ.net.incoming key event ans := by
          simp only [incoming, hget, hget', Option.bind_some, hin.heap, hheap]
          rw [show o₂.hasReading = o₁.hasReading by rw [htwin.same]; rfl]
          by_cases hread : o₁.hasReading = true
          · rw [htwin.read_eq (h.coupled.inv.settled hin) hread]
          · simp [hread]
        rw [hincoming]
    | _ => rfl
  | _ => rfl

theorem Awake.posts (h : Awake id o σ σ') (a : SystemAction) : σ'.posts a = σ.posts a := by
  funext id₁
  cases a with
  | network b =>
    cases b with
    | poll key event ans =>
      simp only [System.posts, h.received]
      rcases h.found_cases key with ⟨hnone, hnone' | ⟨rfl, hself⟩⟩ |
        ⟨id₂, o₁, o₂, hget, hget', -⟩
      · simp [hnone, hnone']
      · have hnothing : σ.received (.poll o.key event ans) = .ok [] := by
          simp [System.received, System.input, hnone, pure, Except.pure]
        simp [hnone, hnothing, Except.toOption]
      · rw [hget, hget']
    | _ => rfl
  | _ => rfl

theorem Awake.serializes (h : Awake id o σ σ') {host : Endian} {a : SystemAction}
    (hserializes : σ'.Serializes host a) : σ.Serializes host a := by
  cases a with
  | network b =>
    cases b with
    | dispatch ans =>
      intro id₁ packet hpacket
      exact hserializes id₁ packet (h.sending id₁ ▸ hpacket)
    | _ => trivial
  | _ => trivial

theorem Awake.orderly (h : Awake id o σ σ') {a : SystemAction} (horder : σ'.Orderly a) :
    σ.Orderly a := by
  obtain ⟨hnone, -⟩ := h.awaits.alike.alone _ rfl
  have hnone : σ.net.heap id = none := hnone
  cases a with
  | network b =>
    cases b with
    | dispatch ans =>
      intro id₁ packet hpacket
      have hne : id₁ ≠ id := by
        rintro rfl
        rw [(absent_idle h.coupled.inv hnone _).1] at hpacket
        cases hpacket
      rw [← h.pipe hne]
      exact horder id₁ packet (h.takes _ ▸ hpacket)
    | poll key event ans =>
      intro hwritable id₁ hget
      have hne : id₁ ≠ id := by
        rintro rfl
        obtain ⟨o₁, hin, -⟩ := h.coupled.inv.inTable_of_getObject hget
        cases hnone.symm.trans hin.heap
      rw [← h.pipe hne]
      refine horder hwritable id₁ ?_
      rcases h.found_cases key with ⟨hmissing, -⟩ | ⟨id₂, o₁, o₂, hget₂, hget', -⟩
      · cases hmissing.symm.trans hget
      · rw [hget', ← hget₂]
        exact hget
    | _ => trivial
  | _ => trivial

end System

namespace Station

variable {L : Type} [KeyPool] {s s' : Station L} {τ τ' : System L} {o : IOObject} {id : ObjectId}

/-- `s'` is `s` with the wake-up object `o`, through which nothing has passed. -/
structure Awake (o : IOObject) (s s' : Station L) : Prop where
  system : System.Awake 0 o s.system s'.system
  box : s'.box = s.box
  taken : s'.taken = s.taken
  arrived : s'.arrived = s.arrived
  posted : s'.posted = s.posted
  idle : s.box 0 = .empty ∧ s.taken 0 = [] ∧ s.arrived 0 = [] ∧ s.posted 0 = []
  empty : o.pipe = .empty

omit [KeyPool] in
theorem wakeupObject_pipe (key : UInt32) (socket : Int) :
    (wakeupObject key socket).pipe = .empty := rfl

/-- The wake-up object is not there without it. -/
theorem Awake.none (h : s.Awake o s') : s.system.net.heap 0 = none :=
  (h.system.awaits.alike.alone _ rfl).1

theorem Awake.after (h : s.Awake o s') {a : SystemAction} (hsystem : System.Awake 0 o τ τ') :
    (s.after a τ).Awake o (s'.after a τ') := by
  obtain ⟨htakes, hreads, hposts⟩ := System.absent_idle h.system.coupled.inv h.none a
  have hnone : τ.net.heap 0 = .none := (hsystem.awaits.alike.alone _ rfl).1
  obtain ⟨hbox, htaken, harrived, hposted⟩ := h.idle
  exact {
    system := hsystem
    box := by
      funext id
      simp only [Station.after, h.box]
      by_cases hid : id = 0
      · subst hid
        rw [hsystem.awaits.heap, hnone, pipe_eq hsystem.awaits.heap, h.empty]
        exact hbox.symm
      · rw [hsystem.pipe hid]
        rcases hsystem.heap_cases hid with
          ⟨hnone, hnone'⟩ | ⟨o₁, o₂, hheap, hheap', -⟩
        · rw [hnone, hnone']
        · rw [hheap, hheap']
          rfl
    taken := by
      simp only [Station.after, h.taken, h.system.takes]
    arrived := by
      simp only [Station.after, h.arrived, h.system.reads]
    posted := by
      simp only [Station.after, h.posted, h.system.posts]
    idle := by
      simp only [Station.after, hnone, htaken, htakes, harrived, hreads, hposted, hposts]
      exact ⟨hbox, rfl, rfl, rfl⟩
    empty := h.empty }

/-- The key that an object has is the same with the wake-up object. -/
theorem Awake.key (h : s.Awake o s') {key : UInt32} (hid : id ≠ 0)
    (hkey : ∀ o₁, s.system.net.heap id = some o₁ → o₁.key = key) :
    ∀ o₂, s'.system.net.heap id = some o₂ → o₂.key = key := by
  intro o₂ ho₂
  rcases h.system.heap_cases hid with
    ⟨-, hnone⟩ | ⟨o₁, o₃, hheap, hheap', htwin⟩
  · cases hnone.symm.trans ho₂
  · obtain rfl := Option.some.inj (ho₂.symm.trans hheap')
    rw [← hkey o₁ hheap, htwin.same]

end Station

namespace World

variable {N L : Type} [KeyPool] [IntrusiveNode L] {host : N → Endian}
  {peer : N × ObjectId → Option (N × ObjectId)} {w w' : World N L} {objects : N → IOObject}

/-- All processes before their first step, without their wake-up objects. -/
def unwoken (keys : N → UInt32) : World N L := fun n => { system := .unwoken (keys n) }

/-- Each process of `w'` is that of `w` with its wake-up object. -/
def Awake (objects : N → IOObject) (w w' : World N L) : Prop :=
  ∀ n, (w n).Awake (objects n) (w' n)

theorem awake_starts (hstarts : w'.Starts) :
    ∃ keys objects, Awake objects (unwoken keys : World N L) w' := by
  choose key socket σ hkey hsocket hinit hsame using hstarts
  refine ⟨key, fun n => wakeupObject (key n) (socket n), fun n => ?_⟩
  rw [hsame n]
  exact ⟨System.awake_init (hkey n) (hsocket n) (hinit n), rfl, rfl, rfl, rfl, ⟨rfl, rfl, rfl, rfl⟩,
    Station.wakeupObject_pipe ..⟩

variable [DecidableEq N]

theorem Awake.step {a : N × SystemAction} {v' : World N L} (h : Awake objects w w')
    (hstep : Step host peer w' a v' ∧ w'.Orderly a) :
    ∃ v, (Step host peer w a v ∧ w.Orderly a) ∧ Awake objects v v' := by
  obtain ⟨hact, horder⟩ := hstep
  cases hact with
  | @act n a τ' hstep hserializes hreads =>
    obtain ⟨τ, hstep, hsystem, -⟩ := (h n).system.step hstep
    refine ⟨_, ⟨.act hstep ((h n).system.serializes hserializes) fun id hne e he => ?_,
      (h n).system.orderly horder⟩, fun m => ?_⟩
    · rw [← (h n).system.reads a, ← (h n).arrived, ← (h e.1).box]
      exact hreads id ((h n).system.reads a ▸ hne) e he
    · by_cases heq : m = n
      · subst heq
        rw [Function.update_self, Function.update_self]
        exact (h m).after hsystem
      · rw [Function.update_of_ne heq, Function.update_of_ne heq]
        exact h m

/-- A run from the start of all processes is one without their wake-up objects. -/
theorem awake_run {as : List (N × SystemAction)} {w₀ : World N L} (hstarts : w₀.Starts)
    (run : Run (fun w a w' => Step host peer w a w' ∧ w.Orderly a) w₀ as w') :
    ∃ keys objects w, Run (fun w a w' => Step host peer w a w' ∧ w.Orderly a) (unwoken keys) as w ∧
      Awake objects w w' := by
  obtain ⟨keys, objects, hstart⟩ := awake_starts hstarts
  exact ⟨keys, objects, run.simulate (fun w' w => Awake objects w w')
    (fun w' a v' w h hstep => h.step (a := a) hstep) hstart⟩

end World

end ZlNet.Engine
