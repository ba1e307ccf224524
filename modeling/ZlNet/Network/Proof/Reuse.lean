import ZlNet.Network.Proof.AlikeRun
import ZlNet.Network.Proof.IIOBuffer

/-! An object that is taken from its pool again shows nothing of its life before.  Two network threads
that get the same actions, and take any objects from any pools, stay the same but for callbacks that
are not run. -/

namespace ZlNet.Network

open Lib IOObject

namespace CNetwork

/-- The network thread before its first step, where its pools have objects with lives behind them. -/
def recycled (lives : List IOObject) : CNetwork := { empty with pool := lives.map onRecycle }

/-- The two differ at most in their pools and in callbacks that are not run. -/
structure Indistinct (σ σ' : CNetwork) : Prop where
  objects : σ'.objects = σ.objects
  heap : ∀ id, Option.Rel Twin (σ.heap id) (σ'.heap id)
  created : σ'.created = σ.created
  outstanding : σ'.outstanding = σ.outstanding
  eventQueue : σ'.eventQueue = σ.eventQueue
  notices : σ'.notices = σ.notices

section

variable [KeyPool] {σ σ' : CNetwork} {lives lives' : List IOObject} {as bs : List Action}

theorem Alike.indistinct (h : Alike none σ σ') : Indistinct σ σ' where
  objects := funext fun i => h.objects i (by simp)
  heap id := h.heap id (by simp [Own])
  created := h.created
  outstanding := h.outstanding
  eventQueue := h.eventQueue
  notices := h.notices

theorem inv_recycled (lives : List IOObject) : Inv (recycled lives) where
  table _ _ h := by cases h
  held _ _ h := by cases h
  unique _ _ _ _ h := by cases h
  slots _ h := by cases h
  queued _ h := by cases h
  nodup := List.nodup_nil
  clean o ho := by
    obtain ⟨life, -, rfl⟩ := List.mem_map.mp ho
    exact ⟨rfl, rfl⟩

theorem alike_recycled (lives lives' : List IOObject) :
    Alike none (recycled lives) (recycled lives') where
  heap _ _ := .none
  objects _ _ := rfl
  own _ _ h := by cases h
  beside _ _ h := by cases h
  alone := by simp
  created := rfl
  outstanding := rfl
  eventQueue := rfl
  notices := rfl
  queued _ h := by cases h
  pool o ho := by
    obtain ⟨life, -, rfl⟩ := List.mem_map.mp ho
    exact recycled_onRecycle life
  pool' o ho := by
    obtain ⟨life, -, rfl⟩ := List.mem_map.mp ho
    exact recycled_onRecycle life

theorem avoids_none (σ : CNetwork) (a : Action) : σ.Avoids none a := by
  cases a with
  | dispatch ans =>
    intro event _
    cases event <;> simp [IOEvent.Avoids]
  | poll key event ans => simp [Avoids, Beside]
  | pushKey key => simp [Avoids]
  | recycle object => simp [Avoids, Own]
  | fire con timer ans => trivial
  | listen port id protocolType group key => trivial
  | connect address id protocolType group key => trivial
  | push event => trivial

/-- A run of the one is a run of the other, in which the pools may give other objects. -/
theorem alike_run (lives : List IOObject) (hsame : as.map (·.reusing none) = bs.map (·.reusing none))
    (run : Run Step (recycled lives') bs σ') :
    ∃ σ, Run Step (recycled lives) as σ ∧ Alike none σ σ' ∧ σ.Inv := by
  refine run.simulate_map (fun σ' σ => Alike none σ σ' ∧ σ.Inv) ?_ hsame.symm
    ⟨alike_recycled lives lives', inv_recycled lives⟩
  rintro σ' b τ' σ a ⟨h, hinv⟩ hab hstep
  obtain ⟨reused, rfl⟩ := Action.eq_reusing hab.symm
  exact h.step hinv (by simp) hstep (avoids_none σ a)

theorem pool_recycled (run : Run Step empty as σ) : ∀ o ∈ σ.pool, Recycled o := by
  have run : Run Step (recycled []) as σ := run
  obtain ⟨_, _, halike, _⟩ := alike_run [] rfl run
  exact halike.pool'

/-- A network thread that gets the same actions as another, but for the objects that the pools give,
goes through a run as the other does, whatever the objects of the two have lived through: objects,
buffers, states, what was sent and what protocols were told are the same after it, and so is the
next step.  The ring buffers of a recycled object hold nothing. -/
theorem reuse_unobservable (lives : List IOObject)
    (hsame : as.map (·.reusing none) = bs.map (·.reusing none))
    (run : Run Step (recycled lives') bs σ') :
    (∃ σ, Run Step (recycled lives) as σ ∧ Indistinct σ σ' ∧
      ∀ a b, a.reusing none = b.reusing none → σ'.Pre b →
        σ.Pre a ∧ Both Indistinct (σ.exec a) (σ'.exec b)) ∧
    ∀ (r : CRingBuffer) (b : IIOBuffer), r.Holds b.bytes → r.clear.Holds IIOBuffer.new.bytes := by
  refine ⟨?_, fun r b hholds => IIOBuffer.clear_holds hholds⟩
  obtain ⟨σ, hrun, h, hinv⟩ := alike_run lives hsame run
  refine ⟨σ, hrun, h.indistinct, fun a b hab hpre => ?_⟩
  obtain ⟨reused, rfl⟩ := Action.eq_reusing hab
  have hpre := h.pre (by simp) hpre
  exact ⟨hpre, (h.exec hinv hpre (avoids_none σ a) reused).mono fun τ τ' => Alike.indistinct⟩

end

/-- A connector with data that it has received and data that it has yet to send. -/
def sending : IOObject where
  type := .CONNECTOR
  key := 9
  events := READ_EVENT ||| WRITE_EVENT
  errorCallback := some .handleTcpConError
  readCallback := some .handleTcpConRead
  writeCallback := some .handleTcpConWrite
  state := .DISCONNECTING
  inputBuffer := ⟨[1, 2]⟩
  outBuffer := ⟨[7]⟩
  isWriting := true
  timers := [.onTimer, .forceClose]

/-- It is recycled and taken to connect again, and is like a new connector then, although it still
has its callback for reading. -/
theorem reuse_unobservable_sending :
    ∃ σ σ', Run (@Step .lowBits) (recycled [])
        [.connect ⟨1, 80⟩ 0 .TCP 0 5, .dispatch { socket := 3 }] σ ∧
      Run (@Step .lowBits) (recycled [sending])
        [.connect ⟨1, 80⟩ 0 .TCP 0 5, .dispatch { socket := 3, reused := some 0 }] σ' ∧
      Indistinct σ σ' ∧ (σ'.heap 0).map (·.readCallback) = some (some .handleTcpConRead) := by
  let _ := KeyPool.lowBits
  have h1 := Run.nil.snoc (step_next (recycled [sending]) (a := .connect ⟨1, 80⟩ 0 .TCP 0 5)
    (.inr (by rintro _ ⟨⟩)) rfl)
  have h2 := h1.snoc (step_next _ (a := .dispatch { socket := 3, reused := some 0 })
    ⟨by rintro _ ⟨⟩, by rintro _ ⟨⟩⟩ (by decide +kernel))
  have hsame : [Action.connect ⟨1, 80⟩ 0 .TCP 0 5, .dispatch { socket := 3 }].map (·.reusing none) =
      [Action.connect ⟨1, 80⟩ 0 .TCP 0 5, .dispatch { socket := 3, reused := some 0 }].map
        (·.reusing none) := rfl
  obtain ⟨⟨σ, hrun, hindistinct, -⟩, -⟩ := reuse_unobservable [] hsame h2
  exact ⟨σ, _, hrun, h2, hindistinct, by decide +kernel⟩

end CNetwork

end ZlNet.Network
