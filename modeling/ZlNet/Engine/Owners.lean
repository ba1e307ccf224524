import Mathlib.Data.Set.Defs
import ZlNet.Engine.Loop

/-! Who owns the callback handlers.  `_callbackHandlers` has a reference to each handler that waits,
others may have more, and the lists have none: a handler is deleted when the last reference to it
goes.  `onTimerCallbackTimeout` finds a handler in the list, and what it does with it is recorded
here with the engine as it is then. -/

namespace ZlNet.Engine

/-- What `onTimerCallbackTimeout` does with a handler, in this order. -/
inductive Use
  | readToMs | log | readCbId | leaveExistList | leaveTimeoutList | readPacketFields | onPacket
  deriving DecidableEq, Repr

/-- A use of a handler, the engine as it is then, and the handlers of which someone outside of the
engine has a reference. -/
structure Access (L μ : Type) where
  engine : IOEngine L μ
  outside : Set HandlerId
  handler : HandlerId
  use : Use

/-- The handler of an access has an owner. -/
def Access.Owned {L μ : Type} (access : Access L μ) : Prop :=
  (∃ id, access.engine.callbackHandlers id = some access.handler) ∨ access.handler ∈ access.outside

/-- What the program does around a turn of the loop: the handlers of which someone outside of the
engine has a reference during the turn, and the sends of the handler that is called. -/
structure Round (μ : Type) where
  outside : Set HandlerId
  sends : List (Request μ)

namespace IOEngine

variable {L μ : Type} [IntrusiveNode L] (σ : IOEngine L μ)

omit [IntrusiveNode L] in
/-- `core::remove(_callbackHandlers, cbId)`, with which a reference goes. -/
def removeCallbackHandler (cbId : UInt32) : IOEngine L μ :=
  { σ with callbackHandlers := Function.update σ.callbackHandlers cbId none }

/-- `handler->CallbackHandlerTimeoutList::leave()`. -/
def leaveTimeoutList (h : HandlerId) : IOEngine L μ :=
  { σ with callbackTimeOutList := IntrusiveNode.leave σ.callbackTimeOutList h }

/-- A turn of the loop, statement by statement: the accesses, and the engine after it, or nothing where
the loop ends. -/
def timeoutTurn (now : Int) (outside : Set HandlerId) :
    List (Access L μ) × Option (IOEngine L μ) :=
  match IntrusiveNode.front σ.callbackTimeOutList with
  | none => ([], none)
  | some h =>
    if now < (σ.handler h).toMs then ([⟨σ, outside, h, .readToMs⟩], none)
    else
      let removed := σ.removeCallbackHandler (σ.handler h).cbId
      let left := removed.leaveTimeoutList h
      let handler := left.handler h
      let packet := ⟨handler.uid, handler.cmd, handler.cbId, ErrCode_Timeout, none⟩
      ([⟨σ, outside, h, .readToMs⟩, ⟨σ, outside, h, .log⟩, ⟨σ, outside, h, .readCbId⟩,
        ⟨removed, outside, h, .leaveExistList⟩, ⟨removed, outside, h, .leaveTimeoutList⟩,
        ⟨left, outside, h, .readPacketFields⟩, ⟨left, outside, h, .onPacket⟩],
        some { left with called := left.called ++ [(h, packet)] })

/-- The accesses of the whole loop, as far as `rounds` goes. -/
def timeoutAccesses (now : Int) : List (Round μ) → IOEngine L μ → List (Access L μ)
  | [], _ => []
  | round :: rounds, σ =>
    (σ.timeoutTurn now round.outside).1 ++
      match (σ.timeoutTurn now round.outside).2 with
      | none => []
      | some σ =>
        match round.sends.foldlM (fun σ r => σ.send r) σ with
        | .ok σ => timeoutAccesses now rounds σ
        | .error _ => []

/-- What the loop comes to as far as `rounds` goes, where handlers are deleted: the use of a handler
that has no owner any more ends it, as does a send that fails. -/
inductive Sweeps (now : Int) : List (Round μ) → IOEngine L μ → Except Fault (IOEngine L μ) → Prop
  | idle {σ : IOEngine L μ} (hturn : σ.timeoutFront now = none) : Sweeps now [] σ (.ok σ)
  | stops {σ : IOEngine L μ} {round : Round μ} {rounds : List (Round μ)}
      (howned : ∀ access ∈ (σ.timeoutTurn now round.outside).1, access.Owned)
      (hturn : (σ.timeoutTurn now round.outside).2 = none) :
      Sweeps now (round :: rounds) σ (.ok σ)
  | deleted {σ : IOEngine L μ} {round : Round μ} {rounds : List (Round μ)} {access : Access L μ}
      (haccess : access ∈ (σ.timeoutTurn now round.outside).1) (hunowned : ¬access.Owned) :
      Sweeps now (round :: rounds) σ (.error .dangling)
  | aborts {σ τ : IOEngine L μ} {round : Round μ} {rounds : List (Round μ)} {f : Fault}
      (howned : ∀ access ∈ (σ.timeoutTurn now round.outside).1, access.Owned)
      (hturn : (σ.timeoutTurn now round.outside).2 = some τ)
      (hsends : round.sends.foldlM (fun σ r => σ.send r) τ = .error f) :
      Sweeps now (round :: rounds) σ (.error f)
  | turns {σ τ υ : IOEngine L μ} {round : Round μ} {rounds : List (Round μ)}
      {x : Except Fault (IOEngine L μ)}
      (howned : ∀ access ∈ (σ.timeoutTurn now round.outside).1, access.Owned)
      (hturn : (σ.timeoutTurn now round.outside).2 = some τ)
      (hsends : round.sends.foldlM (fun σ r => σ.send r) τ = .ok υ)
      (hrest : Sweeps now rounds υ x) : Sweeps now (round :: rounds) σ x

/-- A step with which no handler is used that was deleted, where someone outside of the engine has
those of `kept` as long as they wait.  Only the timer can use one: a request binds its own, and an
answer takes a reference from the table. -/
def Kept (kept : Set HandlerId) (σ : IOEngine L μ) (a : Action μ) (τ : IOEngine L μ) : Prop :=
  σ.Permitted a τ ∧ ∀ now, a = .timeout now →
    ∃ outside, kept ⊆ outside ∧ ∀ access ∈ (σ.timeoutTurn now outside).1, access.Owned

end IOEngine

end ZlNet.Engine
