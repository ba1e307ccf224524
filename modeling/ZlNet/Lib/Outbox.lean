import Mathlib.Data.List.Basic

/-! An outbox: what a sink has taken of a stream, and what is pending because the sink took only
part of what it was offered. -/

namespace ZlNet.Lib

structure Outbox (α : Type*) where
  sent : List α
  pending : List α
  deriving DecidableEq

namespace Outbox

variable {α : Type*} {n : Nat}

/-- Nothing sent and nothing pending. -/
def empty : Outbox α := ⟨[], []⟩

/-- Offers new items to the sink, which takes `n`; the others become pending. -/
def push (b : Outbox α) (items : List α) (n : Nat) : Outbox α :=
  ⟨b.sent ++ items.take n, b.pending ++ items.drop n⟩

/-- Offers the pending items to the sink, which takes `n`. -/
def drain (b : Outbox α) (n : Nat) : Outbox α := ⟨b.sent ++ b.pending.take n, b.pending.drop n⟩

/-- All items, in the order in which the sink takes them if nothing else is pushed. -/
def stream (b : Outbox α) : List α := b.sent ++ b.pending

theorem sent_prefix (b : Outbox α) : b.sent <+: b.stream := List.prefix_append ..

@[simp] theorem drain_stream (b : Outbox α) (n : Nat) : (b.drain n).stream = b.stream := by
  simp [drain, stream]

/-- A push appends to the stream if nothing is pending. -/
theorem push_stream {b : Outbox α} (items : List α) (h : b.pending = []) :
    (b.push items n).stream = b.stream ++ items := by
  simp [push, stream, h]

theorem push_count (b : Outbox α) (items : List α) (n : Nat) :
    (b.push items n).stream.length = b.stream.length + items.length := by
  simp only [push, stream, List.length_append, List.length_take, List.length_drop]
  omega

end Outbox

end ZlNet.Lib
