import ZlNet.Engine.Proof.InnerProtocol
import ZlNet.Engine.Proof.Serialize
import ZlNet.Lib.Run

/-! A connection that receives a stream in chunks: each is appended to the receive buffer, and
`onUnserialize` called after it, until it rejects the stream or does not return. -/

namespace ZlNet.Engine

open Network Lib Lib.Bytes

/-- Where a connection stands between two chunks. -/
inductive Verdict
  | accepting (buffer : CRingBuffer)
  | rejected
  | aborted (fault : Fault)
  deriving DecidableEq, Repr

structure Receiver where
  dispatched : List Dispatch
  verdict : Verdict
  deriving DecidableEq, Repr

namespace Receiver

def start (capacity : Nat) : Receiver := ⟨[], .accepting (.new capacity)⟩

/-- The connection after one call of `onUnserialize`. -/
def returned (dispatched : List Dispatch)
    (call : List Dispatch × Except Fault (Bool × CRingBuffer)) : Receiver :=
  ⟨dispatched ++ call.1,
    match call.2 with
    | .ok (true, buffer) => .accepting buffer
    | .ok (false, _) => .rejected
    | .error f => .aborted f⟩

/-- Receives a chunk. -/
def receive (host : Endian) (key : UInt32) (s : Receiver) (chunk : List UInt8) : Receiver :=
  match s.verdict with
  | .accepting buffer =>
    match buffer.write chunk with
    | .ok buffer => returned s.dispatched (InnerProtocol.onUnserialize host key buffer)
    | .error f => ⟨s.dispatched, .aborted f⟩
  | .rejected | .aborted _ => s

/-- Receives a chunk that is not empty and that the buffer has room for, as `write` asks. -/
def Step (host : Endian) (key : UInt32) (s : Receiver) (chunk : List UInt8) (t : Receiver) : Prop :=
  chunk ≠ [] ∧
  (∀ buffer, s.verdict = .accepting buffer → buffer.size + chunk.length < 2 ^ 32) ∧
  t = s.receive host key chunk

/-! ### A run reads the stream -/

variable {host : Endian} {key : UInt32} {s t : Receiver} {chunk : List UInt8}
  {chunks : List (List UInt8)}

/-- A verdict for where a stream stands. -/
inductive Stands : Standing UInt8 Stop → Verdict → Prop
  | waiting {rest : List UInt8} {r : CRingBuffer} :
      r.Holds rest → Stands (.waiting rest) (.accepting r)
  | rejected : Stands (.halted .rejected) .rejected
  | aborted {f : Fault} : Stands (.halted (.aborted f)) (.aborted f)

/-- The connection has dispatched the frames read so far and stands where they end. -/
structure Reads (s : Receiver) (stream : List Dispatch × Standing UInt8 Stop) : Prop where
  dispatched : s.dispatched = stream.1
  stands : Stands stream.2 s.verdict

theorem start_reads {capacity : Nat} (hpos : 0 < capacity) (hlt : capacity < 2 ^ 32) :
    (start capacity).Reads ((frames key).drain []) := by
  have hnext : (frames key).next [] = .more := rfl
  rw [(frames key).drain_more hnext]
  exact ⟨rfl, .waiting (CRingBuffer.new_holds hpos hlt)⟩

theorem returned_reads {r : CRingBuffer} {q : List UInt8} {dispatched es : List Dispatch}
    (h : r.Holds q) (hes : dispatched = es) :
    (returned dispatched (InnerProtocol.onUnserialize host key r)).Reads
      (es ++ ((frames key).drain q).1, ((frames key).drain q).2) := by
  obtain ⟨hdispatched, hreturns⟩ := InnerProtocol.onUnserialize_returns host key h
  subst hes
  refine ⟨by simp only [returned, hdispatched], ?_⟩
  simp only [returned]
  generalize (InnerProtocol.onUnserialize host key r).2 = result at hreturns
  generalize ((frames key).drain q).2 = standing at hreturns
  cases hreturns with
  | waiting hholds => exact .waiting hholds
  | rejected => exact .rejected
  | aborted => exact .aborted

theorem receive_reads {stream : List Dispatch × Standing UInt8 Stop} (h : s.Reads stream)
    (hstep : Step host key s chunk t) : t.Reads ((frames key).feed stream chunk) := by
  obtain ⟨hne, hroom, rfl⟩ := hstep
  obtain ⟨dispatched, verdict⟩ := s
  obtain ⟨es, standing⟩ := stream
  obtain ⟨hes, hstands⟩ := h
  cases hstands with
  | @waiting rest r hholds =>
    have hfit : rest.length + chunk.length < 2 ^ 32 := by
      rw [← hholds.size_eq]
      exact hroom r rfl
    obtain ⟨r', hwrite, hholds'⟩ := CRingBuffer.write_holds hholds hne hfit
    simp only [receive, hwrite]
    exact returned_reads hholds' hes
  | rejected => exact ⟨hes, .rejected⟩
  | aborted => exact ⟨hes, .aborted⟩

/-- However it is cut into chunks, a stream is read as in one piece. -/
theorem run_reads {capacity : Nat} (hpos : 0 < capacity) (hlt : capacity < 2 ^ 32)
    (run : Run (Step host key) (start capacity) chunks s) :
    s.Reads ((frames key).drain chunks.flatten) := by
  have hfeed : s.Reads (chunks.foldl (frames key).feed ((frames key).drain [])) := by
    induction run with
    | nil => exact start_reads hpos hlt
    | snoc _ hstep ih =>
      rw [List.foldl_append]
      exact receive_reads ih hstep
  rwa [Decoder.feed_flatten, List.nil_append] at hfeed

theorem run_foldl (run : Run (Step host key) s chunks t) :
    t = chunks.foldl (receive host key) s := by
  induction run with
  | nil => rfl
  | snoc _ hstep ih =>
    rw [List.foldl_append, ← ih]
    exact hstep.2.2

end Receiver

end ZlNet.Engine
