import ZlNet.Lib.Run
import ZlNet.Network.Proof.RingBuffer

/-! Whole runs of a ring buffer.  A run is any sequence of operations that meet their asserted
preconditions; it refines a run of a FIFO queue with the same operations and results. -/

namespace ZlNet.Network

open CRingBuffer

/-- The operations of a ring buffer.  `scatter` is the caller's, who stores bytes in the segments
that `getWriteableVec` has just offered. -/
inductive RingOp
  | write (bytes : List UInt8)
  | read (len : Nat)
  | look (len : Nat)
  | getWriteableVec
  | scatter (bytes : List UInt8)
  | writeConfirm (len : Nat)
  | getReadableVec
  | readConfirm (len : Nat)
  | clear
  | tryshrink
  deriving DecidableEq, Repr

/-- A ring buffer in use, with whether the last operation offered segments to write to. -/
structure RingState where
  ring : CRingBuffer
  offered : Bool
  deriving DecidableEq, Repr

namespace RingState

def start (capacity : Nat) : RingState := ⟨.new capacity, false⟩

/-- What the source asserts or relies on before an operation. -/
def Pre (s : RingState) (op : RingOp) : Prop :=
  s.ring.capacity < 2 ^ 31 ∧
  match op with
  | .write bytes => 0 < bytes.length ∧ s.ring.size + bytes.length < 2 ^ 32
  | .read len | .look len | .readConfirm len => 0 < len ∧ len ≤ s.ring.size
  | .scatter bytes => s.offered = true ∧ bytes.length ≤ s.ring.offeredBytes
  | .writeConfirm len => s.offered = true ∧ 0 < len ∧ len ≤ s.ring.offeredBytes
  | .getWriteableVec | .getReadableVec | .clear | .tryshrink => True

instance (s : RingState) (op : RingOp) : Decidable (s.Pre op) := by
  unfold Pre
  cases op <;> infer_instance

/-- Runs an operation: its result, with the bytes of the segments for `getWriteableVec` and
`getReadableVec`, and the state after it. -/
def exec (s : RingState) : RingOp → Except Fault (List UInt8 × RingState)
  | .write bytes => do
    let r ← s.ring.write bytes
    return ([], ⟨r, false⟩)
  | .read len => do
    let (bytes, r) ← s.ring.read len
    return (bytes, ⟨r, false⟩)
  | .look len => do
    let bytes ← s.ring.look len
    return (bytes, ⟨s.ring, false⟩)
  | .getWriteableVec => do
    let r ← s.ring.getWriteableVec
    let bytes ← r.gather r.writerv
    return (bytes, ⟨r, true⟩)
  | .scatter bytes => do
    let r ← s.ring.scatter bytes
    return ([], ⟨r, s.offered⟩)
  | .writeConfirm len => do
    let r ← s.ring.writeConfirm len
    return ([], ⟨r, false⟩)
  | .getReadableVec => do
    let r := s.ring.getReadableVec
    let bytes ← r.gather r.readerv
    return (bytes, ⟨r, false⟩)
  | .readConfirm len => do
    let r ← s.ring.readConfirm len
    return ([], ⟨r, false⟩)
  | .clear => return ([], ⟨s.ring.clear, false⟩)
  | .tryshrink => do
    let r ← s.ring.tryshrink
    return ([], ⟨r, false⟩)

/-- A step of a ring buffer: an operation that meets its precondition, with its result. -/
def Step (s : RingState) (a : RingOp × List UInt8) (t : RingState) : Prop :=
  s.Pre a.1 ∧ s.exec a.1 = .ok (a.2, t)

end RingState

/-- A FIFO queue of bytes with the free bytes it last offered, and all bytes that went in and out
of it. -/
structure Fifo where
  queue : List UInt8
  offered : List UInt8
  inserted : List UInt8
  removed : List UInt8

namespace Fifo

def empty : Fifo := ⟨[], [], [], []⟩

def push (f : Fifo) (bytes : List UInt8) : Fifo where
  queue := f.queue ++ bytes
  offered := []
  inserted := f.inserted ++ bytes
  removed := f.removed

def pop (f : Fifo) (n : Nat) : Fifo where
  queue := f.queue.drop n
  offered := []
  inserted := f.inserted
  removed := f.removed ++ f.queue.take n

def offer (f : Fifo) (bytes : List UInt8) : Fifo := { f with offered := bytes }

/-- What a FIFO queue does and returns.  The bytes that `getWriteableVec` finds in the free
segments are arbitrary. -/
inductive Step (f : Fifo) : RingOp × List UInt8 → Fifo → Prop
  | write (bytes : List UInt8) : Step f (.write bytes, []) (f.push bytes)
  | read (n : Nat) : n ≤ f.queue.length → Step f (.read n, f.queue.take n) (f.pop n)
  | look (n : Nat) : n ≤ f.queue.length → Step f (.look n, f.queue.take n) (f.offer [])
  | getWriteableVec (free : List UInt8) : Step f (.getWriteableVec, free) (f.offer free)
  | scatter (bytes : List UInt8) : bytes.length ≤ f.offered.length →
      Step f (.scatter bytes, []) (f.offer (bytes ++ f.offered.drop bytes.length))
  | writeConfirm (n : Nat) : n ≤ f.offered.length →
      Step f (.writeConfirm n, []) (f.push (f.offered.take n))
  | getReadableVec : Step f (.getReadableVec, f.queue) (f.offer [])
  | readConfirm (n : Nat) : n ≤ f.queue.length → Step f (.readConfirm n, []) (f.pop n)
  | clear : Step f (.clear, []) (f.pop f.queue.length)
  | tryshrink : Step f (.tryshrink, []) (f.offer [])

/-- Everything that went in either came out, in the same order, or is still queued. -/
def Conserves (f : Fifo) : Prop := f.inserted = f.removed ++ f.queue

theorem conserves_step (f : Fifo) (a : RingOp × List UInt8) (g : Fifo) (h : f.Conserves)
    (hstep : f.Step a g) : g.Conserves := by
  unfold Conserves at *
  cases hstep <;> simp [push, pop, offer, h]

end Fifo

/-- The ring buffer `s` is the FIFO queue `f`. -/
structure Refines (s : RingState) (f : Fifo) : Prop where
  holds : s.ring.Holds f.queue
  segments : s.offered = true → s.ring.writerv = s.ring.freeSegments
  free : s.offered = true → s.ring.freeBytes = f.offered

theorem start_refines {capacity : Nat} (hpos : 0 < capacity) (hlt : capacity < 2 ^ 31) :
    Refines (.start capacity) .empty :=
  ⟨new_holds hpos (by omega), nofun, nofun⟩

theorem refines_of_holds {r : CRingBuffer} {f : Fifo} (h : r.Holds f.queue) :
    Refines ⟨r, false⟩ f :=
  ⟨h, nofun, nofun⟩

/-- Every operation that meets its precondition returns, with the result of the FIFO queue. -/
theorem exec_refines {s : RingState} {f : Fifo} (h : Refines s f) {op : RingOp}
    (hpre : s.Pre op) :
    ∃ out t g, s.exec op = .ok (out, t) ∧ f.Step (op, out) g ∧ Refines t g := by
  have hsize := h.holds.size_eq
  obtain ⟨hcap, hop⟩ := hpre
  cases op with
  | write bytes =>
    obtain ⟨hpos, hfit⟩ := hop
    obtain ⟨r, hr, hholds⟩ := write_holds h.holds (List.ne_nil_of_length_pos hpos) (by omega)
    exact ⟨_, ⟨r, false⟩, _, by simp [RingState.exec, hr], .write bytes, refines_of_holds hholds⟩
  | read n =>
    obtain ⟨hpos, hn⟩ := hop
    obtain ⟨r, hr, hholds⟩ := read_holds h.holds hpos (by omega)
    exact ⟨_, ⟨r, false⟩, _, by simp [RingState.exec, hr], .read n (by omega),
      refines_of_holds hholds⟩
  | look n =>
    obtain ⟨hpos, hn⟩ := hop
    have hr := look_holds h.holds hpos (by omega)
    exact ⟨_, ⟨s.ring, false⟩, _, by simp [RingState.exec, hr], .look n (by omega),
      refines_of_holds h.holds⟩
  | getWriteableVec =>
    have hr := getWriteableVec_eq h.holds hcap
    have hholds := h.holds.segments s.ring.freeSegments s.ring.readerv
    let r : CRingBuffer := { s.ring with writerv := s.ring.freeSegments }
    have hg : r.gather s.ring.freeSegments = .ok r.freeBytes := freeSegments_gather hholds rfl
    have hexec : s.exec .getWriteableVec = .ok (r.freeBytes, ⟨r, true⟩) := by
      simp only [RingState.exec, hr, ok_bind]
      change (r.gather s.ring.freeSegments >>= _) = _
      rw [hg]
      rfl
    exact ⟨r.freeBytes, ⟨r, true⟩, f.offer r.freeBytes, hexec, .getWriteableVec r.freeBytes,
      ⟨hholds, fun _ => rfl, fun _ => rfl⟩⟩
  | scatter bytes =>
    obtain ⟨hoff, hfit⟩ := hop
    have hw := h.segments hoff
    have hlen := freeBytes_length h.holds hw
    obtain ⟨r, hr, hholds, -, hseg, hfree⟩ := scatter_holds h.holds hw (show bytes.length ≤ _ by omega)
    rw [h.free hoff] at hfree hlen
    exact ⟨_, ⟨r, s.offered⟩, _, by simp [RingState.exec, hr], .scatter bytes (by omega),
      ⟨hholds, fun _ => hseg, fun _ => hfree⟩⟩
  | writeConfirm n =>
    obtain ⟨hoff, hpos, hn⟩ := hop
    have hlen := freeBytes_length h.holds (h.segments hoff)
    obtain ⟨r, hr, hholds⟩ := writeConfirm_holds h.holds hpos (by omega)
    rw [h.free hoff] at hholds hlen
    exact ⟨_, ⟨r, false⟩, _, by simp [RingState.exec, hr], .writeConfirm n (by omega),
      refines_of_holds hholds⟩
  | getReadableVec =>
    have hg := getReadableVec_gather h.holds (Nat.lt_of_le_of_lt (hsize ▸ h.holds.size_le) hcap)
    exact ⟨_, ⟨s.ring.getReadableVec, false⟩, _, by simp [RingState.exec, hg], .getReadableVec,
      refines_of_holds (getReadableVec_holds h.holds)⟩
  | readConfirm n =>
    obtain ⟨hpos, hn⟩ := hop
    obtain ⟨r, hr, hholds⟩ := readConfirm_holds h.holds hpos (by omega)
    exact ⟨_, ⟨r, false⟩, _, by simp [RingState.exec, hr], .readConfirm n (by omega),
      refines_of_holds hholds⟩
  | clear =>
    exact ⟨_, _, _, rfl, .clear, refines_of_holds (by simpa [Fifo.pop] using clear_holds h.holds)⟩
  | tryshrink =>
    obtain ⟨r, hr, hholds⟩ := tryshrink_holds h.holds
    exact ⟨_, ⟨r, false⟩, _, by simp [RingState.exec, hr], .tryshrink, refines_of_holds hholds⟩

/-- The indices of a ring buffer stay in its storage. -/
structure InBounds (r : CRingBuffer) : Prop where
  front_lt : r.front < r.capacity
  end_lt : r.end_ < r.capacity
  size_le : r.size ≤ r.capacity
  end_eq : (r.front + r.size) % r.capacity = r.end_

/-- Every run of a ring buffer is a run of a FIFO queue with the same operations and results, loses
and reorders nothing, stays in its storage, and is followed by no operation that fails. -/
theorem ring_run_fifo {capacity : Nat} (hpos : 0 < capacity) (hlt : capacity < 2 ^ 31)
    {trace : List (RingOp × List UInt8)} {s : RingState}
    (run : Lib.Run RingState.Step (.start capacity) trace s) :
    (∃ f, Lib.Run Fifo.Step .empty trace f ∧ f.inserted = f.removed ++ f.queue ∧
      s.ring.size = f.queue.length) ∧
    InBounds s.ring ∧ ∀ op, s.Pre op → ∃ out t, s.exec op = .ok (out, t) := by
  obtain ⟨f, hf, href⟩ := run.simulate Refines (fun s a t f href ⟨hpre, hexec⟩ => by
    obtain ⟨out, t', g, hexec', hstep, hg⟩ := exec_refines href hpre
    obtain ⟨rfl, rfl⟩ := Prod.mk.inj (Except.ok.inj (hexec'.symm.trans hexec))
    exact ⟨g, hstep, hg⟩) (start_refines hpos hlt)
  have hconserves := hf.invariant Fifo.Conserves Fifo.conserves_step rfl
  refine ⟨⟨f, hf, hconserves, href.holds.size_eq⟩, ?_, fun op hpre => ?_⟩
  · exact ⟨href.holds.front_lt, href.holds.end_lt, href.holds.size_eq ▸ href.holds.size_le,
      href.holds.end_eq⟩
  · obtain ⟨out, t, -, hexec, -⟩ := exec_refines href hpre
    exact ⟨out, t, hexec⟩

/-- A run on four bytes of storage whose second write goes round the end and whose third grows the
storage while it is wrapped. -/
theorem ring_run_fifo_wrapped :
    let trace : List (RingOp × List UInt8) :=
      [(.write [1, 2, 3], []), (.read 2, [1, 2]), (.write [4, 5, 6], []), (.write [7], []),
        (.look 2, [3, 4]), (.readConfirm 1, []), (.getReadableVec, [4, 5, 6, 7])]
    ∃ s : RingState, s.ring.size = 4 ∧ ∃ f, Lib.Run Fifo.Step .empty trace f ∧
      f.inserted = f.removed ++ f.queue ∧ s.ring.size = f.queue.length := by
  have h1 := Lib.Run.nil.snoc (show RingState.Step (.start 4) (.write [1, 2, 3], [])
    ⟨⟨4, 0, 3, 3, [1, 2, 3, 0], (.clear, .clear), (.clear, .clear)⟩, false⟩ from
    ⟨by decide, rfl⟩)
  have h2 := h1.snoc (show RingState.Step _ (.read 2, [1, 2])
    ⟨⟨4, 2, 3, 1, [1, 2, 3, 0], (.clear, .clear), (.clear, .clear)⟩, false⟩ from
    ⟨by decide, rfl⟩)
  have h3 := h2.snoc (show RingState.Step _ (.write [4, 5, 6], [])
    ⟨⟨4, 2, 2, 4, [5, 6, 3, 4], (.clear, .clear), (.clear, .clear)⟩, false⟩ from
    ⟨by decide, rfl⟩)
  have h4 := h3.snoc (show RingState.Step _ (.write [7], [])
    ⟨⟨9, 0, 5, 5, [3, 4, 5, 6, 7, 0, 0, 0, 0], (.clear, .clear), (.clear, .clear)⟩, false⟩ from
    ⟨by decide, rfl⟩)
  have h5 := h4.snoc (show RingState.Step _ (.look 2, [3, 4]) _ from ⟨by decide, rfl⟩)
  have h6 := h5.snoc (show RingState.Step _ (.readConfirm 1, []) _ from ⟨by decide, rfl⟩)
  have h7 := h6.snoc (show RingState.Step _ (.getReadableVec, [4, 5, 6, 7]) _ from
    ⟨by decide, rfl⟩)
  exact ⟨_, rfl, (ring_run_fifo (by decide) (by decide) h7).1⟩

end ZlNet.Network
