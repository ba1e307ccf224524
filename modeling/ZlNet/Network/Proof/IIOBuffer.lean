import ZlNet.Network.IOObject
import ZlNet.Network.Proof.RingBuffer

/-! A buffer of a connection is a ring buffer in the source.  What an operation on the bytes that
its users see returns, the operation on the ring buffer that holds them returns too, and it stops at
the same assertions. -/

namespace ZlNet.Network

open Lib.Word

/-- Where `x` returns a buffer, `y` returns a ring buffer that holds its bytes, and where an
assertion of `x` fails, the same one of `y` does.  Nothing is said of a size past 32 bits. -/
def Simulates (x : Except Fault IIOBuffer) (y : Except Fault CRingBuffer) : Prop :=
  match x with
  | .ok b => ∃ r, y = .ok r ∧ r.Holds b.bytes
  | .error (.assertion site) => y = .error (.assertion site)
  | .error _ => True

namespace IIOBuffer

variable {b : IIOBuffer} {r : CRingBuffer}

theorem new_holds {capacity : Nat} (hpos : 0 < capacity) (hlt : capacity < 2 ^ 32) :
    (CRingBuffer.new capacity).Holds new.bytes :=
  CRingBuffer.new_holds hpos hlt

theorem clear_holds (h : r.Holds b.bytes) : r.clear.Holds b.clear.bytes :=
  CRingBuffer.clear_holds h

theorem write_simulates (h : r.Holds b.bytes) (data : List UInt8) :
    Simulates (b.write data) (r.write data) := by
  by_cases hpos : 0 < data.length
  · simp only [write, require_of_true hpos, ok_bind]
    split
    · next hfit =>
      exact CRingBuffer.write_holds h (List.ne_nil_of_length_pos hpos) hfit
    · trivial
  · have hnone : require (0 < data.length) .ringWrite = .error (.assertion .ringWrite) :=
      if_neg hpos
    simp only [write, CRingBuffer.write, hnone]
    rfl

theorem readConfirm_simulates (h : r.Holds b.bytes) (len : Nat) :
    Simulates (b.readConfirm len) (r.readConfirm len) := by
  have hsize : r.size = b.size := h.size_eq
  by_cases hle : len ≤ b.size ∧ len ≠ 0
  · simp only [readConfirm, require_of_true hle, ok_bind]
    exact CRingBuffer.readConfirm_holds h (Nat.pos_of_ne_zero hle.2) hle.1
  · have hnone : require (len ≤ b.size ∧ len ≠ 0) .readConfirm =
        .error (.assertion .readConfirm) := if_neg hle
    simp only [readConfirm, CRingBuffer.readConfirm, hsize, hnone]
    rfl

/-- `writev` is given the bytes of the buffer. -/
theorem getReadableVec_gather (h : r.Holds b.bytes) (hbound : r.size < 2 ^ 31) :
    r.getReadableVec.gather r.getReadableVec.readerv = .ok b.bytes :=
  CRingBuffer.getReadableVec_gather h hbound

end IIOBuffer

end ZlNet.Network
