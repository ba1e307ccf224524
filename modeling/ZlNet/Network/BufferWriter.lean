import ZlNet.Network.Buffer
import ZlNet.Network.BufferReader

/-! `Buffer`, which a message is packed in, and `BufferWriter` on one. -/

namespace ZlNet.Network

open Lib Lib.Word Lib.Bytes

/-- A `Buffer`: the first `_size` bytes of its storage, and its capacity. -/
structure Buffer where
  content : List UInt8
  capacity : Nat
  deriving DecidableEq, Repr

namespace Buffer

def kInitialSize : Nat := 16

def new (size : Nat) : Buffer := ⟨[], if 0 < size then size else kInitialSize⟩

def size (b : Buffer) : Nat := b.content.length

def ensure (b : Buffer) (size : Nat) : Except Fault Buffer :=
  if size ≤ b.capacity then .ok b
  else match growLoop size 33 b.capacity with
    | some new_capacity => .ok { b with capacity := new_capacity }
    | none => .error .diverges

/-- `write(pos, buff, size)`, after which the buffer ends where the copy does. -/
def write (b : Buffer) (pos : Nat) (data : List UInt8) : Except Fault Buffer := do
  require (pos ≤ b.size) .bufferWrite
  let b ← b.ensure (add32 pos data.length)
  if b.capacity < pos + data.length then throw .outOfBounds
  return { b with content := b.content.take pos ++ data }

/-- `write(pos, size)`: a pointer to `size` bytes from `pos` on, for the caller to set. -/
def writePtr (b : Buffer) (pos size : Nat) : Except Fault (Option Nat × Buffer) := do
  if b.size < pos then return (none, b)
  let b ← b.ensure (add32 pos size)
  return (some pos,
    { b with content := b.content ++ List.replicate (add32 pos size - b.size) 0 })

/-- A `BufferWriter` on a `Buffer`. -/
structure Writer where
  buf : Buffer
  pos : Nat := 0
  deriving DecidableEq, Repr

namespace Writer

def bytesWritten (w : Writer) : Nat := w.pos

/-- `writeUint8` to `writeInt64`. -/
def writeScalar (host : Endian) (s : Scalar) (w : Writer) (value : s.T) : Except Fault Writer := do
  let (p, buf) ← w.buf.writePtr w.pos s.size
  let off ← deref p
  let content ← copyIn buf.content off
    (store host s.size (hostToNetwork host s.size (s.bits value)))
  return ⟨{ buf with content }, add32 w.pos s.size⟩

def writeUint8 (w : Writer) (value : UInt8) : Except Fault Writer := w.writeScalar .big .uint8 value

def writeUint16 (host : Endian) (w : Writer) (value : UInt16) : Except Fault Writer :=
  w.writeScalar host .uint16 value

def writeUint32 (host : Endian) (w : Writer) (value : UInt32) : Except Fault Writer :=
  w.writeScalar host .uint32 value

def writeUint64 (host : Endian) (w : Writer) (value : UInt64) : Except Fault Writer :=
  w.writeScalar host .uint64 value

def writeInt8 (w : Writer) (value : Int8) : Except Fault Writer := w.writeScalar .big .int8 value

def writeInt16 (host : Endian) (w : Writer) (value : Int16) : Except Fault Writer :=
  w.writeScalar host .int16 value

def writeInt32 (host : Endian) (w : Writer) (value : Int32) : Except Fault Writer :=
  w.writeScalar host .int32 value

def writeInt64 (host : Endian) (w : Writer) (value : Int64) : Except Fault Writer :=
  w.writeScalar host .int64 value

def writeBytes (w : Writer) (bytes : List UInt8) : Except Fault Writer := do
  let buf ← w.buf.write w.pos bytes
  return ⟨buf, add32 w.pos bytes.length⟩

/-! ### Writing at the end -/

/-- The writer has written everything in its buffer. -/
def AtEnd (w : Writer) : Prop := w.pos = w.buf.size

/-- The writer has written `bytes` after what was in its buffer. -/
def Appends (w : Writer) (bytes : List UInt8) (result : Except Fault Writer) : Prop :=
  ∃ w', result = .ok w' ∧ w'.buf.content = w.buf.content ++ bytes ∧ w'.AtEnd

end Writer

variable {b : Buffer} {n : Nat}

theorem ensure_eq (b : Buffer) (h : n < 2 ^ 32) :
    ∃ capacity, b.ensure n = .ok { b with capacity } ∧ n ≤ capacity := by
  by_cases hle : n ≤ b.capacity
  · exact ⟨b.capacity, by simp [ensure, hle], hle⟩
  · have hlt : b.capacity < 2 ^ 32 := by omega
    obtain ⟨c, hc, hge, -⟩ := growLoop_reaches h 33 0 b.capacity rfl hlt (by simp [Nat.mod_one])
    exact ⟨c, by simp [ensure, hle, hc], hge⟩

namespace Writer

variable {w w' : Writer} {host : Endian} {bytes bytes' : List UInt8} {result : Except Fault Writer}

theorem Appends.bind {f : Writer → Except Fault Writer} (h : w.Appends bytes result)
    (hf : ∀ w' : Writer, w'.buf.content = w.buf.content ++ bytes → w'.AtEnd → w'.Appends bytes' (f w')) :
    w.Appends (bytes ++ bytes') (result >>= f) := by
  obtain ⟨w', rfl, hcontent, hend⟩ := h
  obtain ⟨w'', hw'', hcontent', hend'⟩ := hf w' hcontent hend
  exact ⟨w'', hw'', by rw [hcontent', hcontent, List.append_assoc], hend'⟩

theorem writeBytes_appends (h : w.AtEnd) (hfit : w.pos + bytes.length < 2 ^ 32) :
    w.Appends bytes (w.writeBytes bytes) := by
  unfold AtEnd at h
  obtain ⟨c, hc, hge⟩ := ensure_eq w.buf hfit
  have htake : w.buf.content.take w.pos = w.buf.content :=
    List.take_of_length_le (Nat.le_of_eq h.symm)
  refine ⟨⟨⟨w.buf.content ++ bytes, c⟩, w.pos + bytes.length⟩, ?_, rfl, ?_⟩
  · have hle : w.pos ≤ w.buf.size := Nat.le_of_eq h
    simp only [writeBytes, write, require_of_true hle, ok_bind, add32_eq hfit, hc,
      Nat.not_lt.mpr hge, ite_false, htake]
    rfl
  · simp [AtEnd, Buffer.size, h]

theorem writeScalar_appends (s : Scalar) (value : s.T) (h : w.AtEnd)
    (hfit : w.pos + s.size < 2 ^ 32) :
    w.Appends (toBe s.size (s.bits value)) (w.writeScalar host s value) := by
  unfold AtEnd at h
  obtain ⟨c, hc, -⟩ := ensure_eq w.buf hfit
  have hsize : w.pos = w.buf.content.length := h
  have hroom : w.pos + s.size - w.buf.content.length = s.size := by omega
  have hstore := Lib.Block.store_replicate (0 : UInt8) w.buf.content
    (toBe s.size (s.bits value)) (Nat.le_of_eq (toBe_length _ _))
  rw [toBe_length, Nat.sub_self, List.replicate_zero, List.append_nil, ← hsize] at hstore
  refine ⟨⟨⟨w.buf.content ++ toBe s.size (s.bits value), c⟩, w.pos + s.size⟩, ?_, rfl, ?_⟩
  · have hnot : ¬w.buf.content.length < w.pos := by omega
    have hptr : w.buf.writePtr w.pos s.size =
        .ok (some w.pos, ⟨w.buf.content ++ List.replicate s.size 0, c⟩) := by
      simp only [writePtr, hnot, ite_false, add32_eq hfit, hc, ok_bind, Buffer.size, hroom]
      rfl
    simp only [writeScalar, hptr, ok_bind, deref, store_hostToNetwork, copyIn_eq hstore,
      add32_eq hfit]
    rfl
  · simp [AtEnd, Buffer.size, h]

end Writer

end Buffer

end ZlNet.Network
