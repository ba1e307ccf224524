import ZlNet.Fault
import ZlNet.Lib.Bytes
import ZlNet.Lib.Word

/-! `StackBuffer` and `BufferWriter`, which a packet is serialized with, and the byte order of its
words.  A pointer into a buffer is an offset in its content, with `none` for a null pointer. -/

namespace ZlNet.Network

open Lib.Word Lib.Bytes

/-- `hostToNetwork32`, on a machine with the given order of bytes. -/
def hostToNetwork32 (host : Endian) (host32 : UInt32) : UInt32 :=
  match host with
  | .big => host32
  | .little => swap32 host32

def networkToHost32 (host : Endian) (net32 : UInt32) : UInt32 :=
  match host with
  | .big => net32
  | .little => swap32 net32

theorem store32_hostToNetwork32 (host : Endian) (w : UInt32) :
    store32 host (hostToNetwork32 host w) = be32 w := by
  cases host with
  | little => exact store32_swap32 w
  | big => rfl

theorem networkToHost32_load32 (host : Endian) {bytes : List UInt8} (h : bytes.length = 4) :
    networkToHost32 host (load32 host bytes) = ofBe32 bytes := by
  cases host with
  | little => exact swap32_load32 h
  | big => rfl

/-- A pointer that is used. -/
def deref (p : Option Nat) : Except Fault Nat :=
  match p with
  | some off => .ok off
  | none => .error .nullPointer

/-- A `StackBuffer`: the first `_size` bytes of its storage, and its capacity. -/
structure StackBuffer where
  content : List UInt8
  capacity : Nat
  deriving DecidableEq, Repr

namespace StackBuffer

/-- A new `StackBuffer<FIXED_SIZE>`. -/
def new (FIXED_SIZE : Nat) : StackBuffer := ⟨[], FIXED_SIZE⟩

def size (b : StackBuffer) : Nat := b.content.length

def ensure (b : StackBuffer) (size : Nat) : Except Fault StackBuffer :=
  if size ≤ b.capacity then .ok b
  else match growLoop size 33 (add32 (add32 b.capacity b.capacity) 1) with
    | some new_capacity => .ok { b with capacity := new_capacity }
    | none => .error .diverges

/-- `if (pos + size > _size) _size = pos + size`.  The bytes added are not initialized in the
source. -/
def extend (b : StackBuffer) (pos size : Nat) : StackBuffer :=
  { b with content := b.content ++ List.replicate (add32 pos size - b.size) 0 }

/-- `write(pos, data, size)`. -/
def write (b : StackBuffer) (pos : Nat) (data : List UInt8) : Except Fault StackBuffer := do
  require (pos ≤ b.size) .bufferWrite
  let b ← b.ensure (add32 pos data.length)
  let b := b.extend pos data.length
  let content ← copyIn b.content pos data
  return { b with content }

/-- `write(pos, size)`: a pointer to `size` bytes from `pos` on, for the caller to set. -/
def writePtr (b : StackBuffer) (pos size : Nat) : Except Fault (Option Nat × StackBuffer) := do
  if b.size < pos then return (none, b)
  let b ← b.ensure (add32 pos size)
  return (some pos, b.extend pos size)

/-- `read(pos, data, size)`. -/
def read (b : StackBuffer) (pos size : Nat) : Except Fault (List UInt8) := do
  require (add32 pos size ≤ b.size) .bufferRead
  copyOut b.content pos size

/-- `read(pos, size)`: a pointer to the byte at `pos`. -/
def readPtr (b : StackBuffer) (pos size : Nat) : Option Nat :=
  if b.size < add32 pos size then none else some pos

end StackBuffer

structure BufferWriter where
  buf : StackBuffer
  pos : Nat
  deriving DecidableEq, Repr

namespace BufferWriter

def bytesWritten (w : BufferWriter) : Nat := w.pos

def writeInt32 (host : Endian) (w : BufferWriter) (value : Int32) : Except Fault BufferWriter := do
  let (p, buf) ← w.buf.writePtr w.pos 4
  let off ← deref p
  let content ← copyIn buf.content off (store32 host (hostToNetwork32 host value.toUInt32))
  return ⟨{ buf with content }, add32 w.pos 4⟩

def writeBytes (w : BufferWriter) (bytes : List UInt8) : Except Fault BufferWriter := do
  let buf ← w.buf.write w.pos bytes
  return ⟨buf, add32 w.pos bytes.length⟩

end BufferWriter

end ZlNet.Network
