import ZlNet.Network.RingBuffer

/-! What `handleTcpConRead` and `handleTcpConWrite` do with the segments of a ring buffer: the
`iovec` entries that they fill, the count that they pass to `readv` and to `writev`, and the
buffer's calls that follow. -/

namespace ZlNet.Network

open Lib.Word

/-- What an `iovec` entry points to: a place in the storage of the ring buffer, or `extrabuf`. -/
inductive IovBase
  | buff (off : Nat)
  | extrabuf
  deriving DecidableEq, Repr

structure Iovec where
  iov_base : Option IovBase
  iov_len : Nat
  deriving DecidableEq, Repr

/-- The entries of an array, and the count of them that a system call is given. -/
structure IovCall where
  vec : List Iovec
  iovcnt : Int
  deriving DecidableEq, Repr

/-- The memory that `readv` stores to. -/
structure ReadMemory where
  buff : List UInt8
  extrabuf : List UInt8
  deriving DecidableEq, Repr

/-- An `int32` as `size_t`. -/
def toSize (z : Int) : Nat := (z % 2 ^ 64).toNat

/-- The entry for a segment. -/
def SBufferVec.iovec (v : SBufferVec) : Iovec := ⟨v.buff.map .buff, toSize v.len⟩

def extralen : Nat := 65536

namespace Iovec

/-- Stores bytes at the start of an entry. -/
def store (v : Iovec) (mem : ReadMemory) (bytes : List UInt8) : Except Fault ReadMemory :=
  match v.iov_base with
  | some (.buff off) => do
    let buff ← copyIn mem.buff off bytes
    return { mem with buff }
  | some .extrabuf => do
    let extrabuf ← copyIn mem.extrabuf 0 bytes
    return { mem with extrabuf }
  | none => if bytes = [] then .ok mem else .error .nullPointer

/-- The bytes of an entry in the storage of a ring buffer. -/
def load (v : Iovec) (mem : List UInt8) : Except Fault (List UInt8) :=
  match v.iov_base with
  | some (.buff off) => copyOut mem off v.iov_len
  | some .extrabuf => .error .outOfBounds
  | none => if v.iov_len = 0 then .ok [] else .error .nullPointer

/-- The bytes that entries take together. -/
def room (vec : List Iovec) : Nat := (vec.map iov_len).sum

/-- `readv` of `bytes`: each entry is filled before the next one. -/
def scatter (mem : ReadMemory) : List Iovec → List UInt8 → Except Fault ReadMemory
  | [], _ => .ok mem
  | v :: vec, bytes => do
    let mem ← v.store mem (bytes.take v.iov_len)
    scatter mem vec (bytes.drop v.iov_len)

/-- The bytes that `writev` is offered by entries, in order. -/
def gather (mem : List UInt8) : List Iovec → Except Fault (List UInt8)
  | [] => .ok []
  | v :: vec => do
    let bytes ← v.load mem
    let rest ← gather mem vec
    return bytes ++ rest

end Iovec

namespace IovCall

/-- The entries of the array that the count covers. -/
def entries (c : IovCall) : List Iovec := c.vec.take c.iovcnt.toNat

/-- The bytes that a `writev` reads.  A count past the array makes it read what lies behind, and
one below 0 is refused. -/
def offered (c : IovCall) (mem : List UInt8) : Except Fault (List UInt8) :=
  if 0 ≤ c.iovcnt ∧ c.iovcnt ≤ c.vec.length then Iovec.gather mem c.entries
  else .error .outOfBounds

end IovCall

namespace CRingBuffer

/-- How many bytes the segments that `getWriteableVec` has offered take. -/
def writeable (r : CRingBuffer) : Int := r.writerv.1.len + r.writerv.2.len

/-- The call of `readv` in `handleTcpConRead`, for segments that `getWriteableVec` has offered. -/
def readvCall (r : CRingBuffer) : IovCall where
  vec := [r.writerv.1.iovec, r.writerv.2.iovec, ⟨some .extrabuf, extralen⟩]
  iovcnt :=
    if extralen ≤ r.writerv.1.len then 1
    else if extralen ≤ r.writeable then 2
    else 3

/-- The buffer's calls after a `readv` that has returned the positive count `cnt`. -/
def confirmRead (r : CRingBuffer) (writeable : Int) (extrabuf : List UInt8) (cnt : Int) :
    Except Fault CRingBuffer := do
  if writeable < cnt then
    let r ← if writeable ≠ 0 then r.writeConfirm (ofInt32 writeable) else pure r
    r.write (← copyOut extrabuf 0 (ofInt32 (cnt - writeable)))
  else r.writeConfirm (ofInt32 cnt)

/-- What `handleTcpConRead` does to the input buffer where `readv` stores the bytes `received`;
`extrabuf` is what was in the array before. -/
def receive (r : CRingBuffer) (extrabuf received : List UInt8) : Except Fault CRingBuffer := do
  let r ← r.getWriteableVec
  let mem ← Iovec.scatter ⟨r.buff, extrabuf⟩ r.readvCall.entries received
  { r with buff := mem.buff }.confirmRead r.writeable mem.extrabuf (toInt32 received.length)

/-- The call of `writev` in `handleTcpConWrite`, for segments that `getReadableVec` has shown.  The
count that it passes is the number of bytes. -/
def writevCall (r : CRingBuffer) : IovCall where
  vec := [r.readerv.1.iovec, r.readerv.2.iovec]
  iovcnt := toInt32 r.size

/-- What `handleTcpConWrite` does to the output buffer where `writev` returns `count`. -/
def drain (r : CRingBuffer) (count : Int) : Except Fault CRingBuffer := do
  let size := toInt32 r.size
  require (size ≠ 0) .handleTcpConWrite
  let r := r.getReadableVec
  if count = size then r.readConfirm (ofInt32 size)
  else if 0 < count ∧ count < size then r.readConfirm (ofInt32 count)
  else return r

end CRingBuffer

end ZlNet.Network
