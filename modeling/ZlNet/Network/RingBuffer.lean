import ZlNet.Fault
import ZlNet.Lib.Word

/-! `CRingBuffer`, the input and output buffer of a connection: a block of bytes that is read from
`front` and written from `end_`, both going round its end, and that grows when a write does not fit
and shrinks when a read leaves it large and empty. -/

namespace ZlNet.Network

open Lib.Word

/-- A segment of a ring buffer: its offset in the storage, with `none` for a null pointer, and its
length. -/
structure SBufferVec where
  buff : Option Nat
  len : Int
  deriving DecidableEq, Repr

/-- `SBufferVec::clear`, and the value of a new segment. -/
def SBufferVec.clear : SBufferVec := ⟨none, 0⟩

structure CRingBuffer where
  capacity : Nat
  front : Nat
  end_ : Nat
  size : Nat
  buff : List UInt8
  writerv : SBufferVec × SBufferVec := (.clear, .clear)
  readerv : SBufferVec × SBufferVec := (.clear, .clear)
  deriving DecidableEq, Repr

namespace CRingBuffer

def BOUND_SIZE : Nat := 1024 * 500

def SHRINK_SIZE : Nat := 1024 * 10

/-- A new buffer.  Its storage is not initialized in the source. -/
def new (capacity : Nat) : CRingBuffer where
  capacity := capacity
  front := 0
  end_ := 0
  size := 0
  buff := List.replicate capacity 0

def writableBytes (r : CRingBuffer) : Nat := sub32 r.capacity r.size

/-- Moves the content to a new storage of `newcapacity` bytes, from its start on. -/
def resize (r : CRingBuffer) (newcapacity : Nat) : Except Fault CRingBuffer := do
  let mut tembuff := List.replicate newcapacity 0
  if r.size ≠ 0 then
    if r.end_ ≤ r.front then
      let len := sub32 r.capacity r.front
      require (r.size = add32 len r.end_) .resize
      tembuff ← copyIn tembuff 0 (← copyOut r.buff r.front len)
      tembuff ← copyIn tembuff len (← copyOut r.buff 0 r.end_)
    else
      require (r.size = sub32 r.end_ r.front) .resize
      tembuff ← copyIn tembuff 0 (← copyOut r.buff r.front r.size)
  return { r with buff := tembuff, capacity := newcapacity, front := 0, end_ := r.size }

def ensure (r : CRingBuffer) (capacity : Nat) : Except Fault CRingBuffer :=
  if capacity ≤ r.capacity then .ok r
  else match growLoop capacity 33 r.capacity with
    | some newcapacity => r.resize newcapacity
    | none => .error .diverges

def tryshrink (r : CRingBuffer) : Except Fault CRingBuffer :=
  if r.size ≠ 0 then .ok r
  else if BOUND_SIZE < r.capacity then r.resize SHRINK_SIZE
  else .ok r

def write (r : CRingBuffer) (bytes : List UInt8) : Except Fault CRingBuffer := do
  let len := bytes.length
  require (0 < len) .ringWrite
  let r ← r.ensure (add32 r.size len)
  require (r.end_ = r.front → r.size = 0) .ringWrite
  let (buff, end_) ←
    if r.front ≤ r.end_ then do
      let count := sub32 r.capacity r.end_
      if len < count then do
        let buff ← copyIn r.buff r.end_ bytes
        pure (buff, add32 r.end_ len)
      else do
        let remain := sub32 len count
        let buff ← copyIn r.buff r.end_ (bytes.take count)
        let buff ← copyIn buff 0 ((bytes.drop count).take remain)
        pure (buff, remain)
    else do
      let buff ← copyIn r.buff r.end_ bytes
      pure (buff, add32 r.end_ len)
  let r := { r with buff, end_, size := add32 r.size len }
  if r.size = 0 then r.tryshrink else pure r

/-- The `len` oldest bytes, and the buffer without them. -/
def read (r : CRingBuffer) (len : Nat) : Except Fault (List UInt8 × CRingBuffer) := do
  require (len ≤ r.size ∧ len ≠ 0) .ringRead
  let (bytes, front) ←
    if r.front < r.end_ then do
      require (len ≤ sub32 r.end_ r.front) .ringRead
      let bytes ← copyOut r.buff r.front len
      pure (bytes, add32 r.front len)
    else do
      let count := sub32 r.capacity r.front
      if len < count then do
        let bytes ← copyOut r.buff r.front len
        pure (bytes, add32 r.front len)
      else do
        let remain := sub32 len count
        let high ← copyOut r.buff r.front count
        let low ← copyOut r.buff 0 remain
        pure (high ++ low, remain)
  let r := { r with front, size := sub32 r.size len }
  let r ← if r.size = 0 then r.tryshrink else pure r
  return (bytes, r)

/-- Makes the first `len` bytes of the segments that `getWriteableVec` offered part of the
content. -/
def writeConfirm (r : CRingBuffer) (len : Nat) : Except Fault CRingBuffer := do
  require (0 < len ∧ add32 r.size len ≤ r.capacity) .writeConfirm
  let end_ :=
    if r.front ≤ r.end_ then
      let count := sub32 r.capacity r.end_
      if len < count then add32 r.end_ len else sub32 len count
    else add32 r.end_ len
  return { r with end_, size := add32 r.size len }

/-- Drops the `len` oldest bytes.  Unlike `read` it does not shrink a buffer it has emptied. -/
def readConfirm (r : CRingBuffer) (len : Nat) : Except Fault CRingBuffer := do
  require (len ≤ r.size ∧ len ≠ 0) .readConfirm
  if r.front < r.end_ then
    require (len ≤ sub32 r.end_ r.front) .readConfirm
    return { r with front := add32 r.front len, size := sub32 r.size len }
  else
    let count := sub32 r.capacity r.front
    let front := if len < count then add32 r.front len else sub32 len count
    return { r with front, size := sub32 r.size len }

def look (r : CRingBuffer) (len : Nat) : Except Fault (List UInt8) := do
  require (len ≤ r.size ∧ len ≠ 0) .ringLook
  if r.front < r.end_ then
    require (len ≤ sub32 r.end_ r.front) .ringLook
    copyOut r.buff r.front len
  else
    let count := sub32 r.capacity r.front
    if len ≤ count then copyOut r.buff r.front len
    else
      let remain := sub32 len count
      let high ← copyOut r.buff r.front count
      let low ← copyOut r.buff 0 remain
      return high ++ low

/-- Offers the free bytes to write to, in `writerv`. -/
def getWriteableVec (r : CRingBuffer) : Except Fault CRingBuffer := do
  if r.size = r.capacity then return { r with writerv := (.clear, .clear) }
  if r.front ≤ r.end_ then
    require (r.size = 0 → r.end_ = r.front) .getWriteableVec
    let len1 := sub32 r.capacity r.end_
    let first : SBufferVec :=
      ⟨if 0 < len1 then some r.end_ else none, toInt32 (if 0 < len1 then len1 else 0)⟩
    let second : SBufferVec :=
      if 0 < r.front then
        -- one byte less than is free before the front
        let len2 := sub32 r.front 1
        ⟨if 0 < len2 then some 0 else none, toInt32 (if 0 < len2 then len2 else 0)⟩
      else .clear
    return { r with writerv := (first, second) }
  else
    let len1 := sub32 r.front r.end_
    return { r with writerv := (⟨some r.end_, toInt32 len1⟩, .clear) }

/-- Shows the content, in `readerv`. -/
def getReadableVec (r : CRingBuffer) : CRingBuffer :=
  if r.size = 0 then { r with readerv := (.clear, .clear) }
  else if r.front < r.end_ then
    { r with readerv := (⟨some r.front, toInt32 r.size⟩, .clear) }
  else
    let len1 := toInt32 (sub32 r.capacity r.front)
    let len2 := toInt32 (sub32 r.size (ofInt32 len1))
    { r with readerv := (⟨some r.front, len1⟩, ⟨some 0, len2⟩) }

/-- `_writerv->clear()` and `_readerv->clear()` clear the first segment of each pair only. -/
def clear (r : CRingBuffer) : CRingBuffer :=
  { r with
    front := 0, end_ := 0, size := 0
    writerv := (.clear, r.writerv.2), readerv := (.clear, r.readerv.2) }

/-! ### What a caller does with the segments -/

/-- The bytes of a segment. -/
def gather1 (mem : List UInt8) (v : SBufferVec) : Except Fault (List UInt8) :=
  match v.buff with
  | some off => copyOut mem off v.len.toNat
  | none => if v.len = 0 then .ok [] else .error .nullPointer

/-- The bytes of two segments, in order. -/
def gather (r : CRingBuffer) (v : SBufferVec × SBufferVec) : Except Fault (List UInt8) := do
  let first ← gather1 r.buff v.1
  let second ← gather1 r.buff v.2
  return first ++ second

/-- Stores bytes at the start of a segment. -/
def scatter1 (mem : List UInt8) (v : SBufferVec) (bytes : List UInt8) :
    Except Fault (List UInt8) :=
  match v.buff with
  | some off => copyIn mem off bytes
  | none => if bytes = [] then .ok mem else .error .nullPointer

/-- Stores bytes in the offered segments, filling the first before the second. -/
def scatter (r : CRingBuffer) (bytes : List UInt8) : Except Fault CRingBuffer := do
  let len1 := r.writerv.1.len.toNat
  let buff ← scatter1 r.buff r.writerv.1 (bytes.take len1)
  let buff ← scatter1 buff r.writerv.2 (bytes.drop len1)
  return { r with buff }

end CRingBuffer

end ZlNet.Network
