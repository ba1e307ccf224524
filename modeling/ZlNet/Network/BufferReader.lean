import ZlNet.Fault
import ZlNet.Lib.Bytes
import ZlNet.Lib.Scalar
import ZlNet.Lib.Word

/-! `BufferReader`, which values are read with from the bytes of a `Buffer`. -/

namespace ZlNet.Network

open Lib Lib.Word Lib.Bytes

/-- `hostToNetwork16`, `hostToNetwork32` and `hostToNetwork64`, for a word of `size` bytes on a
machine with the given order of bytes. -/
def hostToNetwork (host : Endian) (size word : Nat) : Nat :=
  match host with
  | .big => word
  | .little => swap size word

/-- `networkToHost16`, `networkToHost32` and `networkToHost64`. -/
def networkToHost (host : Endian) (size word : Nat) : Nat :=
  match host with
  | .big => word
  | .little => swap size word

theorem store_hostToNetwork (host : Endian) (size word : Nat) :
    store host size (hostToNetwork host size word) = toBe size word := by
  cases host with
  | little => exact store_swap size word
  | big => rfl

theorem networkToHost_load (host : Endian) {size : Nat} {bytes : List UInt8}
    (h : bytes.length = size) : networkToHost host size (load host bytes) = ofBe bytes := by
  cases host with
  | little => exact swap_load h
  | big => rfl

/-- `Buffer::read(pos, size)`: a pointer to the byte at `pos`, and `none` for a null pointer. -/
def readPtr (content : List UInt8) (pos size : Nat) : Option Nat :=
  if content.length < add32 pos size then none else some pos

/-- A reader of the bytes of a `Buffer`, which are fewer than `2^32`. -/
structure BufferReader where
  content : List UInt8
  pos : Nat := 0
  deriving DecidableEq, Repr

namespace BufferReader

/-- The bytes after the position of the reader. -/
def left (r : BufferReader) : Nat := r.content.length - r.pos

/-- Reads an integer, with an `assert` in the function `site` for want of bytes. -/
def readScalar (r : BufferReader) (host : Endian) (s : Scalar) (site : Site) :
    Except Fault (s.T × BufferReader) :=
  match readPtr r.content r.pos s.size with
  | some value => do
    let bytes ← copyOut r.content value s.size
    return (s.ofBits (networkToHost host s.size (load host bytes)),
      { r with pos := add32 r.pos s.size })
  | none => throw (.assertion site)

/-! One byte is read as it is, whatever the machine's order. -/

def readUint8 (r : BufferReader) : Except Fault (UInt8 × BufferReader) :=
  r.readScalar .big .uint8 .readUint8

def readUint16 (host : Endian) (r : BufferReader) : Except Fault (UInt16 × BufferReader) :=
  r.readScalar host .uint16 .readUint16

def readUint32 (host : Endian) (r : BufferReader) : Except Fault (UInt32 × BufferReader) :=
  r.readScalar host .uint32 .readUint32

def readUint64 (host : Endian) (r : BufferReader) : Except Fault (UInt64 × BufferReader) :=
  r.readScalar host .uint64 .readUint64

def readInt8 (r : BufferReader) : Except Fault (Int8 × BufferReader) :=
  r.readScalar .big .int8 .readInt8

def readInt16 (host : Endian) (r : BufferReader) : Except Fault (Int16 × BufferReader) :=
  r.readScalar host .int16 .readInt16

def readInt32 (host : Endian) (r : BufferReader) : Except Fault (Int32 × BufferReader) :=
  r.readScalar host .int32 .readInt32

def readInt64 (host : Endian) (r : BufferReader) : Except Fault (Int64 × BufferReader) :=
  r.readScalar host .int64 .readInt64

/-- `read(len)`: a pointer to `len` bytes, which may be null.  The reader moves on in any case. -/
def read (r : BufferReader) (len : Int32) : Option Nat × BufferReader :=
  (readPtr r.content r.pos len.toUInt32.toNat,
    { r with pos := add32 r.pos len.toUInt32.toNat })

/-- `readBytes(buf, size)`: the bytes that are copied. -/
def readBytes (r : BufferReader) (size : UInt32) : Except Fault (List UInt8 × BufferReader) :=
  match readPtr r.content r.pos size.toNat with
  | some value => do
    let bytes ← copyOut r.content value size.toNat
    return (bytes, { r with pos := add32 r.pos size.toNat })
  | none => throw (.assertion .readBytes)

/-- `read()`: a pointer to what follows. -/
def readHere (r : BufferReader) : Option Nat := readPtr r.content r.pos 0

/-- `peekInt32`, which gives 0 for want of bytes. -/
def peekInt32 (host : Endian) (r : BufferReader) : Except Fault Int32 :=
  match readPtr r.content r.pos 4 with
  | some value => do
    let bytes ← copyOut r.content value 4
    return Scalar.int32.ofBits (networkToHost host 4 (load host bytes))
  | none => return 0

/-- `bytesLeft`, which gives the position. -/
def bytesLeft (r : BufferReader) : Int32 := Int32.ofNat r.pos

def clear (r : BufferReader) : BufferReader := { r with pos := 0 }

/-! ### What a read does -/

variable {r : BufferReader} (host : Endian) (s : Scalar) (site : Site)

theorem readScalar_eq (hfit : r.pos + s.size ≤ r.content.length)
    (hlt : r.content.length < 2 ^ 32) :
    r.readScalar host s site =
      .ok (s.ofBits (ofBe ((r.content.drop r.pos).take s.size)), ⟨r.content, r.pos + s.size⟩) := by
  have hadd : add32 r.pos s.size = r.pos + s.size := add32_eq (by omega)
  have hptr : readPtr r.content r.pos s.size = some r.pos := by
    simp only [readPtr, hadd, Nat.not_lt.mpr hfit, ite_false]
  have hlen : ((r.content.drop r.pos).take s.size).length = s.size := by
    rw [List.length_take, List.length_drop]
    omega
  simp only [readScalar, hptr, copyOut_of_le hfit, ok_bind, networkToHost_load host hlen, hadd]
  rfl

theorem readScalar_fault (hpast : r.content.length < r.pos + s.size) :
    ∃ f, r.readScalar host s site = .error f := by
  unfold readScalar
  cases hptr : readPtr r.content r.pos s.size with
  | none => exact ⟨_, rfl⟩
  | some value =>
    have hvalue : value = r.pos := by
      unfold readPtr at hptr
      split at hptr <;> simp_all
    subst hvalue
    exact ⟨.outOfBounds, by simp only [copyOut_of_lt hpast]; rfl⟩

end BufferReader

end ZlNet.Network
