import Mathlib.Data.Prod.Lex
import ZlNet.Lib.Ascending
import ZlNet.Network.BufferWriter

/-! `Serialize`: the values of a message, written one after another in a buffer, and read from the
bytes that a peer has sent.  Where a call that reads does not return, what it leaves in its target is
kept. -/

namespace ZlNet.Engine

open Network Lib Lib.Bytes

/-- The integers that there is a `Serialize` for. -/
inductive IntType
  | uint8 | uint16 | uint32 | uint64 | int8 | int16 | int32 | int64
  deriving DecidableEq, Repr

@[reducible] def IntType.scalar : IntType → Scalar
  | .uint8 => .uint8
  | .uint16 => .uint16
  | .uint32 => .uint32
  | .uint64 => .uint64
  | .int8 => .int8
  | .int16 => .int16
  | .int32 => .int32
  | .int64 => .int64

/-- The types that `Serialize` is for. -/
inductive Ty
  | int (k : IntType)
  | string
  | vector (t : Ty)
  | map (k v : Ty)
  | set (t : Ty)
  deriving DecidableEq, Repr

/-- A type with the order that a map or set keeps its keys in, and the value of a new variable. -/
structure Carrier where
  T : Type
  order : LinearOrder T
  zero : Inhabited T

instance (c : Carrier) : LinearOrder c.T := c.order
instance (c : Carrier) : Inhabited c.T := c.zero

/-- A map as its pairs in the order of their keys. -/
abbrev OrderedMap (K V : Type) [LinearOrder K] : Type :=
  Ascending fun e : K ×ₗ V => (ofLex e).1

/-- A set as its elements in order. -/
abbrev OrderedSet (K : Type) [LinearOrder K] : Type := Ascending fun e : K => e

/-- Strings are compared byte by byte. -/
@[reducible] def stringOrder : LinearOrder (List UInt8) :=
  letI := Scalar.uint8.order
  inferInstance

def Ty.carrier : Ty → Carrier
  | .int k => ⟨k.scalar.T, inferInstance, inferInstance⟩
  | .string => ⟨List UInt8, stringOrder, inferInstance⟩
  | .vector t => ⟨List t.carrier.T, inferInstance, inferInstance⟩
  | .map k v => ⟨OrderedMap k.carrier.T v.carrier.T, inferInstance, inferInstance⟩
  | .set t => ⟨OrderedSet t.carrier.T, inferInstance, inferInstance⟩

abbrev Ty.Val (t : Ty) : Type := t.carrier.T

/-- Variables of these types. -/
@[reducible] def Vals : List Ty → Type
  | [] => Unit
  | t :: ts => t.Val × Vals ts

/-! ### Writing -/

section Write

variable (host : Endian) {α : Type}

def IntType.write : (k : IntType) → Buffer.Writer → k.scalar.T → Except Fault Buffer.Writer
  | .uint8, w, value => w.writeUint8 value
  | .uint16, w, value => w.writeUint16 host value
  | .uint32, w, value => w.writeUint32 host value
  | .uint64, w, value => w.writeUint64 host value
  | .int8, w, value => w.writeInt8 value
  | .int16, w, value => w.writeInt16 host value
  | .int32, w, value => w.writeInt32 host value
  | .int64, w, value => w.writeInt64 host value

def writeString (w : Buffer.Writer) (value : List UInt8) : Except Fault Buffer.Writer := do
  let len := Int32.ofNat value.length
  let w ← w.writeInt32 host len
  w.writeBytes (value.take len.toUInt32.toNat)

/-- The elements of a vector, a map or a set, after their number. -/
def writeElements (elem : Buffer.Writer → α → Except Fault Buffer.Writer) (w : Buffer.Writer)
    (elems : List α) : Except Fault Buffer.Writer := do
  let w ← w.writeInt32 host (Int32.ofNat elems.length)
  elems.foldlM elem w

/-- `Serialize(writer, value)`. -/
def Ty.write : (t : Ty) → Buffer.Writer → t.Val → Except Fault Buffer.Writer
  | .int k, w, value => k.write host w value
  | .string, w, value => writeString host w value
  | .vector t, w, vec => writeElements host t.write w vec
  | .map k v, w, m => writeElements host
      (fun w e => do
        let w ← k.write w (ofLex e).1
        v.write w (ofLex e).2) w m.toList
  | .set t, w, s => writeElements host t.write w s.toList

/-- `writer & ... & args`, which is also what `pack` does. -/
def writeAll : (ts : List Ty) → Buffer.Writer → Vals ts → Except Fault Buffer.Writer
  | [], w, _ => return w
  | t :: ts, w, (value, values) => do
    let w ← t.write host w value
    writeAll ts w values

end Write

/-! ### Reading -/

/-- Why a call does not return: it fails, or throws a `std::exception`. -/
inductive Abort
  | fault (f : Fault)
  | exception
  deriving DecidableEq, Repr

/-- A loop that had `left` bytes to read when it began, and the iterations that it began. -/
structure Turns where
  left : Nat
  turns : Nat
  deriving DecidableEq, Repr

/-- What a call of `Serialize` leaves: its target, the reader, and the loops that it ran. -/
structure Read (α : Type) where
  target : α
  reader : BufferReader
  loops : List Turns := []
  stop : Option Abort := none

namespace Read

variable {α β : Type}

/-- A value that is read into a variable, which is `old` until then. -/
def into (old : α) (r : BufferReader) : Except Fault (α × BufferReader) → Read α
  | .ok (value, r) => { target := value, reader := r }
  | .error f => { target := old, reader := r, stop := some (.fault f) }

def map (f : α → β) (x : Read α) : Read β :=
  { target := f x.target, reader := x.reader, loops := x.loops, stop := x.stop }

/-- Goes on with `f`, if `x` returns.  Otherwise the target is `old`. -/
def andThen (x : Read α) (old : β) (f : α → BufferReader → Read β) : Read β :=
  match x.stop with
  | none =>
    let y := f x.target x.reader
    { y with loops := x.loops ++ y.loops }
  | some _ => { target := old, reader := x.reader, loops := x.loops, stop := x.stop }

end Read

/-- `n` iterations of `body`, from the iteration `i` on, and then `ends`. -/
def loop {α : Type} (body : Nat → BufferReader → α → Read α) (ends : Option Abort) (left : Nat) :
    (n i : Nat) → BufferReader → α → Read α
  | 0, i, r, target => { target, reader := r, loops := [⟨left, i⟩], stop := ends }
  | n + 1, i, r, target =>
    let x := body i r target
    match x.stop with
    | none =>
      let y := loop body ends left n (i + 1) x.reader x.target
      { y with loops := x.loops ++ y.loops }
    | some _ => { x with loops := x.loops ++ [⟨left, i + 1⟩] }

/-- `for (;len;len--)`.  A negative `len` falls to the least integer first, and overflows. -/
def countdown {α : Type} (body : BufferReader → α → Read α) (len : Int) (r : BufferReader)
    (target : α) : Read α :=
  if 0 ≤ len then loop (fun _ => body) none r.left len.toNat 0 r target
  else loop (fun _ => body) (some (.fault .overflow)) r.left ((len + 2 ^ 31).toNat + 1) 0 r target

section Serialize

variable (host : Endian) {α K V : Type} [Inhabited α] [LinearOrder K] [Inhabited K] [Inhabited V]

def IntType.read : (k : IntType) → BufferReader → Except Fault (k.scalar.T × BufferReader)
  | .uint8, r => r.readUint8
  | .uint16, r => r.readUint16 host
  | .uint32, r => r.readUint32 host
  | .uint64, r => r.readUint64 host
  | .int8, r => r.readInt8
  | .int16, r => r.readInt16 host
  | .int32, r => r.readInt32 host
  | .int64, r => r.readInt64 host

theorem IntType.read_eq (k : IntType) (r : BufferReader) :
    ∃ host' site, k.read host r = r.readScalar host' k.scalar site := by
  cases k <;> exact ⟨_, _, rfl⟩

theorem toInt_eq (len : Int32) : len.toInt = Lib.Word.toInt32 len.toUInt32.toNat :=
  BitVec.toInt_eq_toNat_bmod len.toBitVec

theorem toUInt32_toNat (len : Int32) : len.toUInt32.toNat = Lib.Word.ofInt32 len.toInt := by
  rw [toInt_eq, Lib.Word.ofInt32_toInt32 (UInt32.toNat_lt _)]

/-- `value.append(buff, len)` on an empty string, with a pointer into the buffer of `r`. -/
def append (r : BufferReader) (buff : Option Nat) (len : Int32) : Read (List UInt8) :=
  match buff with
  | none => { target := [], reader := r, stop := some (.fault .nullPointer) }
  | some off =>
    if len.toInt < 0 then { target := [], reader := r, stop := some .exception }
    else match copyOut r.content off len.toInt.toNat with
      | .ok bytes => { target := bytes, reader := r }
      | .error f => { target := [], reader := r, stop := some (.fault f) }

/-- Reads a length, and goes on with `f`. -/
def withLength (r : BufferReader) (old : α) (f : Int32 → BufferReader → Read α) : Read α :=
  (Read.into 0 r (r.readInt32 host)).andThen old f

def serializeString (r : BufferReader) (value : List UInt8) : Read (List UInt8) :=
  withLength host r value fun len r =>
    let (buff, r) := r.read len
    append r buff len

/-- `grants` says for how many elements there is memory.  A negative length is a size above the
largest that a vector can have. -/
def serializeVector (grants : Nat → Bool) (elem : BufferReader → α → Read α) (r : BufferReader)
    (vec : List α) : Read (List α) :=
  withLength host r vec fun len r =>
    if len.toInt < 0 ∨ grants len.toInt.toNat = false then
      { target := [], reader := r, stop := some .exception }
    else
      loop (fun i r vec => (elem r (vec.getD i default)).map (vec.set i)) none r.left
        len.toInt.toNat 0 r (.replicate len.toInt.toNat default)

/-- `map[key]`. -/
def OrderedMap.get (map : OrderedMap K V) (key : K) : V :=
  ((map.find? key).map fun e => (ofLex e).2).getD default

def serializeMap (key : BufferReader → K → Read K) (value : BufferReader → V → Read V)
    (r : BufferReader) : Read (OrderedMap K V) :=
  withLength host r default fun len r =>
    countdown (fun r map =>
      (key r default).andThen map fun k r =>
        (value r (OrderedMap.get map k)).map fun v => map.insert (toLex (k, v))) len.toInt r default

def serializeSet (elem : BufferReader → K → Read K) (r : BufferReader) : Read (OrderedSet K) :=
  withLength host r default fun len r =>
    countdown (fun r set =>
      (elem r default).andThen set fun value r => { target := set.insert value, reader := r })
      len.toInt r default

/-- `Serialize(reader, value)`.  `grants t n` says whether there is memory for `n` elements of the
type `t`. -/
def Ty.serialize (grants : Ty → Nat → Bool) : (t : Ty) → BufferReader → t.Val → Read t.Val
  | .int k, r, value => .into value r (k.read host r)
  | .string, r, value => serializeString host r value
  | .vector t, r, vec => serializeVector host (grants t) (t.serialize grants) r vec
  | .map k v, r, _ => serializeMap host (k.serialize grants) (v.serialize grants) r
  | .set t, r, _ => serializeSet host (t.serialize grants) r

/-- `reader & ... & args`. -/
def serializeAll (grants : Ty → Nat → Bool) :
    (ts : List Ty) → BufferReader → Vals ts → Read (Vals ts)
  | [], r, _ => { target := (), reader := r }
  | t :: ts, r, (value, values) =>
    let x := t.serialize host grants r value
    x.andThen (x.target, values) fun value r =>
      (serializeAll grants ts r values).map fun values => (value, values)

/-- What `unpack` leaves, and whether its `catch` has reported an exception. -/
structure Unpacked (ts : List Ty) where
  read : Read (Vals ts)
  reported : Bool

/-- `unpack(reader, args...)`. -/
def unpack (grants : Ty → Nat → Bool) (ts : List Ty) (r : BufferReader) (args : Vals ts) :
    Unpacked ts :=
  let x := serializeAll host grants ts r args
  if x.stop = some .exception then ⟨{ x with stop := none }, true⟩ else ⟨x, false⟩

end Serialize

end ZlNet.Engine
