import ZlNet.Engine.Proof.Codec
import ZlNet.Network.Proof.Buffer

/-! `pack` and `unpack`.  Whichever class of buffer it writes to, `pack` makes the same calls of its
`BufferWriter`, and leaves bytes that `unpack` restores the values from. -/

namespace ZlNet.Network

open Lib Lib.Word Lib.Bytes Lib.Block

/-- A call of a `BufferWriter`: one of `writeUint8` to `writeInt64`, or `writeBytes`. -/
inductive WriterCall
  | scalar (s : Scalar) (value : s.T)
  | bytes (data : List UInt8)

/-- The bytes that a call writes. -/
def WriterCall.encode : WriterCall → List UInt8
  | .scalar s value => toBe s.size (s.bits value)
  | .bytes data => data

def Buffer.Writer.call (host : Endian) (w : Buffer.Writer) :
    WriterCall → Except Fault Buffer.Writer
  | .scalar s value => w.writeScalar host s value
  | .bytes data => w.writeBytes data

namespace BufferWriter

/-- `writeUint8` to `writeInt64`. -/
def writeScalar (host : Endian) (s : Scalar) (w : BufferWriter) (value : s.T) :
    Except Fault BufferWriter := do
  let (p, buf) ← w.buf.writePtr w.pos s.size
  let off ← deref p
  let content ← copyIn buf.content off
    (store host s.size (hostToNetwork host s.size (s.bits value)))
  return ⟨{ buf with content }, add32 w.pos s.size⟩

def call (host : Endian) (w : BufferWriter) : WriterCall → Except Fault BufferWriter
  | .scalar s value => w.writeScalar host s value
  | .bytes data => w.writeBytes data

variable {w : BufferWriter} {host : Endian}

theorem writeScalar_end (s : Scalar) (value : s.T) (h : w.AtEnd) (hfit : w.pos + s.size < 2 ^ 32) :
    ∃ w', w.writeScalar host s value = .ok w' ∧
      w'.buf.content = w.buf.content ++ toBe s.size (s.bits value) ∧ w'.AtEnd := by
  unfold AtEnd at h
  obtain ⟨c, hc⟩ := StackBuffer.writePtr_eq w.pos s.size (Nat.le_of_eq h) hfit
  have hsize : w.pos = w.buf.content.length := h
  have hroom : w.pos + s.size - w.buf.size = s.size := by omega
  have hstore := store_replicate (0 : UInt8) w.buf.content (toBe s.size (s.bits value))
    (Nat.le_of_eq (toBe_length _ _))
  rw [toBe_length, Nat.sub_self, List.replicate_zero, List.append_nil, ← hsize] at hstore
  refine ⟨⟨⟨w.buf.content ++ toBe s.size (s.bits value), c⟩, w.pos + s.size⟩, ?_, rfl, ?_⟩
  · simp only [writeScalar, hc, ok_bind, deref, hroom, store_hostToNetwork, copyIn_eq hstore,
      add32_eq hfit]
    rfl
  · simp [AtEnd, StackBuffer.size, h]

theorem call_end (host : Endian) (c : WriterCall) (h : w.AtEnd) (hfit : w.pos + c.encode.length < 2 ^ 32) :
    ∃ w', w.call host c = .ok w' ∧ w'.buf.content = w.buf.content ++ c.encode ∧ w'.AtEnd := by
  cases c with
  | scalar s value =>
    rw [WriterCall.encode, toBe_length] at hfit
    exact writeScalar_end s value h hfit
  | bytes data => exact writeBytes_end h hfit

/-- Calls write their bytes one after another. -/
theorem calls_end (host : Endian) (calls : List WriterCall) (h : w.AtEnd)
    (hfit : w.pos + (calls.flatMap WriterCall.encode).length < 2 ^ 32) :
    ∃ w', calls.foldlM (call host) w = .ok w' ∧
      w'.buf.content = w.buf.content ++ calls.flatMap WriterCall.encode ∧ w'.AtEnd := by
  induction calls generalizing w with
  | nil => exact ⟨w, rfl, (List.append_nil _).symm, h⟩
  | cons c calls ih =>
    rw [List.flatMap_cons, List.length_append] at hfit
    obtain ⟨w₁, hw₁, hcontent, hend⟩ := call_end host c h (by omega)
    have hpos : w₁.pos = w.pos + c.encode.length := by
      rw [hend, h, StackBuffer.size, StackBuffer.size, hcontent, List.length_append]
    obtain ⟨w₂, hw₂, hcontent₂, hend₂⟩ := ih hend (by omega)
    refine ⟨w₂, ?_, ?_, hend₂⟩
    · rw [List.foldlM_cons, hw₁]
      exact hw₂
    · rw [hcontent₂, hcontent, List.flatMap_cons, List.append_assoc]

end BufferWriter

end ZlNet.Network

namespace ZlNet.Engine

open Network Lib Lib.Word Lib.Bytes

variable {α : Type} {host : Endian}

/-! ### The calls of `Serialize` -/

def stringCalls (value : List UInt8) : List WriterCall :=
  [.scalar .int32 (Int32.ofNat value.length),
    .bytes (value.take (Int32.ofNat value.length).toUInt32.toNat)]

def elementCalls (calls : α → List WriterCall) (elems : List α) : List WriterCall :=
  .scalar .int32 (Int32.ofNat elems.length) :: elems.flatMap calls

/-- What `Serialize(writer, value)` calls of the writer. -/
def Ty.calls : (t : Ty) → t.Val → List WriterCall
  | .int k, value => [.scalar k.scalar value]
  | .string, value => stringCalls value
  | .vector t, vec => elementCalls t.calls vec
  | .map k v, m => elementCalls (fun e => k.calls (ofLex e).1 ++ v.calls (ofLex e).2) m.toList
  | .set t, s => elementCalls t.calls s.toList

/-- What `pack` calls of its writer. -/
def callsAll : (ts : List Ty) → Vals ts → List WriterCall
  | [], _ => []
  | t :: ts, (value, values) => t.calls value ++ callsAll ts values

theorem foldlM_single (w : Buffer.Writer) (c : WriterCall) :
    [c].foldlM (Buffer.Writer.call host) w = w.call host c := by
  rw [List.foldlM_cons]
  exact bind_pure _

/-- One byte is written alike for either order of bytes. -/
theorem IntType.write_call (k : IntType) (w : Buffer.Writer) (value : k.scalar.T) :
    k.write host w value = w.call host (.scalar k.scalar value) := by
  cases k with
  | uint8 =>
    simp only [IntType.write, Buffer.Writer.writeUint8, Buffer.Writer.call, Buffer.Writer.writeScalar,
      store_hostToNetwork]
  | int8 =>
    simp only [IntType.write, Buffer.Writer.writeInt8, Buffer.Writer.call, Buffer.Writer.writeScalar,
      store_hostToNetwork]
  | uint16 => rfl
  | uint32 => rfl
  | uint64 => rfl
  | int16 => rfl
  | int32 => rfl
  | int64 => rfl

theorem foldlM_flatMap {calls : α → List WriterCall}
    {elem : Buffer.Writer → α → Except Fault Buffer.Writer}
    (helem : ∀ w a, elem w a = (calls a).foldlM (Buffer.Writer.call host) w) (elems : List α)
    (w : Buffer.Writer) :
    elems.foldlM elem w = (elems.flatMap calls).foldlM (Buffer.Writer.call host) w := by
  induction elems generalizing w with
  | nil => rfl
  | cons a elems ih =>
    rw [List.foldlM_cons, List.flatMap_cons, List.foldlM_append, helem]
    exact congrArg _ (funext ih)

theorem writeElements_calls {calls : α → List WriterCall}
    {elem : Buffer.Writer → α → Except Fault Buffer.Writer}
    (helem : ∀ w a, elem w a = (calls a).foldlM (Buffer.Writer.call host) w) (elems : List α)
    (w : Buffer.Writer) :
    writeElements host elem w elems =
      (elementCalls calls elems).foldlM (Buffer.Writer.call host) w := by
  rw [elementCalls, List.foldlM_cons, writeElements]
  exact congrArg _ (funext (foldlM_flatMap helem elems))

/-- On a `Buffer`, `Serialize` does what its calls do. -/
theorem Ty.write_calls (t : Ty) (value : t.Val) (w : Buffer.Writer) :
    t.write host w value = (t.calls value).foldlM (Buffer.Writer.call host) w := by
  induction t generalizing w with
  | int k => exact (k.write_call w value).trans (foldlM_single w _).symm
  | string =>
    simp only [Ty.calls, stringCalls, List.foldlM_cons]
    exact congrArg _ (funext fun w : Buffer.Writer => (bind_pure (w.writeBytes _)).symm)
  | vector t ih => exact writeElements_calls (fun w a => ih a w) value w
  | map k v ihk ihv =>
    refine writeElements_calls (fun w e => ?_) value.toList w
    rw [List.foldlM_append, ihk]
    exact congrArg _ (funext fun w => ihv _ w)
  | set t ih => exact writeElements_calls (fun w a => ih a w) value.toList w

theorem writeAll_calls (ts : List Ty) (values : Vals ts) (w : Buffer.Writer) :
    writeAll host ts w values = (callsAll ts values).foldlM (Buffer.Writer.call host) w := by
  induction ts generalizing w with
  | nil => rfl
  | cons t ts ih =>
    obtain ⟨value, values⟩ := values
    rw [callsAll, List.foldlM_append, ← t.write_calls]
    exact congrArg _ (funext (ih values))

/-! ### What the calls write -/

theorem stringCalls_encode {value : List UInt8} (hsmall : value.length < 2 ^ 31) :
    (stringCalls value).flatMap WriterCall.encode = encodeString value := by
  have hlen : (Int32.ofNat value.length).toUInt32.toNat = value.length := by
    show (BitVec.ofNat 32 value.length).toNat = _
    rw [BitVec.toNat_ofNat, Nat.mod_eq_of_lt (by omega)]
  rw [stringCalls, hlen, List.take_length]
  simp only [List.flatMap_cons, List.flatMap_nil, WriterCall.encode, List.append_nil, encodeString]
  exact congrArg (· ++ value) (toBe_ofNat value.length)

theorem elementCalls_encode {calls : α → List WriterCall} {encode : α → List UInt8}
    {elems : List α}
    (helem : ∀ a ∈ elems, (calls a).flatMap WriterCall.encode = encode a) :
    (elementCalls calls elems).flatMap WriterCall.encode = encodeElements encode elems := by
  rw [elementCalls, List.flatMap_cons, List.flatMap_assoc, encodeElements, ← toBe_ofNat]
  exact congrArg _ (List.flatMap_congr helem)

theorem Ty.calls_encode (t : Ty) (value : t.Val) (hsmall : t.Small value) :
    (t.calls value).flatMap WriterCall.encode = t.encode value := by
  induction t with
  | int k => exact List.append_nil _
  | string => exact stringCalls_encode hsmall
  | vector t ih => exact elementCalls_encode fun a ha => ih a (hsmall.2 a ha)
  | map k v ihk ihv =>
    refine elementCalls_encode fun e he => ?_
    obtain ⟨hk, hv⟩ := hsmall.2 e he
    rw [List.flatMap_append, ihk _ hk, ihv _ hv]
  | set t ih => exact elementCalls_encode fun a ha => ih a (hsmall.2 a ha)

theorem callsAll_encode (ts : List Ty) (values : Vals ts) (hsmall : SmallAll ts values) :
    (callsAll ts values).flatMap WriterCall.encode = encodeAll ts values := by
  induction ts with
  | nil => rfl
  | cons t ts ih =>
    obtain ⟨value, values⟩ := values
    rw [callsAll, List.flatMap_append, t.calls_encode value hsmall.1, ih values hsmall.2, encodeAll]

/-! ### The round trip -/

/-- `unpack` has given its targets `values`, and has read all of the bytes `content`. -/
structure Restores (ts : List Ty) (values : Vals ts) (content : List UInt8)
    (u : Unpacked ts) : Prop where
  target : u.read.target = values
  reader : u.read.reader = ⟨content, content.length⟩
  returned : u.read.stop = none
  quiet : u.reported = false

theorem unpack_encodeAll (host : Endian) (ts : List Ty) (values old : Vals ts) (hsmall : SmallAll ts values)
    (hlt : (encodeAll ts values).length < 2 ^ 32) :
    Restores ts values (encodeAll ts values)
      (unpack host unlimited ts ⟨encodeAll ts values, 0⟩ old) := by
  have hgives := serializeAll_gives host hlt ts values old hsmall (p := 0) (List.prefix_refl _)
  have hne : ¬(serializeAll host unlimited ts ⟨encodeAll ts values, 0⟩ old).stop =
      some .exception := by
    rw [hgives.stop]
    simp
  rw [unpack, if_neg hne]
  exact ⟨hgives.target, hgives.reader.trans (by rw [Nat.zero_add]), hgives.stop, rfl⟩

/-- What has been packed in a new `Buffer` or `StackBuffer` is unpacked to equal values, whatever
the targets held before, and up to its last byte. -/
theorem unpack_pack (host host' : Endian) (ts : List Ty) (values old : Vals ts) (size : Nat)
    (hsmall : SmallAll ts values) (hlt : (encodeAll ts values).length < 2 ^ 32) :
    (∃ w, writeAll host ts ⟨Buffer.new size, 0⟩ values = .ok w ∧
      w.bytesWritten = w.buf.size ∧
      Restores ts values w.buf.content (unpack host' unlimited ts ⟨w.buf.content, 0⟩ old)) ∧
    ∃ w, (callsAll ts values).foldlM (BufferWriter.call host) ⟨StackBuffer.new size, 0⟩ = .ok w ∧
      w.bytesWritten = w.buf.size ∧
      Restores ts values w.buf.content (unpack host' unlimited ts ⟨w.buf.content, 0⟩ old) := by
  have hrestores := unpack_encodeAll host' ts values old hsmall hlt
  have hcalls := callsAll_encode ts values hsmall
  constructor
  · have hfit : 0 + (encodeAll ts values).length < 2 ^ 32 := by omega
    obtain ⟨w, hw, hcontent, hend⟩ := writeAll_appends host ts values
      (w := ⟨Buffer.new size, 0⟩) rfl hfit
    have hcontent : w.buf.content = encodeAll ts values := hcontent
    exact ⟨w, hw, hend, hcontent ▸ hrestores⟩
  · have hfit : 0 + ((callsAll ts values).flatMap WriterCall.encode).length < 2 ^ 32 := by
      rw [hcalls]
      omega
    obtain ⟨w, hw, hcontent, hend⟩ := BufferWriter.calls_end host (callsAll ts values)
      (w := ⟨StackBuffer.new size, 0⟩) rfl hfit
    have hcontent : w.buf.content = encodeAll ts values := hcontent.trans hcalls
    exact ⟨w, hw, hend, hcontent ▸ hrestores⟩

theorem unpack_pack_nested :
    (∃ w, writeAll .little [.vector .string, .set (.int .int16)] ⟨Buffer.new 4, 0⟩
        ([[97, 98], []], default, ()) = .ok w ∧ w.bytesWritten = w.buf.size ∧
      Restores [.vector .string, .set (.int .int16)] ([[97, 98], []], default, ())
        w.buf.content (unpack .big unlimited [.vector .string, .set (.int .int16)]
          ⟨w.buf.content, 0⟩ ([[1], [2], [3]], default, ()))) ∧
    ∃ w, (callsAll [.vector .string, .set (.int .int16)] ([[97, 98], []], default, ())).foldlM
        (BufferWriter.call .little) ⟨StackBuffer.new 4, 0⟩ = .ok w ∧
      w.bytesWritten = w.buf.size ∧
      Restores [.vector .string, .set (.int .int16)] ([[97, 98], []], default, ())
        w.buf.content (unpack .big unlimited [.vector .string, .set (.int .int16)]
          ⟨w.buf.content, 0⟩ ([[1], [2], [3]], default, ())) :=
  unpack_pack .little .big [.vector .string, .set (.int .int16)] ([[97, 98], []], default, ())
    ([[1], [2], [3]], default, ()) 4 (smallAll_of_length _ _ (by decide)) (by decide)

end ZlNet.Engine
