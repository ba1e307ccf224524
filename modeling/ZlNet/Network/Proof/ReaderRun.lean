import ZlNet.Network.BufferReader

/-! Whole runs of a `BufferReader`.  Its position stays in the buffer and goes forward as long as no
`read(len)` asks for more than is left and no end of a read passes 32 bits. -/

namespace ZlNet.Network

open Lib Lib.Word Lib.Bytes

/-- The operations of a reader.  `readFloat` and `readDouble` read the bits of their values as
`readUint32` and `readUint64` do. -/
inductive ReaderOp
  | readScalar (s : Scalar) (site : Site)
  | readBytes (size : UInt32)
  | read (len : Int32)
  | readHere
  | peekInt32
  | bytesLeft
  | clear

/-- The number of bytes that an operation asks for. -/
def ReaderOp.length : ReaderOp → Nat
  | .readScalar s _ => s.size
  | .readBytes size => size.toNat
  | .read len => len.toUInt32.toNat
  | .peekInt32 => 4
  | .readHere | .bytesLeft | .clear => 0

namespace BufferReader

/-- Whether a read with an `assert` for want of bytes succeeds, and the reader after it.  Where the
`assert` is left out, the reader goes on as it was. -/
def attempt {α : Type} (r : BufferReader) (x : Except Fault (α × BufferReader)) :
    Except Fault (Bool × BufferReader) :=
  match x with
  | .ok (_, r') => .ok (true, r')
  | .error (.assertion _) => .ok (false, r)
  | .error f => .error f

/-- Whether an operation succeeds, and the reader after it. -/
def exec (host : Endian) (r : BufferReader) : ReaderOp → Except Fault (Bool × BufferReader)
  | .readScalar s site => r.attempt (r.readScalar host s site)
  | .readBytes size => r.attempt (r.readBytes size)
  | .read len => .ok ((r.read len).1.isSome, (r.read len).2)
  | .readHere => .ok (r.readHere.isSome, r)
  | .peekInt32 => do
    let _ ← r.peekInt32 host
    return ((readPtr r.content r.pos 4).isSome, r)
  | .bytesLeft => .ok (true, r)
  | .clear => .ok (true, r.clear)

/-- What an operation that asks for `length` bytes is to keep to. -/
structure Keeps (r : BufferReader) (length : Nat) (ok : Bool) (r' : BufferReader) : Prop where
  content : r'.content = r.content
  forward : r.pos ≤ r'.pos
  inside : r'.pos ≤ r.content.length
  succeeds : ok = true ↔ r.pos + length ≤ r.content.length
  failed : ok = false → r'.pos = r.pos

/-- The condition on an operation. -/
def Sound (r : BufferReader) : ReaderOp → Prop
  | .read len => r.pos + len.toUInt32.toNat ≤ r.content.length
  | .clear => r.pos = 0
  | op => r.pos + op.length < 2 ^ 32

instance (r : BufferReader) (op : ReaderOp) : Decidable (r.Sound op) := by
  unfold Sound
  cases op <;> infer_instance

/-- Every operation returns and keeps to its contract. -/
def Disciplined (host : Endian) : BufferReader → List ReaderOp → Prop
  | _, [] => True
  | r, op :: ops => ∃ ok r', r.exec host op = .ok (ok, r') ∧ r.Keeps op.length ok r' ∧
      Disciplined host r' ops

/-- Every operation meets the condition. -/
def Careful (host : Endian) : BufferReader → List ReaderOp → Prop
  | _, [] => True
  | r, op :: ops => r.Sound op ∧ ∀ ok r', r.exec host op = .ok (ok, r') → Careful host r' ops

variable {host : Endian} {r : BufferReader}

/-- The bound check of a read, by whether the bytes are there and whether their end passes 32
bits. -/
theorem readPtr_cases {content : List UInt8} {pos size : Nat} (hpos : pos ≤ content.length)
    (hlt : content.length < 2 ^ 32) (hsize : size < 2 ^ 32) :
    (pos + size ≤ content.length ∧ readPtr content pos size = some pos) ∨
    (content.length < pos + size ∧ pos + size < 2 ^ 32 ∧ readPtr content pos size = none) ∨
    (2 ^ 32 ≤ pos + size ∧ readPtr content pos size = some pos) := by
  unfold readPtr
  rcases Nat.lt_or_ge (pos + size) (2 ^ 32) with hfit | hwrap
  · rw [add32_eq hfit]
    by_cases hle : pos + size ≤ content.length
    · exact .inl ⟨hle, if_neg (Nat.not_lt.mpr hle)⟩
    · exact .inr (.inl ⟨by omega, hfit, if_pos (by omega)⟩)
  · refine .inr (.inr ⟨hwrap, if_neg ?_⟩)
    unfold add32
    omega

/-- A read that succeeds moves on behind its bytes. -/
theorem keeps_moved {n : Nat} (hle : r.pos + n ≤ r.content.length) :
    r.Keeps n true ⟨r.content, r.pos + n⟩ :=
  ⟨rfl, Nat.le_add_right _ _, hle, by simp [hle], fun hfalse => absurd hfalse (by decide)⟩

/-- A read that moves nothing keeps to its contract just if its success says that the bytes are
there. -/
theorem keeps_self {n : Nat} {ok : Bool} (hpos : r.pos ≤ r.content.length)
    (hok : ok = true ↔ r.pos + n ≤ r.content.length) : r.Keeps n ok r :=
  ⟨rfl, Nat.le_refl _, hpos, hok, fun _ => rfl⟩

/-- A read of `n` bytes with an `assert` for want of them, which makes `value` of the bytes. -/
def checked {α : Type} (r : BufferReader) (n : Nat) (value : List UInt8 → α) (site : Site) :
    Except Fault (α × BufferReader) :=
  match readPtr r.content r.pos n with
  | some p => do
    let bytes ← copyOut r.content p n
    return (value bytes, { r with pos := add32 r.pos n })
  | none => throw (.assertion site)

theorem readScalar_checked (s : Scalar) (site : Site) :
    r.readScalar host s site =
      r.checked s.size (fun bytes => s.ofBits (networkToHost host s.size (load host bytes))) site :=
  rfl

theorem readBytes_checked (size : UInt32) :
    r.readBytes size = r.checked size.toNat id .readBytes := rfl

/-- A read keeps to its contract if its end does not pass 32 bits. -/
theorem checked_iff {α : Type} {n : Nat} (value : List UInt8 → α) (site : Site)
    (hpos : r.pos ≤ r.content.length) (hlt : r.content.length < 2 ^ 32) (hn : n < 2 ^ 32) :
    (∃ ok r', r.attempt (r.checked n value site) = .ok (ok, r') ∧ r.Keeps n ok r') ↔
      r.pos + n < 2 ^ 32 := by
  unfold checked
  rcases readPtr_cases hpos hlt hn with ⟨hle, hptr⟩ | ⟨hgt, hfit, hptr⟩ | ⟨hwrap, hptr⟩
  · have hfit : r.pos + n < 2 ^ 32 := by omega
    simp only [hptr, copyOut_of_le hle, ok_bind, add32_eq hfit, hfit, iff_true]
    exact ⟨true, _, rfl, keeps_moved hle⟩
  · simp only [hptr, hfit, iff_true]
    exact ⟨false, r, rfl, keeps_self hpos (by simp [hgt])⟩
  · have hout := copyOut_of_lt (show r.content.length < r.pos + n by omega)
    simp only [hptr, hout, Nat.not_lt.mpr hwrap, iff_false]
    rintro ⟨ok, r', hx, -⟩
    cases hx

/-- `read(len)` moves on whether or not the bytes are there. -/
theorem read_iff (hpos : r.pos ≤ r.content.length) (hlt : r.content.length < 2 ^ 32)
    (len : Int32) :
    r.Keeps len.toUInt32.toNat (r.read len).1.isSome (r.read len).2 ↔
      r.pos + len.toUInt32.toNat ≤ r.content.length := by
  have hlen := len.toUInt32.toNat_lt
  unfold read
  rcases readPtr_cases hpos hlt hlen with ⟨hle, hptr⟩ | ⟨hgt, hfit, hptr⟩ | ⟨hwrap, hptr⟩
  · simp only [hptr, hle, iff_true, add32_eq (show r.pos + len.toUInt32.toNat < 2 ^ 32 by omega)]
    exact keeps_moved hle
  · simp only [hptr, Nat.not_le.mpr hgt, iff_false, add32_eq hfit]
    intro hkeeps
    exact Nat.not_le.mpr hgt hkeeps.inside
  · simp only [hptr, show ¬ r.pos + len.toUInt32.toNat ≤ r.content.length by omega, iff_false]
    intro hkeeps
    exact absurd (hkeeps.succeeds.mp rfl) (by omega)

theorem peekInt32_iff (hpos : r.pos ≤ r.content.length) (hlt : r.content.length < 2 ^ 32) :
    (∃ ok r', r.exec host .peekInt32 = .ok (ok, r') ∧ r.Keeps 4 ok r') ↔ r.pos + 4 < 2 ^ 32 := by
  simp only [exec, peekInt32]
  rcases readPtr_cases hpos hlt (show 4 < 2 ^ 32 by decide) with
    ⟨hle, hptr⟩ | ⟨hgt, hfit, hptr⟩ | ⟨hwrap, hptr⟩
  · simp only [hptr, copyOut_of_le hle, ok_bind, show r.pos + 4 < 2 ^ 32 by omega, iff_true]
    exact ⟨true, r, rfl, keeps_self hpos (by simp [hle])⟩
  · simp only [hptr, hfit, iff_true]
    exact ⟨false, r, rfl, keeps_self hpos (by simp [hgt])⟩
  · have hout := copyOut_of_lt (show r.content.length < r.pos + 4 by omega)
    simp only [hptr, hout, Nat.not_lt.mpr hwrap, iff_false]
    rintro ⟨ok, r', hx, -⟩
    cases hx

/-- One operation keeps to its contract just if it meets the condition. -/
theorem keeps_iff (hpos : r.pos ≤ r.content.length) (hlt : r.content.length < 2 ^ 32)
    (op : ReaderOp) :
    (∃ ok r', r.exec host op = .ok (ok, r') ∧ r.Keeps op.length ok r') ↔ r.Sound op := by
  have hpos32 : r.pos + 0 < 2 ^ 32 := by omega
  cases op with
  | readScalar s site =>
    rw [exec, readScalar_checked]
    exact checked_iff _ site hpos hlt (Nat.lt_of_le_of_lt s.size_le (by decide))
  | readBytes size =>
    rw [exec, readBytes_checked]
    exact checked_iff id .readBytes hpos hlt size.toNat_lt
  | read len =>
    refine Iff.trans ⟨?_, fun hkeeps => ⟨_, _, rfl, hkeeps⟩⟩ (read_iff hpos hlt len)
    rintro ⟨ok, r', hexec, hkeeps⟩
    obtain ⟨rfl, rfl⟩ := Prod.mk.inj (Except.ok.inj hexec)
    exact hkeeps
  | readHere =>
    have hsome : r.readHere = some r.pos := by
      simp [readHere, readPtr, add32_eq hpos32, hpos]
    exact ⟨fun _ => hpos32, fun _ => ⟨_, r, rfl, keeps_self hpos (by simp [hsome, ReaderOp.length, hpos])⟩⟩
  | peekInt32 => exact peekInt32_iff hpos hlt
  | bytesLeft =>
    exact ⟨fun _ => hpos32, fun _ => ⟨true, r, rfl, keeps_self hpos (by simp [ReaderOp.length, hpos])⟩⟩
  | clear =>
    constructor
    · rintro ⟨ok, r', hexec, hkeeps⟩
      obtain ⟨-, rfl⟩ := Prod.mk.inj (Except.ok.inj hexec)
      exact Nat.le_zero.mp hkeeps.forward
    · intro hzero
      exact ⟨true, r.clear, rfl, rfl, Nat.le_of_eq hzero, Nat.zero_le _,
        by simp [ReaderOp.length, hpos], fun hfalse => absurd hfalse (by decide)⟩

/-- The operations of a run all keep to their contract just if they all meet the condition. -/
theorem disciplined_iff (host : Endian) {r : BufferReader} (hpos : r.pos ≤ r.content.length)
    (hlt : r.content.length < 2 ^ 32) (ops : List ReaderOp) :
    r.Disciplined host ops ↔ r.Careful host ops := by
  induction ops generalizing r with
  | nil => exact Iff.rfl
  | cons op ops ih =>
    constructor
    · rintro ⟨ok, r', hexec, hkeeps, hrest⟩
      refine ⟨(keeps_iff hpos hlt op).mp ⟨ok, r', hexec, hkeeps⟩, fun ok₁ r₁ hexec₁ => ?_⟩
      obtain ⟨-, rfl⟩ := Prod.mk.inj (Except.ok.inj (hexec.symm.trans hexec₁))
      exact (ih (hkeeps.content ▸ hkeeps.inside) (hkeeps.content ▸ hlt)).mp hrest
    · rintro ⟨hsound, hrest⟩
      obtain ⟨ok, r', hexec, hkeeps⟩ := (keeps_iff hpos hlt op).mpr hsound
      exact ⟨ok, r', hexec, hkeeps,
        (ih (hkeeps.content ▸ hkeeps.inside) (hkeeps.content ▸ hlt)).mpr (hrest ok r' hexec)⟩

/-- The position of a new reader stays in the buffer and goes forward, and reads succeed just where
their bytes are, in exactly the runs in which every `read(len)` asks for no more than is left, no
other read ends past 32 bits, and `clear` is only called at the start. -/
theorem reader_run_iff (host : Endian) {content : List UInt8} (hlt : content.length < 2 ^ 32)
    (ops : List ReaderOp) :
    Disciplined host ⟨content, 0⟩ ops ↔ Careful host ⟨content, 0⟩ ops :=
  disciplined_iff host (Nat.zero_le _) hlt ops

theorem careful_cons {r r' : BufferReader} {ok : Bool} {op : ReaderOp} {ops : List ReaderOp}
    (hsound : r.Sound op) (hexec : r.exec host op = .ok (ok, r')) (hrest : r'.Careful host ops) :
    r.Careful host (op :: ops) := by
  refine ⟨hsound, fun ok₁ r₁ hexec₁ => ?_⟩
  obtain ⟨-, rfl⟩ := Prod.mk.inj (Except.ok.inj (hexec.symm.trans hexec₁))
  exact hrest

/-- A run with a read that fails in the middle. -/
theorem reader_run_iff_failing :
    Disciplined .little ⟨[0, 1, 2], 0⟩
      [.read 1, .readScalar .uint32 .readUint32, .readBytes 2, .peekInt32] :=
  (reader_run_iff .little (by decide) _).mpr <|
    careful_cons (by decide) rfl <| careful_cons (by decide) rfl <|
    careful_cons (by decide) rfl <| careful_cons (by decide) rfl trivial

/-- A negative length moves the reader back, and is no failure. -/
theorem reader_moves_back : ¬Disciplined .little ⟨[0, 1, 2], 0⟩ [.readBytes 1, .read (-1)] := by
  rintro ⟨ok, r', hexec, -, ok₁, r₁, hexec₁, hkeeps, -⟩
  obtain ⟨-, rfl⟩ := Prod.mk.inj (Except.ok.inj hexec)
  obtain ⟨-, rfl⟩ := Prod.mk.inj (Except.ok.inj hexec₁)
  exact absurd hkeeps.forward (by decide)

end BufferReader

end ZlNet.Network
