import ZlNet.Network.BufferWriter
import ZlNet.Network.Proof.Buffer

/-! `IBuffer`, which `Buffer` and `StackBuffer` implement.  Both keep to one contract as long as no
`Buffer::write` of bytes ends before the end of the buffer, where it cuts off what comes after. -/

namespace ZlNet.Network

open Lib.Word Lib.Block

/-- A write through `IBuffer`: `write(pos, data, size)`, or `write(pos, size)` and storing `data` at
the pointer that it returns. -/
inductive IBufferOp
  | write (pos : Nat) (data : List UInt8)
  | writePtr (pos : Nat) (data : List UInt8)
  deriving DecidableEq, Repr

namespace IBufferOp

def pos : IBufferOp → Nat
  | .write pos _ | .writePtr pos _ => pos

def data : IBufferOp → List UInt8
  | .write _ data | .writePtr _ data => data

/-- What a buffer holds after the operation by the contract. -/
def result (op : IBufferOp) (content : List UInt8) : List UInt8 :=
  overwrite content op.pos op.data

end IBufferOp

namespace Buffer

/-- `read(pos, buff, size)`. -/
def read (b : Buffer) (pos size : Nat) : Except Fault (List UInt8) := do
  require (add32 pos size ≤ b.size) .bufferRead
  copyOut b.content pos size

def apply (b : Buffer) : IBufferOp → Except Fault Buffer
  | .write pos data => b.write pos data
  | .writePtr pos data => do
    let (p, b) ← b.writePtr pos data.length
    let off ← deref p
    let content ← copyIn b.content off data
    return { b with content }

variable {b : Buffer} {pos : Nat} {data : List UInt8}

theorem write_eq (hpos : pos ≤ b.size) (hfit : pos + data.length < 2 ^ 32) :
    ∃ capacity, b.write pos data = .ok ⟨b.content.take pos ++ data, capacity⟩ := by
  obtain ⟨c, hc, hge⟩ := ensure_eq b hfit
  refine ⟨c, ?_⟩
  simp only [write, require_of_true hpos, ok_bind, add32_eq hfit, hc, Nat.not_lt.mpr hge, ite_false]
  rfl

theorem applyPtr_eq (hpos : pos ≤ b.size) (hfit : pos + data.length < 2 ^ 32) :
    ∃ capacity, b.apply (.writePtr pos data) = .ok ⟨overwrite b.content pos data, capacity⟩ := by
  obtain ⟨c, hc, -⟩ := ensure_eq b hfit
  have hnot : ¬b.size < pos := Nat.not_lt.mpr hpos
  have hstore := copyIn_eq (store_extended (0 : UInt8) data hpos)
  refine ⟨c, ?_⟩
  simp only [apply, writePtr, hnot, ite_false, add32_eq hfit, hc, ok_bind]
  change (copyIn (b.content ++ List.replicate (pos + data.length - b.content.length) 0) pos data
    >>= _) = _
  rw [hstore]
  rfl

end Buffer

namespace StackBuffer

def apply (b : StackBuffer) : IBufferOp → Except Fault StackBuffer
  | .write pos data => b.write pos data
  | .writePtr pos data => do
    let (p, b) ← b.writePtr pos data.length
    let off ← deref p
    let content ← copyIn b.content off data
    return { b with content }

variable {b : StackBuffer} {op : IBufferOp}

theorem apply_eq (hpos : op.pos ≤ b.size) (hfit : op.pos + op.data.length < 2 ^ 32) :
    ∃ capacity, b.apply op = .ok ⟨op.result b.content, capacity⟩ := by
  have hstore := copyIn_eq (store_extended (0 : UInt8) op.data hpos)
  cases op with
  | write pos data =>
    obtain ⟨c, hc⟩ := ensure_eq b hfit
    refine ⟨c, ?_⟩
    simp only [IBufferOp.pos, IBufferOp.data] at hpos hfit hc hstore
    simp only [apply, write, require_of_true hpos, ok_bind, add32_eq hfit, hc, extend]
    change (copyIn (b.content ++ List.replicate (pos + data.length - b.content.length) 0) pos data
      >>= _) = _
    rw [hstore]
    rfl
  | writePtr pos data =>
    obtain ⟨c, hc⟩ := writePtr_eq pos data.length hpos hfit
    refine ⟨c, ?_⟩
    simp only [apply, hc, ok_bind, deref, size]
    simp only [IBufferOp.pos, IBufferOp.data] at hstore
    rw [hstore]
    rfl

end StackBuffer

/-! ### The contract -/

/-- Both buffers hold `content`, and whatever is read of the one is read of the other. -/
structure Holds (content : List UInt8) (b : Buffer) (s : StackBuffer) : Prop where
  buffer : b.content = content
  stack : s.content = content
  read : ∀ pos size, b.read pos size = s.read pos size
  readPtr : ∀ pos size, Network.readPtr b.content pos size = s.readPtr pos size

theorem holds_of_content {content : List UInt8} {b : Buffer} {s : StackBuffer}
    (hb : b.content = content) (hs : s.content = content) : Holds content b s := by
  have heq : b.content = s.content := hb.trans hs.symm
  refine ⟨hb, hs, fun pos size => ?_, fun pos size => ?_⟩
  · rw [Buffer.read, StackBuffer.read, Buffer.size, StackBuffer.size, heq]
  · rw [Network.readPtr, StackBuffer.readPtr, StackBuffer.size, heq]

/-- What callers keep to: no operation starts past the end, or ends past 32 bits. -/
def Called (content : List UInt8) : List IBufferOp → Prop
  | [] => True
  | op :: ops => op.pos ≤ content.length ∧ op.pos + op.data.length < 2 ^ 32 ∧
      Called (op.result content) ops

/-- Both buffers hold `content`, and after each of the operations what it makes of that. -/
def Agree (content : List UInt8) (b : Buffer) (s : StackBuffer) : List IBufferOp → Prop
  | [] => Holds content b s
  | op :: ops => Holds content b s ∧ ∃ b' s', b.apply op = .ok b' ∧ s.apply op = .ok s' ∧
      Agree (op.result content) b' s' ops

/-- Each `write` of bytes ends at the end of the buffer or past it. -/
def Reaching (content : List UInt8) : List IBufferOp → Prop
  | [] => True
  | op :: ops => (∀ pos data, op = .write pos data → content.length ≤ pos + data.length) ∧
      Reaching (op.result content) ops

theorem Agree.holds {content : List UInt8} {b : Buffer} {s : StackBuffer} {ops : List IBufferOp}
    (h : Agree content b s ops) : Holds content b s := by
  cases ops with
  | nil => exact h
  | cons op ops => exact h.1

theorem agree_cons {content : List UInt8} {b b' : Buffer} {s s' : StackBuffer} {op : IBufferOp}
    {ops : List IBufferOp} (h : Holds content b s) (hb : b.apply op = .ok b')
    (hs : s.apply op = .ok s') :
    Agree content b s (op :: ops) ↔ Agree (op.result content) b' s' ops := by
  constructor
  · rintro ⟨-, b₁, s₁, hb₁, hs₁, hagree⟩
    obtain rfl := Except.ok.inj (hb.symm.trans hb₁)
    obtain rfl := Except.ok.inj (hs.symm.trans hs₁)
    exact hagree
  · exact fun hagree => ⟨h, b', s', hb, hs, hagree⟩

theorem agree_iff {content : List UInt8} {b : Buffer} {s : StackBuffer} {ops : List IBufferOp}
    (h : Holds content b s) (hcalled : Called content ops) :
    Agree content b s ops ↔ Reaching content ops := by
  induction ops generalizing content b s with
  | nil => exact ⟨fun _ => trivial, fun _ => h⟩
  | cons op ops ih =>
    obtain ⟨hpos, hfit, hrest⟩ := hcalled
    have hposb : op.pos ≤ b.size := by rwa [Buffer.size, h.buffer]
    have hposs : op.pos ≤ s.size := by rwa [StackBuffer.size, h.stack]
    obtain ⟨cs, hstack⟩ := StackBuffer.apply_eq hposs hfit
    rw [h.stack] at hstack
    cases op with
    | write pos data =>
      obtain ⟨cb, hbuffer⟩ : ∃ cb, b.apply (.write pos data) = .ok ⟨b.content.take pos ++ data, cb⟩ :=
        Buffer.write_eq hposb hfit
      rw [agree_cons h hbuffer hstack]
      by_cases hle : content.length ≤ pos + data.length
      · have hholds : Holds (overwrite content pos data) ⟨b.content.take pos ++ data, cb⟩
            ⟨overwrite content pos data, cs⟩ :=
          holds_of_content (h.buffer ▸ (overwrite_of_le hle).symm) rfl
        refine (ih hholds hrest).trans ⟨fun hreach => ⟨?_, hreach⟩, And.right⟩
        rintro _ _ ⟨⟩
        exact hle
      · constructor
        · intro hagree
          have hcut := hagree.holds.buffer
          rw [h.buffer] at hcut
          exact absurd (overwrite_eq_iff.mp hcut) hle
        · exact fun hreach => absurd (hreach.1 pos data rfl) hle
    | writePtr pos data =>
      obtain ⟨cb, hbuffer⟩ : ∃ cb, b.apply (.writePtr pos data) =
          .ok ⟨overwrite b.content pos data, cb⟩ := Buffer.applyPtr_eq hposb hfit
      have hholds : Holds (overwrite content pos data) ⟨overwrite b.content pos data, cb⟩
          ⟨overwrite content pos data, cs⟩ := holds_of_content (by rw [h.buffer]) rfl
      rw [agree_cons h hbuffer hstack]
      refine (ih hholds hrest).trans ⟨fun hreach => ⟨?_, hreach⟩, And.right⟩
      rintro _ _ ⟨⟩

theorem holds_new (FIXED_SIZE size : Nat) : Holds [] (.new size) (.new FIXED_SIZE) :=
  holds_of_content rfl rfl

/-- Fresh buffers of both classes agree through the operations exactly if each `write` of bytes ends
at the end of the content or past it. -/
theorem fresh_agree_iff (FIXED_SIZE size : Nat) {ops : List IBufferOp} (hcalled : Called [] ops) :
    Agree [] (.new size) (.new FIXED_SIZE) ops ↔ Reaching [] ops :=
  agree_iff (holds_new FIXED_SIZE size) hcalled

/-- A header that is made room for in place, filled, and followed by a body. -/
theorem fresh_agree_iff_header :
    Agree [] (.new 1) (.new 2) [.writePtr 0 [0, 0], .writePtr 0 [1, 2], .write 2 [3, 4]] :=
  (fresh_agree_iff 2 1 (by
    simp [Called, IBufferOp.pos, IBufferOp.data, IBufferOp.result, overwrite])).mpr (by
    simp [Reaching, IBufferOp.pos, IBufferOp.data, IBufferOp.result, overwrite])

/-- A byte that is written over the first of three cuts off the other two, in a `Buffer`. -/
theorem buffer_cut_off :
    Called [] [.write 0 [1, 2, 3], .write 0 [9]] ∧
      ¬Agree [] (.new 0) (.new 2048) [.write 0 [1, 2, 3], .write 0 [9]] := by
  have hcalled : Called [] [.write 0 [1, 2, 3], .write 0 [9]] := by
    simp [Called, IBufferOp.pos, IBufferOp.data, IBufferOp.result]
  refine ⟨hcalled, fun hagree => ?_⟩
  have hreach := (agree_iff (holds_new 2048 0) hcalled).mp hagree
  simp [Reaching, IBufferOp.result, IBufferOp.pos, IBufferOp.data, overwrite] at hreach

end ZlNet.Network
