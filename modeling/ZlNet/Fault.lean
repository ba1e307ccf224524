import ZlNet.Lib.Block

/-! How a step of the program ends when it does not return: an `assert` that fails, a copy that
leaves its buffer, a null pointer or an object that was deleted is used, or a loop that does not
end.  Where a size would pass 32 bits, and the program goes on with a wrong one, the model stops
with `overflow`. -/

namespace ZlNet

/-- The functions of the program with an `assert` that the model keeps. -/
inductive Site
  | ringWrite | ringRead | ringLook | writeConfirm | readConfirm | getWriteableVec | resize
  | bufferWrite | bufferRead
  | poll | addObject | removeObject | isSelfConnect
  | processDataEvent | processListen | processConnect | _close
  | handleTcpAccept | handleTcpConRead | handleTcpConWrite | handleTcpConnectWrite
  | tcpSend | tcpClose | tcpCloseConnection | tcpCloseConnector | forceClose | reconnect
  | close | send | dispactchCallback | bindCallbackHandler
  | registerMessage
  | readUint8 | readUint16 | readUint32 | readUint64 | readInt8 | readInt16 | readInt32 | readInt64
  | readBytes
  deriving DecidableEq, Repr

inductive Fault
  | assertion (site : Site)
  | outOfBounds
  | nullPointer
  | dangling
  | diverges
  | overflow
  deriving DecidableEq, Repr

/-- `assert(p)` in the function `site`. -/
def require (p : Prop) [Decidable p] (site : Site) : Except Fault Unit :=
  if p then .ok () else .error (.assertion site)

/-- `memcpy` of `len` bytes out of a buffer, from `off` on. -/
def copyOut (mem : List UInt8) (off len : Nat) : Except Fault (List UInt8) :=
  match Lib.Block.load mem off len with
  | some bytes => .ok bytes
  | none => .error .outOfBounds

/-- `memcpy` of `bytes` into a buffer, from `off` on. -/
def copyIn (mem : List UInt8) (off : Nat) (bytes : List UInt8) : Except Fault (List UInt8) :=
  match Lib.Block.store mem off bytes with
  | some mem' => .ok mem'
  | none => .error .outOfBounds

@[simp] theorem require_of_true {p : Prop} [Decidable p] {site : Site} (h : p) :
    require p site = .ok () := by
  simp [require, h]

theorem copyOut_eq {mem bytes : List UInt8} {off len : Nat}
    (h : Lib.Block.load mem off len = some bytes) : copyOut mem off len = .ok bytes := by
  simp [copyOut, h]

theorem copyOut_of_le {mem : List UInt8} {off len : Nat} (h : off + len ≤ mem.length) :
    copyOut mem off len = .ok ((mem.drop off).take len) :=
  copyOut_eq (by simp only [Lib.Block.load, h, ite_true])

theorem copyOut_of_lt {mem : List UInt8} {off len : Nat} (h : mem.length < off + len) :
    copyOut mem off len = .error .outOfBounds := by
  simp only [copyOut, Lib.Block.load, Nat.not_le.mpr h, ite_false]

theorem copyIn_eq {mem mem' bytes : List UInt8} {off : Nat}
    (h : Lib.Block.store mem off bytes = some mem') : copyIn mem off bytes = .ok mem' := by
  simp [copyIn, h]

@[simp] theorem ok_bind {α β : Type} (a : α) (f : α → Except Fault β) :
    (Except.ok a >>= f) = f a := rfl

theorem of_require {p : Prop} [Decidable p] {site : Site} {u : Unit} (h : require p site = .ok u) :
    p := by
  unfold require at h
  split at h
  · assumption
  · cases h

/-- The parts of a computation that did not fail. -/
theorem of_bind_ok {α β : Type} {x : Except Fault α} {f : α → Except Fault β} {b : β}
    (h : (x >>= f) = .ok b) : ∃ a, x = .ok a ∧ f a = .ok b := by
  cases x with
  | ok a => exact ⟨a, rfl, h⟩
  | error e => cases h

end ZlNet
