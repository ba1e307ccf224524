import ZlNet.Lib.Run
import ZlNet.Network.Buffer

/-! `StackBuffer` objects where `_MONITOR` is defined.  A `StackBuffer<FIXED_SIZE>` has `FIXED_SIZE`
bytes of storage of its own, and storage on the heap when it needs more.  Its functions tell the
resource monitor what they take from the heap and give back. -/

namespace ZlNet.Network

open Lib.Word

/-- core's resource monitor, with counters that have names. -/
class ResourceMonitor (M : Type) where
  new : M
  counter : M → String → Int
  addCounter : M → String → Int → M
  delCounter : M → String → Int → M
  counter_new : ∀ name, counter new name = 0
  counter_addCounter : ∀ m name add name', counter (addCounter m name add) name' =
    if name' = name then counter m name + add else counter m name'
  counter_delCounter : ∀ m name del name', counter (delCounter m name del) name' =
    if name' = name then counter m name - del else counter m name'

/-- The values of the counters themselves. -/
@[reducible] def ResourceMonitor.values : ResourceMonitor (String → Int) where
  new _ := 0
  counter m := m
  addCounter m name add := Function.update m name (m name + add)
  delCounter m name del := Function.update m name (m name - del)
  counter_new _ := rfl
  counter_addCounter m name add name' := by
    by_cases h : name' = name
    · simp [h]
    · simp [h]
  counter_delCounter m name del name' := by
    by_cases h : name' = name
    · simp [h]
    · simp [h]

def StackName : String := "StackBuffer"

/-- A `StackBuffer<FIXED_SIZE>`, and whether `_ptr` points to the heap. -/
structure StackObject where
  FIXED_SIZE : Nat
  buf : StackBuffer
  onHeap : Bool
  deriving DecidableEq, Repr

variable {M : Type} [ResourceMonitor M]

/-- `__AddCounter`, which takes the number as an int32. -/
def addCounter (monitor : M) (name : String) (add : Nat) : M :=
  ResourceMonitor.addCounter monitor name (toInt32 add)

/-- `__DelCounter`. -/
def delCounter (monitor : M) (name : String) (add : Nat) : M :=
  ResourceMonitor.delCounter monitor name (toInt32 add)

namespace StackObject

/-- `StackBuffer()`. -/
def construct (FIXED_SIZE : Nat) : StackObject := ⟨FIXED_SIZE, .new FIXED_SIZE, false⟩

/-- `StackBuffer(buf, size)`.  It does not set `_size`, in which `left` is found. -/
def constructFrom (monitor : M) (FIXED_SIZE : Nat) (buf : List UInt8) (left : Nat) :
    M × StackObject :=
  let capacity := if FIXED_SIZE < buf.length then buf.length else FIXED_SIZE
  let storage := buf ++ List.replicate (capacity - buf.length) 0
  (addCounter monitor StackName capacity,
    ⟨FIXED_SIZE, ⟨storage.take left, capacity⟩, FIXED_SIZE < buf.length⟩)

/-- `StackBuffer(obj)`. -/
def copy (monitor : M) (obj : StackObject) : M × StackObject :=
  if obj.FIXED_SIZE < obj.buf.capacity then
    (addCounter monitor StackName obj.buf.capacity, { obj with onHeap := true })
  else (monitor, { obj with onHeap := false })

/-- `operator=`.  An object on the heap that is assigned to itself copies from its new storage, which
is not initialized. -/
def assign (monitor : M) (o obj : StackObject) (self : Bool) : M × StackObject :=
  let monitor :=
    if o.FIXED_SIZE < o.buf.capacity then addCounter monitor StackName o.buf.capacity else monitor
  if o.FIXED_SIZE < obj.buf.capacity then
    let content := if self then List.replicate obj.buf.size 0 else obj.buf.content
    (addCounter monitor StackName obj.buf.capacity,
      ⟨o.FIXED_SIZE, ⟨content, obj.buf.capacity⟩, true⟩)
  else (monitor, ⟨o.FIXED_SIZE, obj.buf, false⟩)

/-- `~StackBuffer()`. -/
def destroy (monitor : M) (o : StackObject) : M :=
  if o.FIXED_SIZE < o.buf.capacity then delCounter monitor StackName o.buf.capacity else monitor

def ensure (monitor : M) (o : StackObject) (size : Nat) : Except Fault (M × StackObject) := do
  if size ≤ o.buf.capacity then return (monitor, o)
  let buf ← o.buf.ensure size
  let monitor := addCounter monitor StackName buf.capacity
  let monitor :=
    if o.FIXED_SIZE < o.buf.capacity then delCounter monitor StackName o.buf.capacity else monitor
  return (monitor, ⟨o.FIXED_SIZE, buf, true⟩)

/-- `write(pos, data, size)`. -/
def write (monitor : M) (o : StackObject) (pos : Nat) (data : List UInt8) :
    Except Fault (M × StackObject) := do
  require (pos ≤ o.buf.size) .bufferWrite
  let (monitor, o) ← o.ensure monitor (add32 pos data.length)
  let buf := o.buf.extend pos data.length
  let content ← copyIn buf.content pos data
  return (monitor, { o with buf := { buf with content } })

end StackObject

/-! ### Objects that come and go -/

/-- The objects that are alive, of any sizes, and their monitor. -/
structure StackObjects (M : Type) where
  monitor : M
  objects : List StackObject

/-- What is done with objects, which are named by their place among those alive. -/
inductive StackOp
  | construct (FIXED_SIZE : Nat)
  | constructFrom (FIXED_SIZE : Nat) (buf : List UInt8) (left : Nat)
  | copy (i : Nat)
  | assign (i j : Nat)
  | ensure (i size : Nat)
  | write (i pos : Nat) (data : List UInt8)
  | destroy (i : Nat)

namespace StackObjects

def init : StackObjects M := ⟨ResourceMonitor.new, []⟩

/-- A step that returns.  `FIXED_SIZE` has 16 bits, and sizes have 32. -/
inductive Step (s : StackObjects M) : StackOp → StackObjects M → Prop
  | construct {FIXED_SIZE : Nat} (hfixed : FIXED_SIZE < 2 ^ 16) :
      Step s (.construct FIXED_SIZE) { s with objects := s.objects ++ [.construct FIXED_SIZE] }
  | constructFrom {FIXED_SIZE left : Nat} {buf : List UInt8} {m : M} {o : StackObject}
      (hfixed : FIXED_SIZE < 2 ^ 16) (hsize : buf.length < 2 ^ 32)
      (hmade : StackObject.constructFrom s.monitor FIXED_SIZE buf left = (m, o)) :
      Step s (.constructFrom FIXED_SIZE buf left) ⟨m, s.objects ++ [o]⟩
  | copy {i : Nat} {obj o : StackObject} {m : M} (hobj : s.objects[i]? = some obj)
      (hmade : obj.copy s.monitor = (m, o)) : Step s (.copy i) ⟨m, s.objects ++ [o]⟩
  | assign {i j : Nat} {o obj o' : StackObject} {m : M} (ho : s.objects[i]? = some o)
      (hobj : s.objects[j]? = some obj) (hfixed : o.FIXED_SIZE = obj.FIXED_SIZE)
      (hassign : o.assign s.monitor obj (i = j) = (m, o')) :
      Step s (.assign i j) ⟨m, s.objects.set i o'⟩
  | ensure {i size : Nat} {o o' : StackObject} {m : M} (ho : s.objects[i]? = some o)
      (hsize : size < 2 ^ 32) (hensure : o.ensure s.monitor size = .ok (m, o')) :
      Step s (.ensure i size) ⟨m, s.objects.set i o'⟩
  | write {i pos : Nat} {data : List UInt8} {o o' : StackObject} {m : M}
      (ho : s.objects[i]? = some o) (hwrite : o.write s.monitor pos data = .ok (m, o')) :
      Step s (.write i pos data) ⟨m, s.objects.set i o'⟩
  | destroy {i : Nat} {o : StackObject} (ho : s.objects[i]? = some o) :
      Step s (.destroy i) ⟨o.destroy s.monitor, s.objects.eraseIdx i⟩

end StackObjects

end ZlNet.Network
