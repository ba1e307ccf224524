import Mathlib.Logic.Function.Basic
import ZlNet.Network.IOObject

/-! `CNetwork`, the state of the network thread, and the functions that it runs: handlers that the
poller calls, events that other threads queue for it, and timers.  What the operating system, the
key and object pools, and the protocols answer during a step is an argument of the step. -/

namespace ZlNet.Network

open Lib.Word

abbrev ObjectId := Nat

/-- `core::KeyPool`: the slot of the object table that belongs to a key. -/
class KeyPool where
  key_maxnum : Nat
  index : UInt32 → Nat
  index_lt : ∀ key, index key < key_maxnum

/-- A key pool for 16 bits of slots, a key's slot being its low bits. -/
@[reducible] def KeyPool.lowBits : KeyPool where
  key_maxnum := 65536
  index key := key.toNat % 65536
  index_lt key := Nat.mod_lt _ (by decide)

/-- An event that another thread has queued.  The data to send is with the protocol's answer. -/
inductive IOEvent
  | listen (port : UInt16) (protocol : IOProtocol)
  | connect (address : CAddress) (protocol : IOProtocol)
  | data (key : UInt32)
  | close (key : UInt32)
  | clear (group : Int)
  deriving DecidableEq, Repr

/-- What the network thread tells a protocol. -/
inductive Notice
  | onListen (success : Bool)
  | onUnlisten
  | onAccept (fromProtocol : IOProtocol)
  | onClose
  | onConnect (success : Bool)
  | onDisConnect
  deriving DecidableEq, Repr

/-- The answers to the calls that a step makes. -/
structure Answers where
  socket : Int := 0
  bindErrno : Nat := 0
  listenErrno : Nat := 0
  accepted : Option (Int × CAddress) := none
  key : UInt32 := 0
  reused : Option Nat := none
  created : Option Nat := none
  readv : Option (List UInt8) := none
  onUnserialize : IIOBuffer → Bool × IIOBuffer := fun b => (true, b)
  onSerialize : Option (List UInt8) := none
  written : Int := 0
  localName : Option CAddress := none
  remoteName : Option CAddress := none
  remoteNameAgain : Option CAddress := none
  onTimer : Bool := true

/-- The network thread.  `objects` is the object table by slot; `heap` has every object that is in
use, and `pool` those that were recycled.  `outstanding` are the keys taken from the key pool and
not returned, and `notices` all that protocols have been told. -/
structure CNetwork where
  objects : Nat → Option ObjectId := fun _ => none
  heap : ObjectId → Option IOObject := fun _ => none
  pool : List IOObject := []
  created : Nat := 0
  outstanding : List UInt32 := []
  eventQueue : List IOEvent := []
  notices : List (IOProtocol × Notice) := []

/-- A pointer that is used. -/
def nonNull {α : Type} (p : Option α) : Except Fault α :=
  match p with
  | some a => .ok a
  | none => .error .nullPointer

namespace CNetwork

variable (σ : CNetwork)

def get (id : ObjectId) : Except Fault IOObject := nonNull (σ.heap id)

def put (id : ObjectId) (o : IOObject) : CNetwork :=
  { σ with heap := Function.update σ.heap id (some o) }

@[simp] theorem put_heap_self (id : ObjectId) (o : IOObject) : (σ.put id o).heap id = some o :=
  Function.update_self ..

theorem put_heap_ne {id id' : ObjectId} (o : IOObject) (h : id' ≠ id) :
    (σ.put id o).heap id' = σ.heap id' :=
  Function.update_of_ne h ..

@[simp] theorem put_put (id : ObjectId) (o o' : IOObject) :
    (σ.put id o).put id o' = σ.put id o' := by
  simp [put]

def notify (protocol : IOProtocol) (notice : Notice) : CNetwork :=
  { σ with notices := σ.notices ++ [(protocol, notice)] }

/-- `object->getProtocol()->` a notification. -/
def notifyProtocol (o : IOObject) (notice : Notice) : Except Fault CNetwork := do
  let protocol ← nonNull o.protocol
  return σ.notify protocol notice

/-- `dynamic_pointer_cast<Connection>`, where the result is used without a check. -/
def connection (id : ObjectId) : Except Fault IOObject := do
  let o ← σ.get id
  if o.isConnection then return o else throw .nullPointer

/-- `popKey`, with the key that the pool gives, 0 for none. -/
def popKey (key : UInt32) : CNetwork :=
  if key = 0 then σ else { σ with outstanding := key :: σ.outstanding }

/-- The object that `CObjectPool` gives, one of those recycled or a new one, and those it keeps. -/
def fromPool (type : EIOOBJECT_TYPE) (reused : Option Nat) : IOObject × List IOObject :=
  match reused.bind fun i => σ.pool[i]? with
  | some o => if o.type = type then (o, σ.pool.erase o) else ({ type }, σ.pool)
  | none => ({ type }, σ.pool)

/-- `CObjectPool::create`.  The object gets the number `created`. -/
def create (type : EIOOBJECT_TYPE) (protocol : IOProtocol) (endPoint : CEndPoint)
    (reused : Option Nat) : CNetwork :=
  let (o, pool) := σ.fromPool type reused
  { σ.put σ.created (o.onAwake protocol endPoint) with pool, created := σ.created + 1 }

/-! ### The object table -/

variable [KeyPool]

def addObject (object : ObjectId) : Except Fault CNetwork := do
  let o ← σ.get object
  let index := KeyPool.index o.key
  require (σ.objects index = none) .addObject
  return { σ with objects := Function.update σ.objects index (some object) }

def removeObject (key : UInt32) : Except Fault CNetwork :=
  let index := KeyPool.index key
  match σ.objects index with
  | some object => do
    let o ← σ.get object
    require (o.key = key) .removeObject
    return { σ with objects := Function.update σ.objects index none }
  | none => throw (.assertion .removeObject)

def getObject (key : UInt32) : Option ObjectId :=
  match σ.objects (KeyPool.index key) with
  | some object => if (σ.heap object).map (·.key) = some key then some object else none
  | none => none

/-- The objects of the table that belong to a group, or all of them if it is 0. -/
def getGroupObject (group : Int) : Except Fault (List ObjectId) :=
  (List.range KeyPool.key_maxnum).foldlM (fun objs i => do
    match σ.objects i with
    | some object =>
      let o ← σ.get object
      if group = 0 ∨ o.group = group then return objs ++ [object]
      let protocol ← nonNull o.protocol
      if protocol.group = group then return objs ++ [object] else return objs
    | none => return objs) []

end CNetwork

end ZlNet.Network
