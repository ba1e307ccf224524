import ZlNet.Lib.Run
import ZlNet.Network.TcpNetwork

/-! The loop of the network thread: the records of a poll, the events that other threads have
queued, and the timers, in any order.  The other threads take keys and queue events, and release
what they hold, between the steps of the network thread. -/

namespace ZlNet.Network

/-- A record of `epoll_wait`. -/
structure Record where
  err : Bool := false
  hup : Bool := false
  readable : Bool := false
  writable : Bool := false
  deriving DecidableEq, Repr

/-- The key that an event brings with its protocol. -/
def IOEvent.protocolKey : IOEvent → Option UInt32
  | .listen _ protocol | .connect _ protocol => some protocol.key
  | .data _ | .close _ | .clear _ => none

/-- The key that an event sends data to. -/
def IOEvent.dataKey : IOEvent → Option UInt32
  | .data key => some key
  | .listen _ _ | .connect _ _ | .close _ | .clear _ => none

namespace CNetwork

variable [KeyPool] (σ : CNetwork)

/-- Runs a callback of an object. -/
def call (callback : Handler) (object : ObjectId) (ans : Answers) : Except Fault CNetwork :=
  match callback with
  | .weakupReadHandler => σ.weakupReadHandler object
  | .defaultErrorHandle => σ.defaultErrorHandle object
  | .handleTcpAccept => σ.handleTcpAccept object ans
  | .handleTcpConError => σ.handleTcpConError object
  | .handleTcpConRead => σ.handleTcpConRead object ans
  | .handleTcpConWrite => σ.handleTcpConWrite object ans
  | .handleTcpConnectError => σ.handleTcpConnectError object
  | .handleTcpConnectWrite => σ.handleTcpConnectWrite object ans

/-- The read and the write callback may be missing. -/
def callIf (callback : Option Handler) (object : ObjectId) (ans : Answers) :
    Except Fault CNetwork :=
  match callback with
  | some callback => σ.call callback object ans
  | none => return σ

/-- `CEPoller::poll`, for one record.  The object of the record is kept while it is handled. -/
def poll (key : UInt32) (event : Record) (ans : Answers) : Except Fault CNetwork :=
  match σ.objects (KeyPool.index key) with
  | none => return σ
  | some object => do
    let o ← σ.get object
    if o.key ≠ key then return σ
    if event.err then
      match o.errorCallback with
      | some callback => σ.call callback object ans
      | none => throw (.assertion .poll)
    else
      let σ ← if (event.readable || event.hup) && o.hasReading then
          σ.callIf o.readCallback object ans
        else pure σ
      let o ← σ.get object
      if (event.writable || event.hup) && o.hasWriting then
        σ.callIf o.writeCallback object ans
      else return σ

def processDataEvent (key : UInt32) (ans : Answers) : Except Fault CNetwork :=
  match σ.getObject key with
  | some object => do
    let o ← σ.get object
    let protocol ← nonNull o.protocol
    match protocol.protocolType with
    | .TCP => σ.tcpSend object ans
    | .KCP => return σ
    | .UDP => throw (.assertion .processDataEvent)
  | none => return σ

def processListen (port : UInt16) (protocol : IOProtocol) (ans : Answers) :
    Except Fault CNetwork :=
  match protocol.protocolType with
  | .TCP => σ.tcpListen port protocol ans
  | .KCP => return σ
  | .UDP => throw (.assertion .processListen)

def processConnect (address : CAddress) (protocol : IOProtocol) (ans : Answers) :
    Except Fault CNetwork :=
  match protocol.protocolType with
  | .TCP => σ.tcpConnect address protocol ans
  | .KCP => return σ
  | .UDP => throw (.assertion .processConnect)

def _clear (group : Int) : Except Fault CNetwork := do
  let objs ← σ.getGroupObject group
  objs.foldlM (fun σ object => do
    let o ← σ.get object
    σ._close o.key) σ

def dispatchProcess (event : IOEvent) (ans : Answers) : Except Fault CNetwork :=
  match event with
  | .listen port protocol => σ.processListen port protocol ans
  | .connect address protocol => σ.processConnect address protocol ans
  | .data key => σ.processDataEvent key ans
  | .close key => σ._close key
  | .clear group => σ._clear group

/-- Handles the oldest event of the queue. -/
def dispatch (ans : Answers) : Except Fault CNetwork :=
  match σ.eventQueue with
  | event :: rest => { σ with eventQueue := rest }.dispatchProcess event ans
  | [] => return σ

/-- Runs a timer of a connection. -/
def fire (con : ObjectId) (timer : Timer) (ans : Answers) : Except Fault CNetwork :=
  match timer with
  | .onTimer => σ.onTimer con ans
  | .forceClose => do
    let σ ← σ.timerDone con .forceClose
    σ.forceClose con
  | .reconnect address => do
    let σ ← σ.timerDone con (.reconnect address)
    σ.reconnect con address ans

/-! ### The other threads -/

def pushEvent (event : IOEvent) : CNetwork := { σ with eventQueue := σ.eventQueue ++ [event] }

/-- `CNetwork::listen`, of a protocol without a key. -/
def listen (port : UInt16) (id : Nat) (protocolType : EPROTOCOL) (group : Int) (key : UInt32) :
    CNetwork :=
  if key = 0 then σ
  else (σ.popKey key).pushEvent (.listen port ⟨id, protocolType, .LISTENER, key, group⟩)

/-- `CNetwork::connect`, of a protocol without a key. -/
def connect (address : CAddress) (id : Nat) (protocolType : EPROTOCOL) (group : Int)
    (key : UInt32) : CNetwork :=
  if key = 0 then σ
  else (σ.popKey key).pushEvent (.connect address ⟨id, protocolType, .CONNECTOR, key, group⟩)

/-- `pushKey`, which a protocol that is recycled returns its key with. -/
def pushKey (key : UInt32) : CNetwork := { σ with outstanding := σ.outstanding.erase key }

/-- The last owner of an object has gone. -/
def recycle (object : ObjectId) : CNetwork :=
  match σ.heap object with
  | some o => { σ with heap := Function.update σ.heap object none, pool := o.onRecycle :: σ.pool }
  | none => σ

end CNetwork

/-! ### Runs -/

inductive Action
  | listen (port : UInt16) (id : Nat) (protocolType : EPROTOCOL) (group : Int) (key : UInt32)
  | connect (address : CAddress) (id : Nat) (protocolType : EPROTOCOL) (group : Int) (key : UInt32)
  | push (event : IOEvent)
  | pushKey (key : UInt32)
  | recycle (object : ObjectId)
  | dispatch (ans : Answers)
  | poll (key : UInt32) (event : Record) (ans : Answers)
  | fire (con : ObjectId) (timer : Timer) (ans : Answers)

/-- `listen` and `connect`, which bring a protocol. -/
def Action.Publishes : Action → Prop
  | .listen _ _ _ _ _ | .connect _ _ _ _ _ => True
  | .push _ | .pushKey _ | .recycle _ | .dispatch _ | .poll _ _ _ | .fire _ _ _ => False

namespace CNetwork

/-- The network thread before its first step. -/
def empty : CNetwork := {}

variable [KeyPool] (σ : CNetwork)

/-- A key that `KeyPool::pop` can give: 0, or one whose slot no outstanding key has. -/
def Free (key : UInt32) : Prop :=
  key = 0 ∨ ∀ key' ∈ σ.outstanding, KeyPool.index key' ≠ KeyPool.index key

/-- No object and no queued event has a protocol with this key. -/
def Unused (key : UInt32) : Prop :=
  (∀ id o, σ.heap id = some o → o.key ≠ key) ∧ some key ∉ σ.eventQueue.map IOEvent.protocolKey

/-- What `write` returns for the data that is serialized is at most its size. -/
def WriteFits (ans : Answers) : Prop := ∀ data ∈ ans.onSerialize, ans.written ≤ data.length

/-- `P` holds of the object that is found under a key, if there is one. -/
def Found (key : UInt32) (P : IOObject → Prop) : Prop := ∀ o ∈ (σ.getObject key).bind σ.heap, P o

/-- What the other threads, the operating system and `core` keep to.  A record is reported only
for an object that is registered, data is sent only to connections, an object is recycled only when
it is out of the table, and a timer goes off only while it is set. -/
def Pre : Action → Prop
  | .listen _ _ _ _ key | .connect _ _ _ _ key => σ.Free key
  | .push event => event.protocolKey = none
  | .pushKey key => σ.Unused key
  | .recycle object => ∀ i, σ.objects i ≠ some object
  | .dispatch ans => WriteFits ans ∧
      ∀ key ∈ σ.eventQueue.head?.bind IOEvent.dataKey, σ.Found key fun o => o.isConnection = true
  | .poll key _ ans => σ.Free ans.key ∧ σ.Found key fun o => o.events ≠ 0
  | .fire con timer _ => ∃ o, σ.heap con = some o ∧ timer ∈ o.timers

def exec : Action → Except Fault CNetwork
  | .listen port id protocolType group key => .ok (σ.listen port id protocolType group key)
  | .connect address id protocolType group key => .ok (σ.connect address id protocolType group key)
  | .push event => .ok (σ.pushEvent event)
  | .pushKey key => .ok (σ.pushKey key)
  | .recycle object => .ok (σ.recycle object)
  | .dispatch ans => σ.dispatch ans
  | .poll key event ans => σ.poll key event ans
  | .fire con timer ans => σ.fire con timer ans

/-- A step of the network thread or of another thread. -/
def Step (a : Action) (τ : CNetwork) : Prop := σ.Pre a ∧ σ.exec a = .ok τ

/-- The state after an action that does not fail. -/
def next (a : Action) : CNetwork :=
  match σ.exec a with
  | .ok τ => τ
  | .error _ => σ

/-- The keys that are outstanding, where they are known, have other slots. -/
theorem free_of_outstanding {σ : CNetwork} {key : UInt32} (keys : List UInt32)
    (h : σ.outstanding = keys) (hkeys : ∀ k ∈ keys, KeyPool.index k ≠ KeyPool.index key) :
    σ.Free key :=
  .inr fun k hk => hkeys k (h ▸ hk)

theorem step_next {a : Action} (hpre : σ.Pre a) (hok : (σ.exec a).toBool = true) :
    σ.Step a (σ.next a) := by
  refine ⟨hpre, ?_⟩
  unfold next
  cases hexec : σ.exec a with
  | ok τ => rfl
  | error f => simp [hexec, Except.toBool] at hok

end CNetwork

end ZlNet.Network
