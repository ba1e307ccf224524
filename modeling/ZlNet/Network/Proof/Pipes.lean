import ZlNet.Network.Proof.Invariant
import ZlNet.Network.Proof.Send

/-! What passes through the connections of a process: the bytes that a socket takes and those that
wait for it, and the bytes that were read and are not decoded yet.  Each function lets bytes pass
through one connection at most, and the others have theirs as before. -/

namespace ZlNet.Network

open Lib Lib.Word IOObject

/-- The two directions of a connection. -/
structure Pipe where
  box : Outbox UInt8
  input : List UInt8

namespace Pipe

def empty : Pipe := ⟨.empty, []⟩

/-- Bytes that are read are decoded together with those that waited for them. -/
def fed (P : Pipe) (ans : Answers) (bytes : List UInt8) : Pipe :=
  if bytes = [] then P else { P with input := (ans.onUnserialize ⟨P.input ++ bytes⟩).2.bytes }

theorem fed_nil (P : Pipe) (ans : Answers) : P.fed ans [] = P := if_pos rfl

theorem fed_box (P : Pipe) (ans : Answers) (bytes : List UInt8) :
    (P.fed ans bytes).box = P.box := by
  unfold fed
  split <;> rfl

/-- Waiting bytes are offered to the socket, which takes `n` of them. -/
def drained (P : Pipe) (n : Nat) : Pipe := { P with box := P.box.drain n }

theorem drained_zero (P : Pipe) : P.drained 0 = P := by
  simp [drained, Outbox.drain]

end Pipe

namespace IOObject

/-- A connection without an end point has sent nothing by it. -/
def pipe (o : IOObject) : Pipe :=
  ⟨⟨(o.endPoint.map CEndPoint.accepted).getD [], o.outBuffer.bytes⟩, o.inputBuffer.bytes⟩

@[simp] theorem pipe_updateObject {o : IOObject} {events : Nat} :
    (o.updateObject events).pipe = o.pipe := by
  unfold updateObject
  split <;> rfl

end IOObject

namespace CNetwork

def pipe (σ : CNetwork) (id : ObjectId) : Pipe := ((σ.heap id).map IOObject.pipe).getD .empty

/-- Nothing is left in the buffers of the objects that were recycled. -/
def Clean (σ : CNetwork) : Prop :=
  ∀ o ∈ σ.pool, o.outBuffer.bytes = [] ∧ o.inputBuffer.bytes = []

/-- A connection has sent nothing before it is connected. -/
def Dry (σ : CNetwork) : Prop :=
  ∀ id o, σ.heap id = some o → o.state = .CONNECTING → ∀ e, o.endPoint = some e → e.accepted = []

/-- From `σ` to `τ` bytes pass so that the connections have `P`. -/
structure Flows (P : ObjectId → Pipe) (σ τ : CNetwork) : Prop where
  pipe : τ.pipe = P
  pool : ∀ o ∈ τ.pool, o ∈ σ.pool

/-- Whatever `x` returns, no bytes have passed. -/
def Still (σ : CNetwork) (x : Except Fault CNetwork) : Prop :=
  Outcome (fun _ => True) (Flows σ.pipe σ) x

section

variable {σ τ : CNetwork} {id : ObjectId} {o o' : IOObject} {p : IOProtocol} {P : ObjectId → Pipe}
  {x : Except Fault CNetwork} {ans : Answers}

theorem pipe_eq (hheap : σ.heap id = some o) : σ.pipe id = o.pipe := by
  simp [pipe, hheap]

theorem pipe_none (hnone : σ.heap id = none) : σ.pipe id = .empty := by
  simp [pipe, hnone]

theorem Flows.refl (σ : CNetwork) : Flows σ.pipe σ σ := ⟨rfl, fun _ h => h⟩

theorem Flows.trans {υ : CNetwork} (h : Flows σ.pipe σ τ) (h' : Flows P τ υ) : Flows P σ υ :=
  ⟨h'.pipe, fun o ho => h.pool o (h'.pool o ho)⟩

theorem Flows.still (h : Flows σ.pipe σ τ) (hx : τ.Still x) : σ.Still x :=
  hx.mono fun _ hυ => h.trans (h.pipe ▸ hυ)

theorem still_self : σ.Still (.ok σ) := Flows.refl σ

/-- A step that lets bytes pass, and then one that does not. -/
theorem Flows.then (h : Flows P σ τ) (hx : τ.Still x) : Outcome (fun _ => True) (Flows P σ) x :=
  hx.mono fun _ hυ => ⟨hυ.pipe.trans h.pipe, fun o ho => h.pool o (hυ.pool o ho)⟩

theorem Still.bind {f : CNetwork → Except Fault CNetwork} (h : σ.Still x)
    (hf : ∀ τ, Flows σ.pipe σ τ → τ.Still (f τ)) : σ.Still (x >>= f) :=
  Outcome.bind h fun τ hτ => hτ.still (hf τ hτ)

/-- A computation that goes on after a part that leaves the state alone. -/
theorem still_bind {α : Type} {y : Except Fault α} {f : α → Except Fault CNetwork}
    (h : ∀ a, y = .ok a → σ.Still (f a)) : σ.Still (y >>= f) :=
  Outcome.bind_any h

theorem flows_of_heap (hheap : τ.heap = σ.heap) (hpool : τ.pool = σ.pool) : Flows σ.pipe σ τ where
  pipe := by
    unfold CNetwork.pipe
    rw [hheap]
  pool _ h := hpool ▸ h

theorem flows_put (id : ObjectId) (o : IOObject) :
    Flows (Function.update σ.pipe id o.pipe) σ (σ.put id o) where
  pipe := by
    funext id'
    by_cases heq : id' = id
    · subst heq
      rw [pipe_eq (σ.put_heap_self id' o), Function.update_self]
    · rw [Function.update_of_ne heq, CNetwork.pipe, σ.put_heap_ne o heq, CNetwork.pipe]
  pool _ h := h

/-- An object changes, and not what passes through it. -/
theorem flows_same (h : o.pipe = σ.pipe id) : Flows σ.pipe σ (σ.put id o) := by
  have hput := flows_put (σ := σ) id o
  rwa [h, Function.update_eq_self] at hput

theorem flows_of_get (hget : σ.get id = .ok o) (o' : IOObject) (h : o'.pipe = o.pipe) :
    Flows σ.pipe σ (σ.put id o') :=
  flows_same (h.trans (pipe_eq (heap_of_get hget)).symm)

theorem flows_notify {notice : Notice} : Flows σ.pipe σ (σ.notify p notice) := flows_of_heap rfl rfl

theorem notifyProtocol_still (notice : Notice) : σ.Still (σ.notifyProtocol o notice) :=
  still_bind fun _ _ => flows_notify

theorem pipe_shutdownWrite {e : CEndPoint} (hend : o.endPoint = some e) :
    { o with endPoint := some e.shutdownWrite }.pipe = o.pipe := by
  simp [IOObject.pipe, hend, accepted_shutdownWrite]

theorem startDisconnecting_still : σ.Still (σ.startDisconnecting id) := by
  apply still_bind
  intro o hget
  dsimp only
  split
  · exact flows_of_get hget _ rfl
  · apply still_bind
    intro e hend
    have hend : o.endPoint = some e := by
      cases h : o.endPoint with
      | none => simp [h, nonNull] at hend
      | some e' => simpa [h, nonNull] using hend
    exact flows_of_get hget _ (pipe_shutdownWrite hend)

end

variable [KeyPool] {σ τ : CNetwork} {id : ObjectId} {o : IOObject} {p : IOProtocol} {key : UInt32}
  {ans : Answers}

/-! ### Closing -/

theorem removeObject_still (key : UInt32) : σ.Still (σ.removeObject key) := by
  simp only [removeObject]
  split
  · exact still_bind fun _ _ => still_bind fun _ _ => flows_of_heap rfl rfl
  · trivial

theorem removeTcpCon_still : σ.Still (σ.removeTcpCon id) := by
  apply still_bind
  intro o hget
  refine Flows.still (flows_of_get hget _ ?_) (removeObject_still o.key)
  rfl

theorem tcpCloseListen_still : σ.Still (σ.tcpCloseListen id) := by
  apply still_bind
  intro o _
  apply Still.bind (notifyProtocol_still _)
  intro τ _
  apply still_bind
  intro o' hget
  refine Flows.still (flows_of_get hget _ ?_) (removeObject_still o'.key)
  rfl

/-- What both ways to close a connection do after telling its protocol. -/
theorem close_tail_still (force : Bool) (state : EConnectState) :
    σ.Still (if force then σ.removeTcpCon id
      else if state = .DISCONNECTING then .ok σ else σ.startDisconnecting id) := by
  split
  · exact removeTcpCon_still
  · split
    · exact still_self
    · exact startDisconnecting_still

theorem tcpCloseConnection_still (force : Bool) : σ.Still (σ.tcpCloseConnection id force) := by
  simp only [tcpCloseConnection]
  apply still_bind
  intro o _
  refine still_bind fun _ _ => still_bind fun _ _ => ?_
  split
  · exact Still.bind (notifyProtocol_still _) fun _ _ => close_tail_still force o.state
  · exact close_tail_still force o.state

theorem tcpCloseConnector_still (force : Bool) : σ.Still (σ.tcpCloseConnector id force) := by
  simp only [tcpCloseConnector]
  apply still_bind
  intro o _
  refine still_bind fun _ _ => ?_
  split
  · exact Still.bind (notifyProtocol_still _) fun _ _ => removeTcpCon_still
  split
  · exact Still.bind (notifyProtocol_still _) fun _ _ => close_tail_still force o.state
  · exact close_tail_still force o.state

theorem tcpCloseCon_still (force : Bool) : σ.Still (σ.tcpCloseCon id force) := by
  apply still_bind
  intro o _
  split
  · exact tcpCloseConnection_still force
  · exact tcpCloseConnector_still force

theorem close_still (key : UInt32) : σ.Still (σ._close key) := by
  unfold _close
  split
  · refine still_bind fun _ _ => still_bind fun _ _ => ?_
    split
    · refine still_bind fun _ _ => still_bind fun _ _ => ?_
      split
      · exact tcpCloseListen_still
      · exact tcpCloseConnection_still false
      · exact tcpCloseConnector_still false
      · trivial
    · exact still_self
    · trivial
  · exact still_self

theorem clear_still (group : Int) : σ.Still (σ._clear group) := by
  apply still_bind
  intro objs _
  apply Outcome.foldlM objs (.refl σ)
  intro τ hτ id _
  exact hτ.still (still_bind fun o _ => close_still o.key)

/-! ### New objects -/

omit [KeyPool] in
/-- A new object has sent nothing and read nothing. -/
theorem flows_create {type : EIOOBJECT_TYPE} {socket : Int} {address : CAddress}
    {reused : Option Nat} (hclean : σ.Clean) (hfree : σ.heap σ.created = none) :
    Flows σ.pipe σ (σ.create type p ⟨socket, address, []⟩ reused) := by
  have hpool : (σ.fromPool type reused).1.outBuffer.bytes = [] ∧
      (σ.fromPool type reused).1.inputBuffer.bytes = [] ∧
      ∀ o ∈ (σ.fromPool type reused).2, o ∈ σ.pool := by
    unfold fromPool
    split
    · next o hbind =>
      obtain ⟨i, -, hi⟩ := Option.bind_eq_some_iff.mp hbind
      obtain ⟨hout, hin⟩ := hclean o (List.mem_of_getElem? hi)
      split
      · exact ⟨hout, hin, fun _ => List.mem_of_mem_erase⟩
      · exact ⟨rfl, rfl, fun _ h => h⟩
    · exact ⟨rfl, rfl, fun _ h => h⟩
  obtain ⟨hout, hin, hsub⟩ := hpool
  have hempty : ((σ.fromPool type reused).1.onAwake p ⟨socket, address, []⟩).pipe =
      σ.pipe σ.created := by
    simp [IOObject.pipe, onAwake, hout, hin, CNetwork.pipe, hfree, CEndPoint.accepted, Pipe.empty,
      Outbox.empty]
  exact ⟨(flows_same hempty).pipe, hsub⟩

theorem addObject_still : σ.Still (σ.addObject id) :=
  still_bind fun _ _ => still_bind fun _ _ => flows_of_heap rfl rfl

theorem tcpListen_still (hclean : σ.Clean) (hfree : σ.heap σ.created = none) (port : UInt16) :
    σ.Still (σ.tcpListen port p ans) := by
  have htell (τ : CNetwork) (b : Bool) : τ.Still (.ok (τ.notify p (.onListen b))) := flows_notify
  simp only [tcpListen]
  split
  · exact htell σ false
  apply (flows_create hclean hfree).still
  apply still_bind
  intro o hget
  refine (flows_of_get hget { o with
    errorCallback := some .defaultErrorHandle, readCallback := some .handleTcpAccept } rfl).still ?_
  apply still_bind
  intro endPoint _
  split
  · exact htell _ false
  split
  · exact htell _ false
  apply (flows_same _).still
  · exact addObject_still.bind fun τ _ => htell τ true
  · rw [pipe_eq (put_heap_self ..)]
    exact pipe_updateObject

theorem handleTcpAccept_still (hclean : σ.Clean) (hfree : σ.heap σ.created = none) :
    σ.Still (σ.handleTcpAccept id ans) := by
  simp only [handleTcpAccept]
  apply still_bind
  intro listener _
  refine still_bind fun _ _ => still_bind fun _ _ => ?_
  split
  · exact still_self
  have hsame : (σ.popKey ans.key).heap = σ.heap ∧ (σ.popKey ans.key).pool = σ.pool ∧
      (σ.popKey ans.key).created = σ.created := by
    unfold popKey
    split
    · exact ⟨rfl, rfl, rfl⟩
    · exact ⟨rfl, rfl, rfl⟩
  have hpop : Flows σ.pipe σ (σ.popKey ans.key) := flows_of_heap hsame.1 hsame.2.1
  split
  · exact hpop
  apply still_bind
  intro fromProtocol _
  split
  · exact hpop
  next protocolId _ =>
  have hclean' : (σ.popKey ans.key).Clean := by
    unfold Clean
    rw [hsame.2.1]
    exact hclean
  have hfree' : (σ.popKey ans.key).heap (σ.popKey ans.key).created = none := by
    rw [hsame.1, hsame.2.2]
    exact hfree
  apply hpop.still
  generalize σ.popKey ans.key = τ at hclean' hfree' ⊢
  apply (flows_create hclean' hfree').still
  apply still_bind
  intro o hget
  apply (flows_of_get hget o.setConnected rfl).still
  apply addObject_still.bind
  intro υ _
  apply still_bind
  intro o' hget'
  apply (flows_of_get hget' _ pipe_updateObject).still
  apply flows_notify.still
  exact still_bind fun o hget => flows_of_get hget _ rfl

theorem tcpConnect_still (hclean : σ.Clean) (hfree : σ.heap σ.created = none) (address : CAddress) :
    σ.Still (σ.tcpConnect address p ans) := by
  simp only [tcpConnect]
  apply (flows_create hclean hfree).still
  apply still_bind
  intro o hget
  refine (flows_of_get hget { o with
    errorCallback := some .handleTcpConnectError
    writeCallback := some .handleTcpConnectWrite } rfl).still ?_
  apply addObject_still.bind
  intro τ hτ
  apply flows_same
  rw [registerWriteHandler, pipe_updateObject, hτ.pipe, pipe_eq (put_heap_self ..)]
  rfl

/-! ### Connections -/

theorem handleTcpConRead_flows :
    Outcome (fun _ => True)
      (Flows (Function.update σ.pipe id ((σ.pipe id).fed ans (ans.readv.getD []))) σ)
      (σ.handleTcpConRead id ans) := by
  have hnone (h : ans.readv.getD [] = []) :
      Function.update σ.pipe id ((σ.pipe id).fed ans (ans.readv.getD [])) = σ.pipe := by
    rw [h, Pipe.fed_nil, Function.update_eq_self]
  apply Outcome.bind_any
  intro con hcon
  refine Outcome.bind_any fun _ _ => Outcome.bind_any fun _ _ => ?_
  split
  · next hreadv =>
    rw [hnone (by simp [hreadv])]
    exact tcpCloseCon_still true
  · next bytes hne hreadv =>
    have hpipe : σ.pipe id = con.pipe := pipe_eq (heap_of_connection hcon)
    apply Outcome.bind_any
    intro inputBuffer hwrite
    let con' : IOObject := { con with inputBuffer := (ans.onUnserialize inputBuffer).2 }
    have hfed : con'.pipe = (σ.pipe id).fed ans (ans.readv.getD []) := by
      obtain ⟨bs⟩ := inputBuffer
      obtain rfl : bs = con.inputBuffer.bytes ++ bytes := IIOBuffer.bytes_of_write hwrite
      have hbytes : bytes ≠ [] := hne
      rw [hpipe, hreadv, Option.getD_some, Pipe.fed, if_neg hbytes]
      rfl
    have hflows := flows_put (σ := σ) id con'
    rw [hfed] at hflows
    dsimp only
    split
    · exact hflows
    · exact hflows.then (tcpCloseCon_still true)
  · next hreadv =>
    rw [hnone (by simp [hreadv])]
    exact still_self

/-! ### Sending -/

/-- From `σ` to `τ` bytes pass only towards the socket of `id`. -/
structure Aside (id : ObjectId) (σ τ : CNetwork) : Prop where
  others : ∀ id', id' ≠ id → τ.pipe id' = σ.pipe id'
  input : (τ.pipe id).input = (σ.pipe id).input
  pool : ∀ o ∈ τ.pool, o ∈ σ.pool

omit [KeyPool] in
theorem Flows.aside (h : Flows σ.pipe σ τ) (id : ObjectId) : Aside id σ τ :=
  ⟨fun _ _ => by rw [h.pipe], by rw [h.pipe], h.pool⟩

omit [KeyPool] in
theorem aside_put {o' : IOObject} (hheap : σ.heap id = some o)
    (hinput : o'.inputBuffer = o.inputBuffer) : Aside id σ (σ.put id o') where
  others id' hne := by
    rw [CNetwork.pipe, σ.put_heap_ne o' hne, CNetwork.pipe]
  input := by
    rw [pipe_eq (put_heap_self ..), pipe_eq hheap, IOObject.pipe, IOObject.pipe, hinput]
  pool _ h := h

omit [KeyPool] in
theorem outbox_pipe {b : Outbox UInt8} (hbox : σ.outbox id = some b) : (σ.pipe id).box = b := by
  obtain ⟨o, e, hheap, hend, rfl⟩ := exists_of_outbox hbox
  simp [pipe_eq hheap, IOObject.pipe, hend]

omit [KeyPool] in
/-- What becomes of the outbox of a connection is all that a step aside changes. -/
theorem Ships.flows {b b' : Outbox UInt8} {x : Except Fault CNetwork} (h : Ships id b' x)
    (haside : Outcome (fun _ => True) (Aside id σ) x) (hbox : σ.outbox id = some b) :
    Outcome (fun _ => True)
      (Flows (Function.update σ.pipe id { σ.pipe id with box := b' }) σ) x := by
  cases x with
  | error f => trivial
  | ok τ =>
    refine ⟨?_, Aside.pool haside⟩
    funext id'
    by_cases heq : id' = id
    · subst heq
      have hinput : (τ.pipe id').input = (σ.pipe id').input := Aside.input haside
      rw [Function.update_self, ← outbox_pipe h]
      exact congrArg (Pipe.mk (τ.pipe id').box) hinput
    · rw [Function.update_of_ne heq, Aside.others haside id' heq]

omit [KeyPool] in
theorem deregisterWriteHandler_inputBuffer :
    o.deregisterWriteHandler.inputBuffer = o.inputBuffer := by
  unfold deregisterWriteHandler updateObject
  split <;> rfl

omit [KeyPool] in
theorem handleTcpConWrite_aside :
    Outcome (fun _ => True) (Aside id σ) (σ.handleTcpConWrite id ans) := by
  simp only [handleTcpConWrite]
  apply Outcome.bind_any
  intro con hcon
  have hheap : σ.heap id = some con := heap_of_connection hcon
  generalize toInt32 con.outBuffer.size = size
  refine Outcome.bind_any fun _ _ => Outcome.bind_any fun _ _ => Outcome.bind_any fun _ _ =>
    Outcome.bind_any fun _ _ => ?_
  split
  · exact Outcome.bind_any fun _ _ => aside_put hheap deregisterWriteHandler_inputBuffer
  · split
    · exact Outcome.bind_any fun _ _ => aside_put hheap rfl
    · exact aside_put hheap rfl

theorem tcpSend_aside : Outcome (fun _ => True) (Aside id σ) (σ.tcpSend id ans) := by
  have hself : Aside id σ σ := (Flows.refl σ).aside id
  simp only [tcpSend]
  apply Outcome.bind_any
  intro con hget
  have hheap : σ.heap id = some con := heap_of_get hget
  apply Outcome.bind_any
  intro _ _
  split
  · exact hself
  split
  · exact (tcpCloseCon_still true).mono fun _ hτ => hτ.aside id
  split
  · trivial
  split
  · exact hself
  apply Outcome.bind_any
  intro endPoint _
  split
  · apply Outcome.bind_any
    intro outBuffer _
    split
    · exact aside_put hheap rfl
    · exact aside_put hheap deregisterWriteHandler_inputBuffer
  · exact aside_put hheap rfl

omit [KeyPool] in
theorem handleTcpConWrite_flows {b : Outbox UInt8} (hbox : σ.outbox id = some b)
    (hsmall : b.pending.length < 2 ^ 31) (hfits : ans.written ≤ b.pending.length) :
    Outcome (fun _ => True)
      (Flows (Function.update σ.pipe id ((σ.pipe id).drained ans.written.toNat)) σ)
      (σ.handleTcpConWrite id ans) := by
  have hflows := (handleTcpConWrite_ships hbox hsmall hfits).flows handleTcpConWrite_aside hbox
  rwa [← outbox_pipe hbox] at hflows

theorem tcpSend_flows {b : Outbox UInt8} (hbox : σ.outbox id = some b) (hfits : WriteFits ans) :
    Outcome (fun _ => True)
      (Flows (Function.update σ.pipe id { σ.pipe id with
        box := offer b (σ.frames id ans).flatten ans.written }) σ)
      (σ.tcpSend id ans) :=
  (tcpSend_offers hbox hfits).flows tcpSend_aside hbox

/-! ### Connecting -/

omit [KeyPool] in
/-- A connector whose attempt has failed has sent nothing. -/
theorem onTcpConnectError_still
    (hdry : ∀ o e, σ.heap id = some o → o.endPoint = some e → e.accepted = []) :
    σ.Still (σ.onTcpConnectError id) := by
  apply still_bind
  intro o hget
  have hheap : σ.heap id = some o := heap_of_get hget
  apply still_bind
  intro e hend
  have hend : o.endPoint = some e := by
    cases h : o.endPoint with
    | none => simp [h, nonNull] at hend
    | some e' => simpa [h, nonNull] using hend
  apply Still.bind (notifyProtocol_still _)
  intro τ hτ
  apply flows_same
  rw [hτ.pipe, pipe_eq hheap]
  simp [IOObject.pipe, startTimer, deregisterObject, hend, hdry o e hheap hend]

omit [KeyPool] in
theorem handleTcpConnectWrite_still (hdry : σ.Dry) : σ.Still (σ.handleTcpConnectWrite id ans) := by
  simp only [handleTcpConnectWrite]
  apply still_bind
  intro o hget
  have hheap : σ.heap id = some o := heap_of_get hget
  split
  · trivial
  apply still_bind
  intro _ hstate
  have hstate : o.state = .CONNECTING := of_require hstate
  have hdry (o' : IOObject) (e : CEndPoint) (hheap' : σ.heap id = some o')
      (hend : o'.endPoint = some e) : e.accepted = [] := by
    obtain rfl := Option.some.inj (hheap.symm.trans hheap')
    exact hdry id o hheap hstate e hend
  apply still_bind
  intro endPoint _
  split
  · exact onTcpConnectError_still hdry
  apply still_bind
  intro self _
  split
  · exact onTcpConnectError_still hdry
  apply (flows_of_get hget _ _).still
  · apply Still.bind (notifyProtocol_still _)
    exact fun _ _ => still_bind fun _ hget' => flows_of_get hget' _ rfl
  · exact pipe_updateObject

end CNetwork

end ZlNet.Network
