import Mathlib.Logic.Relation
import ZlNet.Network.Proof.Invariant

/-! What the functions of the network thread can do: the changes of one object, of the object table
and of the queue that each of them is made of, and what protocols are told with each. -/

namespace ZlNet.Network

open Lib IOObject

namespace IOObject

/-- What the protocol of a connection is told when it is closed. -/
def gone (o : IOObject) : Notice := if o.type = .SESSION then .onClose else .onDisConnect

structure Same (o o' : IOObject) : Prop where
  type : o'.type = o.type
  key : o'.key = o.key
  protocol : o'.protocol = o.protocol

theorem Same.isConnection {o o' : IOObject} (h : Same o o') :
    o'.isConnection = o.isConnection := by
  unfold IOObject.isConnection
  rw [h.type]

/-- An object of the table changes and stays there.  Its socket is shut for writing only where the
function does not force it to close. -/
inductive Act (force : Bool) (o o' : IOObject) : Option Notice → Prop
  | keeps (hstate : o'.state = o.state) (hend : o'.endPoint = o.endPoint)
      (hout : o'.outBuffer = o.outBuffer) : Act force o o' none
  | sends {e : CEndPoint} {data : List UInt8} {count : Int} (hstate : o'.state = o.state)
      (hest : o.state = .CONNECTED ∨ o.state = .DISCONNECTING ∧ o.outBuffer.bytes ≠ [])
      (hend : o.endPoint = some e) (hend' : o'.endPoint = some (e.write data count)) :
      Act force o o' none
  | flushes {e : CEndPoint} {data : List UInt8} {count : Int} (hforce : force = false)
      (hcon : o.isConnection = true) (hstate : o.state = .DISCONNECTING)
      (hstate' : o'.state = .DISCONNECTING)
      (hout : o.outBuffer.bytes ≠ []) (hout' : o'.outBuffer.bytes = [])
      (hend : o.endPoint = some e)
      (hend' : o'.endPoint = some (e.write data count).shutdownWrite) : Act force o o' none
  | disconnects (hforce : force = false) (hcon : o.isConnection = true)
      (hstate : o.state = .CONNECTED) (hstate' : o'.state = .DISCONNECTING)
      (hout : o'.outBuffer = o.outBuffer)
      (hend : o'.endPoint = o.endPoint ∨ o.outBuffer.bytes = [] ∧
        o'.endPoint = o.endPoint.map CEndPoint.shutdownWrite) : Act force o o' (some o.gone)
  | fails (htype : o.type = .CONNECTOR) (hstate : o.state = .CONNECTING)
      (hstate' : o'.state = .DISCONNECTED) (hend : o'.endPoint = none) :
      Act force o o' (some (.onConnect false))
  | connects (htype : o.type = .CONNECTOR) (hstate : o.state = .CONNECTING)
      (hstate' : o'.state = .CONNECTED) (hend : o'.endPoint = o.endPoint) :
      Act force o o' (some (.onConnect true))
  | retries {e : CEndPoint} (htype : o.type = .CONNECTOR) (hstate : o.state = .DISCONNECTED)
      (hstate' : o'.state = .CONNECTING) (hend : o'.endPoint = some e) (hsent : e.sent = []) :
      Act force o o' none

/-- An object leaves the table.  An established connection does so only where it is forced to. -/
inductive Exit (force : Bool) (o : IOObject) : Option Notice → Prop
  | unlisten (htype : o.type = .LISTENER) : Exit force o (some .onUnlisten)
  | drops (hforce : force = true) (hcon : o.isConnection = true) (hstate : o.state = .CONNECTED) :
      Exit force o (some o.gone)
  | finishes (hforce : force = true) (hcon : o.isConnection = true)
      (hstate : o.state = .DISCONNECTING) : Exit force o none
  | abandons (htype : o.type = .CONNECTOR)
      (hstate : o.state = .DISCONNECTED ∨ o.state = .CONNECTING) :
      Exit force o (some (.onConnect false))

variable {P : EIOOBJECT_TYPE → IOProtocol → Prop}

/-- A new object for the protocol `p`, in the table or not.  That of an event is one of `P`. -/
inductive Entry (P : EIOOBJECT_TYPE → IOProtocol → Prop) (o : IOObject) (p : IOProtocol) :
    Bool → Option Notice → Prop
  | listens (htype : o.type = .LISTENER) (hp : P .LISTENER p) :
      Entry P o p true (some (.onListen true))
  | refused (htype : o.type = .LISTENER) (hp : P .LISTENER p) :
      Entry P o p false (some (.onListen false))
  | accepted (htype : o.type = .SESSION) (hp : p.type = .SESSION) (hstate : o.state = .CONNECTED)
      (fromProtocol : IOProtocol) : Entry P o p true (some (.onAccept fromProtocol))
  | connects (htype : o.type = .CONNECTOR) (hp : P .CONNECTOR p) (hstate : o.state = .CONNECTING) :
      Entry P o p true none

/-- Nothing was sent by it, and nothing is to be sent. -/
structure Silent (o : IOObject) : Prop where
  sent : ∀ e, o.endPoint = some e → e.sent = []
  outBuffer : o.outBuffer.bytes = []

end IOObject

namespace CNetwork

def tell (σ : CNetwork) (p : IOProtocol) : Option Notice → CNetwork
  | some notice => σ.notify p notice
  | none => σ

variable [KeyPool]

/-- The state `υ` in which the key `key` is taken from the queue, with its event, or from the key
pool. -/
inductive Claims (σ : CNetwork) (key : UInt32) : CNetwork → Prop
  | event {event : IOEvent} {rest : List IOEvent} (hqueue : σ.eventQueue = event :: rest)
      (hkey : event.protocolKey = some key) : Claims σ key { σ with eventQueue := rest }
  | free (hfree : σ.Free key) (hne : key ≠ 0) : Claims σ key (σ.popKey key)

inductive Move (force : Bool) (P : EIOOBJECT_TYPE → IOProtocol → Prop) (σ : CNetwork) :
    CNetwork → Prop
  | act {id : ObjectId} {o o' : IOObject} {p : IOProtocol} {told : Option Notice}
      (hin : σ.InTable id o) (hp : o.protocol = some p) (hsame : Same o o')
      (hact : Act force o o' told) : Move force P σ ((σ.put id o').tell p told)
  | exit {id : ObjectId} {o o' : IOObject} {p : IOProtocol} {told : Option Notice}
      (hin : σ.InTable id o) (hp : o.protocol = some p) (hsame : Same o o')
      (hend : o'.endPoint = o.endPoint) (hout : o'.outBuffer = o.outBuffer)
      (hstate : o'.state = .DISCONNECTED ∨ o'.state = o.state ∧ o.type = .LISTENER)
      (hexit : Exit force o told) : Move force P σ ((σ.removed id o').tell p told)
  | absent {id : ObjectId} {o : IOObject} (hheap : σ.heap id = some o)
      (habsent : σ.objects (KeyPool.index o.key) ≠ some id) (timers : List Timer) :
      Move force P σ (σ.put id { o with timers })
  | entry {υ : CNetwork} {o : IOObject} {p : IOProtocol} {pool : List IOObject} {inTable : Bool}
      {told : Option Notice} (hclaims : σ.Claims p.key υ) (hp : o.protocol = some p)
      (hkey : o.key = p.key) (hsilent : o.Silent) (hentry : Entry P o p inTable told) :
      Move force P σ ((υ.added o pool inTable).tell p told)
  | refused {υ : CNetwork} {p : IOProtocol} (hclaims : σ.Claims p.key υ) (hp : P .LISTENER p) :
      Move force P σ (υ.notify p (.onListen false))
  | popKey {key : UInt32} (hfree : σ.Free key) : Move force P σ (σ.popKey key)
  | popEvent {event : IOEvent} {rest : List IOEvent} (hqueue : σ.eventQueue = event :: rest) :
      Move force P σ { σ with eventQueue := rest }

/-- A move between two states with the invariant. -/
structure Turn (force : Bool) (P : EIOOBJECT_TYPE → IOProtocol → Prop) (σ τ : CNetwork) :
    Prop where
  inv : σ.Inv
  leads : σ.Leads τ
  move : σ.Move force P τ

/-- Any number of moves. -/
def Goes (force : Bool) (P : EIOOBJECT_TYPE → IOProtocol → Prop) (σ τ : CNetwork) : Prop :=
  Relation.ReflTransGen (Turn force P) σ τ

/-- Moves of which some are forced, and then others that are not. -/
def Proceeds (P : EIOOBJECT_TYPE → IOProtocol → Prop) (σ τ : CNetwork) : Prop :=
  ∃ υ, Goes true P σ υ ∧ Goes false P υ τ

section

variable {force : Bool} {P : EIOOBJECT_TYPE → IOProtocol → Prop} {σ τ υ : CNetwork} {id : ObjectId}
  {o o' : IOObject} {p : IOProtocol} {told : Option Notice} {x : Except Fault CNetwork}

theorem Goes.refl (σ : CNetwork) : Goes force P σ σ := Relation.ReflTransGen.refl

theorem Goes.trans (h : Goes force P σ τ) (h' : Goes force P τ υ) : Goes force P σ υ :=
  Relation.ReflTransGen.trans h h'

theorem Goes.leads (h : σ.Inv) (hgoes : Goes force P σ τ) : σ.Leads τ := by
  induction hgoes with
  | refl => exact h.refl
  | tail _ hturn ih => exact ih.trans hturn.leads

theorem Goes.inv (h : σ.Inv) (hgoes : Goes force P σ τ) : τ.Inv := (hgoes.leads h).inv

/-- A result of the state after some moves is one of the state before them. -/
theorem Goes.outcome {allowed : Fault → Prop} (h : Goes force P σ τ)
    (hx : Outcome allowed (Goes force P τ) x) : Outcome allowed (Goes force P σ) x :=
  hx.mono fun _ => h.trans

theorem Goes.forced (h : Goes true P σ τ) : Proceeds P σ τ := ⟨τ, h, .refl τ⟩

theorem Goes.gentle (h : Goes false P σ τ) : Proceeds P σ τ := ⟨σ, .refl σ, h⟩

theorem Proceeds.leads (h : σ.Inv) (hproceeds : Proceeds P σ τ) : σ.Leads τ := by
  obtain ⟨υ, hforced, hgentle⟩ := hproceeds
  have hυ := hforced.leads h
  exact hυ.trans (hgentle.leads hυ.inv)

theorem Inv.tell (h : σ.Inv) (p : IOProtocol) (told : Option Notice) : σ.Leads (σ.tell p told) := by
  cases told with
  | some notice => exact h.notices _
  | none => exact h.refl

theorem Leads.tell (h : σ.Leads τ) (p : IOProtocol) (told : Option Notice) :
    σ.Leads (τ.tell p told) :=
  h.trans (h.inv.tell p told)

theorem Inv.goes (h : σ.Inv) (hleads : σ.Leads τ) (hmove : σ.Move force P τ) : Goes force P σ τ :=
  .single ⟨h, hleads, hmove⟩

/-- An object of the table changes, and its protocol is told. -/
theorem Inv.acts (h : σ.Inv) (hin : σ.InTable id o) (hp : o.protocol = some p)
    (told : Option Notice) (hsettled : o'.Settled) (hsame : Same o o') (hact : Act force o o' told) :
    Goes force P σ ((σ.put id o').tell p told) :=
  h.goes ((h.set hin hsettled hsame.key hsame.protocol).tell p told) (.act hin hp hsame hact)

theorem Inv.held_protocol (h : σ.Inv) (hheap : σ.heap id = some o) :
    ∃ p, o.protocol = some p ∧ p.key = o.key ∧ p.protocolType = .TCP :=
  (h.held id o hheap).2.2.1

/-- An object of the table changes where nobody can see it. -/
theorem Inv.keeps (h : σ.Inv) (hin : σ.InTable id o) (hsettled : o'.Settled) (hsame : Same o o')
    (hstate : o'.state = o.state) (hend : o'.endPoint = o.endPoint)
    (hout : o'.outBuffer = o.outBuffer) : Goes force P σ (σ.put id o') := by
  obtain ⟨p, hp, -⟩ := h.held_protocol hin.heap
  exact h.acts hin hp none hsettled hsame (.keeps hstate hend hout)

/-- A connection hands bytes to its socket. -/
theorem Inv.sends (h : σ.Inv) (hin : σ.InTable id o) {e : CEndPoint} {data : List UInt8}
    {count : Int} (hsettled : o'.Settled) (hsame : Same o o') (hstate : o'.state = o.state)
    (hest : o.state = .CONNECTED ∨ o.state = .DISCONNECTING ∧ o.outBuffer.bytes ≠ [])
    (hend : o.endPoint = some e) (hend' : o'.endPoint = some (e.write data count)) :
    Goes force P σ (σ.put id o') := by
  obtain ⟨p, hp, -⟩ := h.held_protocol hin.heap
  exact h.acts hin hp none hsettled hsame (.sends hstate hest hend hend')

/-- A connection leaves the table. -/
theorem Inv.exits (h : σ.Inv) (hin : σ.InTable id o) (hp : o.protocol = some p)
    (told : Option Notice) (hexit : Exit force o told) (timers : List Timer) :
    Goes force P σ ((σ.removed id { o with state := .DISCONNECTED, events := 0, timers }).tell p
      told) := by
  let o' : IOObject := { o with state := .DISCONNECTED, events := 0, timers }
  have hleads : σ.Leads (σ.removed id o') := h.removed hin rfl rfl rfl
  exact h.goes (hleads.tell p told) (.exit hin hp ⟨rfl, rfl, rfl⟩ rfl rfl (.inl rfl) hexit)

theorem Claims.same {key : UInt32} (h : σ.Claims key υ) :
    υ.heap = σ.heap ∧ υ.objects = σ.objects ∧ υ.created = σ.created ∧ υ.notices = σ.notices := by
  cases h with
  | event => exact ⟨rfl, rfl, rfl, rfl⟩
  | free hfree hne =>
    rw [CNetwork.popKey, if_neg hne]
    exact ⟨rfl, rfl, rfl, rfl⟩

theorem Claims.leads {key : UInt32} (hclaims : σ.Claims key υ) (h : σ.Inv) : σ.Leads υ := by
  cases hclaims with
  | event hqueue => exact (h.popEvent hqueue).1
  | free hfree => exact h.popKey hfree

/-- A key that was claimed is fresh. -/
theorem Claims.fresh {key : UInt32} (hclaims : σ.Claims key υ) (h : σ.Inv) : υ.Fresh key := by
  cases hclaims with
  | event hqueue hkey => exact (h.popEvent hqueue).2 key hkey
  | free hfree hne => exact h.fresh_popKey hfree hne

/-- A new object, in the table or not. -/
theorem Claims.enters (hclaims : σ.Claims p.key υ) (h : σ.Inv) {pool : List IOObject}
    {inTable : Bool} (told : Option Notice) (hp : o.protocol = some p) (hkey : o.key = p.key)
    (htcp : p.protocolType = .TCP) (hpool : ∀ o ∈ pool, o ∈ υ.pool)
    (hevents : inTable = false → o.events = 0) (hsettled : inTable = true → o.Settled)
    (hsilent : o.Silent) (hentry : Entry P o p inTable told) :
    Goes force P σ ((υ.added o pool inTable).tell p told) := by
  have hleads := hclaims.leads h
  have hadded := hleads.inv.added (hkey ▸ hclaims.fresh h) ⟨p, hp, hkey.symm, htcp⟩ hpool hevents
    hsettled
  exact h.goes ((hleads.trans hadded).tell p told) (.entry hclaims hp hkey hsilent hentry)

end

end CNetwork

end ZlNet.Network
