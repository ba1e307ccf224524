import ZlNet.Network.Loop

/-! The wake-up object, through which other threads end a wait of the poller, and the functions that
walk over the whole object table besides `getGroupObject`. -/

namespace ZlNet.Network.CNetwork

variable [KeyPool] (σ : CNetwork)

/-- Adds the wake-up object, with the key that the key pool gives and the socket that is created.  It
has no protocol, and does not come from a pool. -/
def init (key : UInt32) (socket : Int) : Except Fault CNetwork := do
  let σ := σ.popKey key
  if key = 0 then return σ
  if socket = -1 then return σ
  let wakeup := σ.created
  let o : IOObject := {
    type := .WAKEUP, key, endPoint := some ⟨socket, ⟨0, 0⟩, []⟩
    readCallback := some .weakupReadHandler }
  let σ := { σ.put wakeup o.registerReadHandler with created := σ.created + 1 }
  σ.addObject wakeup

def isEmpty : Bool := (List.range KeyPool.key_maxnum).all fun i => σ.objects i = none

/-- The scan of `onTimer1000ms` over the buffers, which it does every 30 s.  What it logs for a
connection are the key and the sizes of the buffers that are not empty. -/
def onTimer1000ms : Except Fault (List (UInt32 × Nat)) :=
  (List.range KeyPool.key_maxnum).foldlM (fun logged i => do
    match σ.objects i with
    | none => return logged
    | some object =>
      let o ← σ.get object
      if o.type = .LISTENER then return logged
      let con ← σ.connection object
      let logged := if con.inputBuffer.size ≠ 0 then logged ++ [(con.key, con.inputBuffer.size)]
        else logged
      return if con.outBuffer.size ≠ 0 then logged ++ [(con.key, con.outBuffer.size)] else logged) []

end ZlNet.Network.CNetwork
