import ZlNet.Network.Network

/-! The network thread's functions for TCP: accepting, connecting, sending, receiving and closing. -/

namespace ZlNet.Network.CNetwork

open Lib.Word

variable [KeyPool] (σ : CNetwork)

/-! ### Closing -/

def removeTcpCon (con : ObjectId) : Except Fault CNetwork := do
  let o ← σ.get con
  let σ := σ.put con { o with state := .DISCONNECTED }.deregisterObject
  σ.removeObject o.key

def removeTcpListen (listener : ObjectId) : Except Fault CNetwork := do
  let o ← σ.get listener
  let σ := σ.put listener o.deregisterObject
  σ.removeObject o.key

def tcpCloseListen (listener : ObjectId) : Except Fault CNetwork := do
  let o ← σ.get listener
  let σ ← σ.notifyProtocol o .onUnlisten
  σ.removeTcpListen listener

/-- The end of `tcpCloseConnection` and of `tcpCloseConnector` where they do not remove the
connection: it is shut for writing, now or when all is sent, and removed after a while. -/
def startDisconnecting (con : ObjectId) : Except Fault CNetwork := do
  let o ← σ.get con
  let o := { o with state := .DISCONNECTING }
  if o.isWriting then return σ.put con (o.startTimer .forceClose)
  let endPoint ← nonNull o.endPoint
  return σ.put con ({ o with endPoint := some endPoint.shutdownWrite }.startTimer .forceClose)

def tcpCloseConnection (con : ObjectId) (force : Bool) : Except Fault CNetwork := do
  let o ← σ.get con
  require (o.type = .SESSION) .tcpCloseConnection
  require (o.state ≠ .DISCONNECTED) .tcpCloseConnection
  let σ ← if o.state = .CONNECTED then σ.notifyProtocol o .onClose else pure σ
  if force then σ.removeTcpCon con
  else if o.state = .DISCONNECTING then return σ
  else σ.startDisconnecting con

def tcpCloseConnector (con : ObjectId) (force : Bool) : Except Fault CNetwork := do
  let o ← σ.get con
  require (o.type = .CONNECTOR) .tcpCloseConnector
  if o.state = .DISCONNECTED ∨ o.state = .CONNECTING then
    let σ ← σ.notifyProtocol o (.onConnect false)
    σ.removeTcpCon con
  else
    let σ ← if o.state = .CONNECTED then σ.notifyProtocol o .onDisConnect else pure σ
    if force then σ.removeTcpCon con
    else if o.state = .DISCONNECTING then return σ
    else σ.startDisconnecting con

def tcpCloseCon (con : ObjectId) (force : Bool) : Except Fault CNetwork := do
  let o ← σ.get con
  if o.type = .SESSION then σ.tcpCloseConnection con force else σ.tcpCloseConnector con force

def tcpClose (key : UInt32) (force : Bool) : Except Fault CNetwork := do
  let object ← nonNull (σ.getObject key)
  let o ← σ.get object
  match o.type with
  | .LISTENER => σ.tcpCloseListen object
  | .SESSION => σ.tcpCloseConnection object force
  | .CONNECTOR => σ.tcpCloseConnector object force
  | .WAKEUP => throw (.assertion .tcpClose)

def _close (key : UInt32) : Except Fault CNetwork :=
  match σ.getObject key with
  | some object => do
    let o ← σ.get object
    let protocol ← nonNull o.protocol
    match protocol.protocolType with
    | .TCP => σ.tcpClose key false
    | .KCP => return σ
    | .UDP => throw (.assertion ._close)
  | none => return σ

/-! ### Connections -/

/-- Starts the timer of a connection that is established. -/
def onNewConnection (con : ObjectId) : Except Fault CNetwork := do
  let o ← σ.get con
  return σ.put con (o.startTimer .onTimer)

/-- Reads what `weakup` has written to the wake-up object. -/
def weakupReadHandler (object : ObjectId) : Except Fault CNetwork := do
  let o ← σ.get object
  let _ ← nonNull o.endPoint
  return σ

def defaultErrorHandle (object : ObjectId) : Except Fault CNetwork := do
  let o ← σ.get object
  let _ ← nonNull o.endPoint
  return σ

def handleTcpConError (object : ObjectId) : Except Fault CNetwork := do
  let o ← σ.connection object
  let _ ← nonNull o.endPoint
  σ.tcpCloseCon object true

def handleTcpConRead (object : ObjectId) (ans : Answers) : Except Fault CNetwork := do
  let con ← σ.connection object
  require con.enableRead .handleTcpConRead
  let _ ← nonNull con.endPoint
  match ans.readv with
  | some [] => σ.tcpCloseCon object true
  | some bytes =>
    let inputBuffer ← con.inputBuffer.write bytes
    let (accept, inputBuffer) := ans.onUnserialize inputBuffer
    let σ := σ.put object { con with inputBuffer }
    if accept then return σ else σ.tcpCloseCon object true
  | none => return σ

/-- What the socket is offered is taken to be the content of `outBuffer`.  The call of `writev` itself, with
the number of bytes as the number of its entries, is `writevCall`. -/
def handleTcpConWrite (object : ObjectId) (ans : Answers) : Except Fault CNetwork := do
  let con ← σ.connection object
  require con.enableWrite .handleTcpConWrite
  require con.isWriting .handleTcpConWrite
  let size := toInt32 con.outBuffer.size
  require (size ≠ 0) .handleTcpConWrite
  let endPoint ← nonNull con.endPoint
  let count := ans.written
  let endPoint := endPoint.write con.outBuffer.bytes count
  if count = size then
    let outBuffer ← con.outBuffer.readConfirm (ofInt32 size)
    let endPoint := if con.state = .DISCONNECTING then endPoint.shutdownWrite else endPoint
    return σ.put object
      { con with outBuffer, isWriting := false, endPoint := some endPoint }.deregisterWriteHandler
  else if 0 < count ∧ count < size then
    let outBuffer ← con.outBuffer.readConfirm count.toNat
    return σ.put object { con with outBuffer, endPoint := some endPoint }
  else
    return σ.put object { con with endPoint := some endPoint }

def tcpSend (object : ObjectId) (ans : Answers) : Except Fault CNetwork := do
  let con ← σ.get object
  require con.isConnection .tcpSend
  if !con.enableSend then return σ
  match ans.onSerialize with
  | none => σ.tcpCloseCon object true
  | some data =>
    -- as a signed size it would be negative, and `write` take it for a size past the buffer
    if 2 ^ 31 ≤ data.length then throw .outOfBounds
    let size : Int := data.length
    if size = 0 then return σ
    let endPoint ← nonNull con.endPoint
    let count := ans.written
    let con := { con with endPoint := some (endPoint.write data count) }
    if 0 < count ∧ count ≠ size then
      let outBuffer ← con.outBuffer.write (data.drop count.toNat)
      let con := { con with outBuffer }
      return σ.put object
        (if con.isWriting then con else { con with isWriting := true }.deregisterWriteHandler)
    else return σ.put object con

/-! ### Listening -/

def tcpListen (port : UInt16) (protocol : IOProtocol) (ans : Answers) : Except Fault CNetwork := do
  if ans.socket = -1 then return σ.notify protocol (.onListen false)
  let address : CAddress := ⟨INADDR_ANY, port⟩
  let listener := σ.created
  let σ := σ.create .LISTENER protocol ⟨ans.socket, address, []⟩ ans.reused
  let o ← σ.get listener
  let o := { o with
    errorCallback := some .defaultErrorHandle, readCallback := some .handleTcpAccept }
  let σ := σ.put listener o
  let endPoint ← nonNull o.endPoint
  if endPoint.bind ans.bindErrno < 0 then return σ.notify protocol (.onListen false)
  if endPoint.listen ans.listenErrno < 0 then return σ.notify protocol (.onListen false)
  let σ := σ.put listener o.registerReadHandler
  let σ ← σ.addObject listener
  return σ.notify protocol (.onListen true)

def handleTcpAccept (object : ObjectId) (ans : Answers) : Except Fault CNetwork := do
  let listener ← σ.get object
  require (listener.type = .LISTENER) .handleTcpAccept
  let _ ← nonNull listener.endPoint
  match ans.accepted with
  | none => return σ
  | some (socket, address) =>
    let σ := σ.popKey ans.key
    if ans.key = 0 then return σ
    let fromProtocol ← nonNull listener.protocol
    match ans.created with
    | none => return σ
    | some id =>
      let protocol : IOProtocol := ⟨id, .TCP, .SESSION, ans.key, 0⟩
      let con := σ.created
      let σ := σ.create .SESSION protocol ⟨socket, address, []⟩ ans.reused
      let o ← σ.get con
      let σ := σ.put con o.setConnected
      let σ ← σ.addObject con
      let o ← σ.get con
      let σ := σ.put con o.registerReadHandler
      (σ.notify protocol (.onAccept fromProtocol)).onNewConnection con

/-! ### Connecting -/

def tcpConnect (address : CAddress) (protocol : IOProtocol) (ans : Answers) :
    Except Fault CNetwork := do
  let connect := σ.created
  let σ := σ.create .CONNECTOR protocol ⟨ans.socket, address, []⟩ ans.reused
  let o ← σ.get connect
  let o := { o with
    errorCallback := some .handleTcpConnectError, writeCallback := some .handleTcpConnectWrite }
  let σ := σ.put connect o
  let σ ← σ.addObject connect
  return σ.put connect { o with state := .CONNECTING }.registerWriteHandler

def onTcpConnectError (connect : ObjectId) : Except Fault CNetwork := do
  let o ← σ.get connect
  let endPoint ← nonNull o.endPoint
  let o := { o.deregisterObject with state := .DISCONNECTED, endPoint := none }
  let σ ← σ.notifyProtocol o (.onConnect false)
  return σ.put connect (o.startTimer (.reconnect endPoint.address))

def handleTcpConnectError (object : ObjectId) : Except Fault CNetwork := do
  let o ← σ.get object
  let _ ← nonNull o.endPoint
  if o.type = .CONNECTOR then σ.onTcpConnectError object else throw .nullPointer

def handleTcpConnectWrite (object : ObjectId) (ans : Answers) : Except Fault CNetwork := do
  let connect ← σ.get object
  if connect.type ≠ .CONNECTOR then throw .nullPointer
  require (connect.state = .CONNECTING) .handleTcpConnectWrite
  let endPoint ← nonNull connect.endPoint
  if ans.remoteName = none then σ.onTcpConnectError object
  else if ← endPoint.isSelfConnect ans.localName ans.remoteNameAgain then
    σ.onTcpConnectError object
  else
    let o := connect.deregisterObject.setConnected
    let σ := σ.put object o.registerReadHandler
    let σ ← σ.notifyProtocol o (.onConnect true)
    σ.onNewConnection object

/-! ### Timers -/

/-- A timer that goes off once is done. -/
def timerDone (con : ObjectId) (timer : Timer) : Except Fault CNetwork := do
  let o ← σ.get con
  return σ.put con { o with timers := o.timers.erase timer }

def onTimer (con : ObjectId) (ans : Answers) : Except Fault CNetwork := do
  let o ← σ.get con
  let _ ← nonNull o.protocol
  if ans.onTimer then return σ else σ._close o.key

def forceClose (con : ObjectId) : Except Fault CNetwork := do
  let o ← σ.get con
  if σ.getObject o.key = none then return σ
  require (o.state = .DISCONNECTING) .forceClose
  σ.removeTcpCon con

def reconnect (con : ObjectId) (address : CAddress) (ans : Answers) : Except Fault CNetwork := do
  let o ← σ.get con
  if σ.getObject o.key = none then return σ
  if o.type ≠ .CONNECTOR then throw .nullPointer
  require (o.state = .DISCONNECTED) .reconnect
  let o := { o with endPoint := some ⟨ans.socket, address, []⟩, state := .CONNECTING }
  return σ.put con o.registerWriteHandler

end ZlNet.Network.CNetwork
