import Udp2raw.Conv
import Udp2raw.Core.Slab
import Udp2raw.Effect
import Udp2raw.Raw.Receive

/-!
# Server state

Connections and local sockets live in slabs; two tables find a connection by its
client address and, when it is ready, by the const id of its client. The numbers
`serial` and `created` are not in the source: they give every connection a name
that outlives its slot, so that a socket can be said to belong to the connection
that opened it.
-/

namespace Udp2raw

/-- `MAX_HANDSHAKE_CONN_NUM`. -/
def maxHandshakeConnNum : Nat := 10000

/-- `MAX_READY_CONN_NUM`. -/
def maxReadyConnNum : Nat := 1000

/-- `CONN_CLEAR_RATIO`. -/
def connClearRatio : Nat := 50

/-- `CONN_CLEAR_MIN`. -/
def connClearMin : Nat := 1

/-- `CONN_CLEAR_INTERVAL_MS`. -/
def connClearIntervalMs : Nat := 1000

/-- `SERVER_CONN_TIMEOUT_MS`. -/
def serverConnTimeoutMs : UInt64 := 180000 + 60000

/-- `SERVER_HANDSHAKE_TIMEOUT_MS`. -/
def serverHandshakeTimeoutMs : UInt64 := 5000 + 5000

/-- `State` of a server connection. -/
inductive ServerState where
  | idle
  | handshake1
  | ready
  deriving DecidableEq, Repr

/-- A client address: IP and port, or ICMP id. -/
abbrev Addr := IpAddr × UInt16

/-- `ConvSock`: a local UDP socket of one conversation. -/
structure ConvSock where
  connSlot : Nat
  conv : UInt32
  /-- The connection that opened the socket. -/
  serial : Nat
  deriving DecidableEq, Repr

/-- `ServerConn`. -/
structure ServerConn where
  info : ConnInfo
  state : ServerState
  /-- Conversation to index into the sockets. -/
  convs : ConvManager Nat := {}
  generation : UInt64
  addr : Addr
  /-- How many connections were created before this one. -/
  serial : Nat

/-- The settings the handlers read. -/
structure ServerCfg where
  ctx : RawCtx
  constId : UInt32
  fixGro : Bool := false
  easyFaketcp : Bool := false
  disableAntiReplay : Bool := false
  hbMode : Int32 := 1
  hbBuf : Bytes := []
  manualLl : Option SockaddrLl := none
  /-- `Crypto::decrypt`. -/
  decrypt : Bytes → Option Bytes

/-- `Server`: the state the event loop keeps between events. -/
structure Server where
  conns : Slab ServerConn := .empty
  byAddr : Table Addr Nat := ∅
  byConstId : Table UInt32 Nat := ∅
  readyNum : Nat := 0
  socks : Slab ConvSock := .empty
  clearCursor : Nat := 0
  lastConnClear : UInt64 := 0
  nextGeneration : UInt64 := 1
  /-- How many connections have been created. -/
  created : Nat := 0

/-- A handler of the server. -/
abbrev ServerM := Program Server Effect Fault

/-- A server connection with other per-connection state. -/
def ServerConn.withInfo (c : ServerConn) (info : ConnInfo) : ServerConn := { c with info := info }

/-- A connection that went ready under the const id `k`. -/
def ServerConn.becomeReady (c : ServerConn) (k : UInt32) (now : UInt64) : ServerConn :=
  { c with
    state := .ready
    info := { c.info with
      oppsiteConstId := k, lastHbRecvTime := now, lastHbSentTime := now
      antiReplay := c.info.antiReplay.reInit } }

/-- A connection that took over the address and the raw connection of `c`. -/
def ServerConn.takeOver (oc c : ServerConn) (generation : UInt64) : ServerConn :=
  { oc with addr := c.addr, info := oc.info.recoverFrom c.info, generation := generation }

/-- A connection that gave up, with the const id `k`. -/
def ServerConn.giveUp (c : ServerConn) (k : UInt32) : ServerConn :=
  { c with state := .idle, info := { c.info with oppsiteConstId := k } }

/-- The job key of the connection in a slot. -/
def ServerConn.key (c : ServerConn) (slot : Nat) : JobKey := ⟨slot, c.generation⟩

namespace Server

/-- Replace the connection in a live slot. -/
def setConn (s : Server) (slot : Nat) (c : ServerConn) : Server :=
  { s with conns := s.conns.set slot c }

/-- `alloc_conn` of a new connection, with its address and its generation. -/
def addConn (s : Server) (c : ServerConn) : Server × Nat :=
  let (conns, slot) := s.conns.alloc c
  ({ s with
      conns := conns
      byAddr := s.byAddr.insert c.addr slot
      nextGeneration := s.nextGeneration + 1
      created := s.created + 1 }, slot)

/-- The connection in `slot` becomes ready under the const id `k`. -/
def goReady (s : Server) (slot : Nat) (c : ServerConn) (k : UInt32) (now : UInt64) : Server :=
  { s with
    conns := s.conns.set slot (c.becomeReady k now)
    readyNum := s.readyNum + 1
    byConstId := s.byConstId.insert k slot }

/-- The connection `oc` in `ori` takes over address, raw state and ids of the new connection
`c` in `slot`, which inherits the old address and goes idle. -/
def recover (s : Server) (slot ori : Nat) (c oc : ServerConn) : Server :=
  { s with
    byAddr := (s.byAddr.insert c.addr ori).insert oc.addr slot
    conns := (s.conns.set ori (oc.takeOver c s.nextGeneration)).set slot
      { c.giveUp 0 with addr := oc.addr }
    nextGeneration := s.nextGeneration + 1 }

/-- A new socket for a conversation of the connection in `slot`; registering it fails. -/
def openSockUnregistered (s : Server) (slot : Nat) (c : ServerConn) (conv : UInt32) : Server :=
  let (socks, sidx) := s.socks.alloc { connSlot := slot, conv := conv, serial := c.serial }
  { s with socks := socks.release sidx }

/-- A new registered socket for a conversation of the connection in `slot`. -/
def openSock (s : Server) (slot : Nat) (c : ServerConn) (conv : UInt32) (now : UInt64) : Server :=
  let (socks, sidx) := s.socks.alloc { connSlot := slot, conv := conv, serial := c.serial }
  { s with
    socks := socks
    conns := s.conns.set slot { c with convs := c.convs.insert conv sidx now } }

/-- Expired conversations of the connection in `slot` and `close_sock` on each socket. -/
def expireConvs (s : Server) (slot : Nat) (c : ServerConn) (now : UInt64) : Server :=
  let (expired, convs) := c.convs.clearInactive now
  { s with
    conns := s.conns.set slot { c with convs := convs }
    socks := s.socks.releaseAll (expired.map Prod.snd) }

/-- `erase_conn` of the connection `c` in `slot`; `order` is the iteration order of its
conversations. -/
def dropConn (s : Server) (slot : Nat) (c : ServerConn) (order : List Nat → List Nat) : Server :=
  { s with
    conns := s.conns.release slot
    readyNum := if c.state = .ready then s.readyNum - 1 else s.readyNum
    byConstId :=
      if c.state = .ready then s.byConstId.erase c.info.oppsiteConstId else s.byConstId
    socks := s.socks.releaseAll (c.convs.clear order).1
    byAddr := s.byAddr.erase c.addr }

end Server

end Udp2raw
