import Udp2raw.Conv
import Udp2raw.Effect
import Udp2raw.Raw.Receive

/-!
# Client state

The client has one connection to the server and the conversations of its local
peers. Between attempts it is idle; each attempt runs a FakeTCP handshake where
the mode has one, then two handshake packets, and ends in the ready state.
-/

namespace Udp2raw

/-- `CLIENT_HANDSHAKE_TIMEOUT_MS`. -/
def clientHandshakeTimeoutMs : UInt64 := 5000

/-- `CLIENT_RETRY_INTERVAL_MS`. -/
def clientRetryIntervalMs : UInt64 := 1000

/-- `CLIENT_CONN_TIMEOUT_MS`. -/
def clientConnTimeoutMs : UInt64 := 10000

/-- `CLIENT_CONN_UPLINK_TIMEOUT_MS`. -/
def clientConnUplinkTimeoutMs : UInt64 := clientConnTimeoutMs + 2000

/-- `KERNEL_RESOURCE_RETRY_MS`. -/
def kernelResourceRetryMs : UInt64 := 5000

/-- `State` of the client. -/
inductive ClientState where
  | idle
  | tcpHandshake
  | tcpHandshakeDummy
  | handshake1
  | handshake2
  | ready
  deriving DecidableEq, Repr

/-- The settings the handlers read. -/
structure ClientCfg where
  ctx : RawCtx
  constId : UInt32
  fixGro : Bool := false
  easyFaketcp : Bool := false
  hbMode : Int32 := 1
  hbBuf : Bytes := []
  sourceIp : Option IpAddr := none
  sourcePort : Option UInt16 := none
  /-- `--lower-level auto`. -/
  lowerLevelAuto : Bool := false
  /-- `Crypto::decrypt`. -/
  decrypt : Bytes → Option Bytes

/-- `Client`: what the event loop keeps between events, apart from the endpoint controller
and the kernel resources, whose answers are arguments of the handlers. -/
structure Client where
  info : ConnInfo
  state : ClientState := .idle
  convs : ConvManager (IpAddr × UInt16) := {}
  failTimeCounter : UInt32 := 0
  generation : UInt64 := 1
  remote : IpAddr × UInt16
  /-- `RawCtx::filter_port`. -/
  filterPort : UInt16 := 0
  attemptEndpointSelected : Bool := false
  lowerLevelReady : Bool := true
  setupNotBeforeMs : UInt64 := 0
  lastKernelRetryMs : UInt64 := 0
  cycleReason : CycleReason := .startup
  /-- `exit_flag`, set when a port or a filter cannot be had. -/
  exiting : Bool := false

/-- A handler of the client. -/
abbrev ClientM := Program Client Effect Fault

namespace Client

/-- `run` up to the event loop: a connection towards `remote` with a first id. -/
def start (cfg : ClientCfg) (disableAntiReplay : Bool) (seeds : RawSeeds) (random : UInt64)
    (id : UInt32) (remote : IpAddr × UInt16) (ll : SockaddrLl) : Client :=
  let info := ConnInfo.new cfg.ctx.rawMode cfg.ctx.isV6 disableAntiReplay seeds random
  { info := { info with
      myId := id
      raw := { info.raw with sendInfo := { info.raw.sendInfo with
        addrLl := ll, dstIp := remote.1, dstPort := remote.2 } } }
    remote := remote }

/-- The effects of starting a client with a first id. -/
def born (id : UInt32) : List Effect := [.newId id, .incarnation ⟨0, 1⟩]

/-- `key`. -/
def key (c : Client) : JobKey := ⟨0, c.generation⟩

/-- The raw socket context with the port filter in use. -/
def ctx (cfg : ClientCfg) (c : Client) : RawCtx := { cfg.ctx with filterPort := c.filterPort }

/-- The client with other per-connection state. -/
def withInfo (c : Client) (info : ConnInfo) : Client := { c with info := info }

/-- The client with other raw headers. -/
def withRaw (c : Client) (raw : RawInfo) : Client := { c with info := { c.info with raw := raw } }

/-- `go_idle`: end the connection; `id` is the next one. -/
def toIdle (c : Client) (reason : CycleReason) (id : UInt32) : Client :=
  { c with
    cycleReason := reason
    attemptEndpointSelected := false
    setupNotBeforeMs := 0
    state := .idle
    info := { c.info with myId := id }
    generation := c.generation + 1 }

/-- An accepted packet arrived at `now` and made the client ready. -/
def becomeReady (c : Client) (now : UInt64) : Client :=
  { c with
    state := .ready
    info := { c.info with
      lastHbSentTime := 0, lastHbRecvTime := now, lastOppsiteRollerTime := now } }

/-- The first part of an attempt: a new incarnation, and the endpoint the controller chose. -/
def selectEndpoint (cfg : ClientCfg) (c : Client) (id : UInt32)
    (switchTo : Option (IpAddr × UInt16)) : Client :=
  let raw := { c.info.raw with rstReceived := 0, disabled := false }
  let c := { c with
    info := { c.info with raw := raw, antiReplay := c.info.antiReplay.reInit, myId := id }
    failTimeCounter := c.failTimeCounter + 1
    generation := c.generation + 1
    cycleReason := .attemptFailed
    attemptEndpointSelected := true
    setupNotBeforeMs := 0 }
  match switchTo with
  | none => c
  | some dst =>
    { c.withRaw { raw with sendInfo := { raw.sendInfo with dstIp := dst.1, dstPort := dst.2 } } with
      remote := dst, lowerLevelReady := !cfg.lowerLevelAuto }

end Client

end Udp2raw
