import Udp2raw.Client.State

/-!
# Client handlers

The event handlers of the client as programs over its state. What one event
obtains from the clock, the random generator, the ciphers, the kernel and the
endpoint controller is an argument of its handler. `onTimer` is also called from
inside the handlers of packets and of completions.
-/

namespace Udp2raw

open Program

/-- What one call of `on_timer` reads or draws. -/
structure TimerOracle where
  now : UInt64
  /-- The ids drawn by `go_idle` for a disabled connection, by the selection of an endpoint
  and by a later `go_idle`. -/
  disabledId : UInt32
  selectId : UInt32
  endId : UInt32
  /-- `endpoint.on_cycle`. -/
  switchTo : Option (IpAddr × UInt16) := none
  /-- `endpoint_resources_ready`. -/
  resourcesReady : Bool := true
  /-- The link-layer address `find_lower_level_info` leads to. -/
  lowerLevel : Option SockaddrLl := none
  /-- `get_src_addr_dev`. -/
  srcAddr : Option IpAddr := none
  /-- `bind_new_random_port`. -/
  newPort : Option UInt16 := none
  filterOk : Bool := true
  /-- `bind_to_device` on the easy-faketcp socket. -/
  bindDeviceOk : Bool := true
  /-- `preferred_round_expired` and `probation_rollback_due`. -/
  roundExpired : Bool := false
  probationDue : Bool := false
  synSeq : UInt32 := 0
  synAckSeq : UInt32 := 0
  iv : UInt64 := 0
  padding : UInt64 := 0
  ackRoll : UInt32 := 0
  roll : UInt32 := 0
  /-- `Crypto::encrypt`. -/
  encrypt : Bytes → Option Bytes

/-- What one received packet makes the client read. -/
structure ClientPacketOracle where
  now : UInt64
  timer : TimerOracle

/-- What handling one decrypted plaintext reads. -/
structure ClientPlainOracle where
  rollerTime : UInt64
  activityNow : UInt64
  now : UInt64
  convTime : UInt64
  timer : TimerOracle

/-- What one completion makes the client read or draw. -/
structure ClientDoneOracle where
  dropRoll : UInt32
  seqRoll : UInt32
  /-- For the `i`-th plaintext of a batch. -/
  plain : Nat → ClientPlainOracle

/-- `u64::saturating_add`. -/
def saturatingAdd (a b : UInt64) : UInt64 := if a + b < a then -1 else a + b

/-- `raw_disabled_cycle_reason`. -/
def rawDisabledCycleReason (state : ClientState) : CycleReason :=
  if state = .ready then .sessionLost else .attemptFailed

/-- Whether the client is between idle and ready. -/
def ClientState.handshaking : ClientState → Bool
  | .tcpHandshake | .tcpHandshakeDummy | .handshake1 | .handshake2 => true
  | .idle | .ready => false

namespace Client

variable (cfg : ClientCfg)

/-- `go_idle`. -/
def goIdle (reason : CycleReason) (id : UInt32) : ClientM Unit := do
  let c ← get
  act (·.toIdle reason id)
    [.endpoint .onSessionEnded, .newId id, .incarnation (c.toIdle reason id).key]

/-- The selection of an endpoint at the start of an attempt. -/
def select (o : TimerOracle) : ClientM Unit := do
  let c ← get
  if c.attemptEndpointSelected then pure ()
  else
    act (fun c => c.selectEndpoint cfg o.selectId o.switchTo)
      [.newId o.selectId, .incarnation (c.selectEndpoint cfg o.selectId o.switchTo).key,
        .endpoint (.onCycle o.now c.cycleReason),
        .selected (c.selectEndpoint cfg o.selectId o.switchTo).remote]

/-- The attempt waits: its setup is tried again later. -/
def postpone (now : UInt64) : ClientM Bool := do
  act (fun c => { c with setupNotBeforeMs := saturatingAdd now kernelResourceRetryMs }) []
  pure false

/-- The attempt cannot go on: the process will exit. -/
def giveUp : ClientM Bool := do
  act (fun c => { c with exiting := true }) []
  pure false

/-- `refresh_lower_level_for_current`. -/
def refreshLowerLevel (o : TimerOracle) : ClientM Bool := do
  let c ← get
  if cfg.lowerLevelAuto = false ∨ c.lowerLevelReady = true then pure true
  else match c.remote.1, o.lowerLevel with
    | .v4 _, some ll =>
      act (fun c => { c.withRaw { c.info.raw with
          sendInfo := { c.info.raw.sendInfo with addrLl := ll } } with lowerLevelReady := true }) []
      pure true
    | _, _ => pure false

/-- The headers and the filter of an attempt that leaves from `srcIp` and `port`. -/
def bindSource (c : Client) (srcIp : IpAddr) (port : UInt16) : Client :=
  let send := { c.info.raw.sendInfo with srcIp := srcIp, srcPort := port }
  let send := if cfg.ctx.rawMode = .icmp then { send with dstPort := port } else send
  { c.withRaw { c.info.raw with sendInfo := send } with
    filterPort := if cfg.ctx.rawMode = .icmp then c.filterPort else port }

/-- The state in which an attempt starts. -/
def firstState : ClientState :=
  match cfg.ctx.rawMode with
  | .icmp | .udp => .handshake1
  | .fakeTcp => if cfg.easyFaketcp then .tcpHandshakeDummy else .tcpHandshake

/-- Whether an attempt has a kernel socket to connect: in easy-faketcp mode, unless the source
port is given. -/
def hasSocket : Bool := firstState cfg == .tcpHandshakeDummy && cfg.sourcePort.isNone

/-- The call of `connect` in easy-faketcp mode. -/
def connectCall (c : Client) : List Effect := if hasSocket cfg then [.connect c.remote] else []

/-- The attempt starts. -/
def begin (c : Client) (now : UInt64) : Client :=
  { c with
    state := firstState cfg
    attemptEndpointSelected := false
    info := { c.info with lastStateTime := now, lastHbSentTime := 0 } }

/-- The idle part of `on_timer` behind the selection: set the attempt up and start it;
whether `on_timer` goes on. -/
def setUp (o : TimerOracle) : ClientM Bool := do
  let c ← get
  if o.now < c.setupNotBeforeMs then pure false
  else if !o.resourcesReady then postpone o.now
  else if !(← refreshLowerLevel cfg o) then postpone o.now
  else match cfg.sourceIp.or o.srcAddr with
    | none => postpone o.now
    | some srcIp =>
      match cfg.sourcePort.or o.newPort with
      | none =>
        act (fun c => c.withRaw { c.info.raw with
          sendInfo := { c.info.raw.sendInfo with srcIp := srcIp } }) []
        giveUp
      | some port =>
        act (fun c => c.bindSource cfg srcIp port) []
        if !o.filterOk then giveUp
        else if hasSocket cfg && !o.bindDeviceOk then postpone o.now
        else
          let c ← get
          act (fun c => c.begin cfg o.now) (c.connectCall cfg)
          pure true

/-- The TCP SYN of an attempt; a repeated one keeps its numbers. -/
def synHeaders (o : TimerOracle) (first : Bool) (raw : RawInfo) : RawInfo :=
  if first then
    { raw with sendInfo := { raw.sendInfo with
        psh := false, syn := true, ack := false, tsAck := 0
        seq := o.synSeq, ackSeq := o.synAckSeq } }
  else raw

/-- The FakeTCP headers of the first handshake packet. -/
def helloHeaders (first : Bool) (raw : RawInfo) : RawInfo :=
  let r := raw.recvInfo
  let seq := raw.sendInfo.seq + 1
  let raw := if first then
    { raw with
      sendInfo := { raw.sendInfo with seq := seq, ackSeq := r.seq + 1, tsAck := r.ts }
      reservedSendSeq := seq }
    else raw
  { raw with sendInfo := { raw.sendInfo with
      seq := raw.reservedSendSeq, psh := false, syn := false, ack := true } }

/-- The FakeTCP headers of the second handshake packet. -/
def confirmHeaders (first : Bool) (raw : RawInfo) : RawInfo :=
  let r := raw.recvInfo
  let raw := if first then
    { raw with
      sendInfo := { raw.sendInfo with ackSeq := r.seq + UInt32.ofNat r.dataLen, tsAck := r.ts }
      reservedSendSeq := raw.sendInfo.seq }
    else raw
  { raw with sendInfo := { raw.sendInfo with seq := raw.reservedSendSeq } }

/-- The send counters after a handshake packet. -/
def afterHandshake (raw : RawInfo) : RawInfo :=
  match cfg.ctx.rawMode with
  | .fakeTcp =>
    { raw with sendInfo := { raw.sendInfo with
        seq := raw.sendInfo.seq + UInt32.ofNat raw.sendInfo.dataLen } }
  | .icmp =>
    { raw with sendInfo := { raw.sendInfo with icmpSeq := raw.sendInfo.icmpSeq + 1 } }
  | .udp => raw

/-- Send a handshake packet with these headers and ids, and set the retry timer. -/
def sendHandshake (o : TimerOracle) (raw : RawInfo) (id2 : UInt32) (out : List Effect) :
    ClientM Unit := do
  let c ← get
  let (sent, sealed) := Conn.sendHandshake (c.ctx cfg) o.encrypt o.iv o.padding o.roll raw
    c.info.myId id2 cfg.constId
  emit (out ++ [.sealBare sealed])
  act (fun c => { c with info := { c.info with
      raw := afterHandshake cfg sent, lastHbSentTime := o.now } })
    (if (o.encrypt sealed).isSome then [.sendBare raw.sendInfo] else [])

/-- Whether the retry timer is due. -/
def retryDue (c : Client) (now : UInt64) : Bool :=
  decide (now - c.info.lastHbSentTime > clientRetryIntervalMs)

/-- The `TcpHandshake` part of `on_timer` once the attempt has not timed out. -/
def retrySyn (o : TimerOracle) : ClientM Unit := do
  let c ← get
  if c.retryDue o.now then
    let raw := synHeaders o (c.info.lastHbSentTime == 0) c.info.raw
    act (fun c => { c with info := { c.info with
        raw := ((c.ctx cfg).sendRaw o.ackRoll raw []).1, lastHbSentTime := o.now } })
      [.sendEmpty raw.sendInfo]

/-- The `Handshake1` part: send the client's id. -/
def retryHello (o : TimerOracle) : ClientM Unit := do
  let c ← get
  if c.retryDue o.now then
    if cfg.ctx.rawMode = .fakeTcp then
      let raw := helloHeaders (c.info.lastHbSentTime == 0) c.info.raw
      if cfg.easyFaketcp then sendHandshake cfg o raw 0 []
      else sendHandshake cfg o ((c.ctx cfg).sendRaw o.ackRoll raw []).1 0 [.sendEmpty raw.sendInfo]
    else sendHandshake cfg o c.info.raw 0 []

/-- The `Handshake2` part: send both ids. -/
def retryConfirm (o : TimerOracle) : ClientM Unit := do
  let c ← get
  if c.retryDue o.now then
    if cfg.ctx.rawMode = .fakeTcp then
      sendHandshake cfg o (confirmHeaders (c.info.lastHbSentTime == 0) c.info.raw)
        c.info.oppsiteId []
    else sendHandshake cfg o c.info.raw c.info.oppsiteId []

/-- The heartbeat of a ready connection. -/
def sendHeartbeat (now : UInt64) : ClientM Unit := do
  let hb := if cfg.hbMode = 0 then [] else cfg.hbBuf
  let c ← get
  let (plain, info) := Conn.prepareSafer c.info typeHeartbeat hb
  act (·.withInfo { info with lastHbSentTime := now }) (handIn c.key c.info typeHeartbeat hb plain)

/-- The `Ready` part of `on_timer`. -/
def timerReady (o : TimerOracle) : ClientM Unit := do
  act (fun c => { c with failTimeCounter := 0 }) []
  let c ← get
  if o.probationDue then goIdle .probationExpired o.endId
  else if o.now - c.info.lastHbRecvTime > clientConnTimeoutMs then goIdle .sessionLost o.endId
  else if o.now - c.info.lastOppsiteRollerTime > clientConnUplinkTimeoutMs then
    goIdle .sessionLost o.endId
  else if o.now - c.info.lastHbSentTime < heartbeatIntervalMs then pure ()
  else sendHeartbeat cfg o.now

/-- Give a handshake up after its timeout, or go on with `retry`. -/
def orTimeout (o : TimerOracle) (retry : ClientM Unit) : ClientM Unit := do
  let c ← get
  if o.now - c.info.lastStateTime > clientHandshakeTimeoutMs then goIdle .attemptFailed o.endId
  else retry

/-- The part of `on_timer` for the state the client is in. -/
def timerState (o : TimerOracle) : ClientM Unit := do
  match (← get).state with
  | .idle => pure ()
  | .tcpHandshake => orTimeout o (retrySyn cfg o)
  | .tcpHandshakeDummy => orTimeout o (pure ())
  | .handshake1 => orTimeout o (retryHello cfg o)
  | .handshake2 => orTimeout o (retryConfirm cfg o)
  | .ready => timerReady cfg o

/-- The bookkeeping at the start of `on_timer`; installing routes and rules is not part of the
state. -/
def maintain (c : Client) (now : UInt64) : Client :=
  { c with
    lastKernelRetryMs :=
      if now.toNat - c.lastKernelRetryMs.toNat ≥ kernelResourceRetryMs.toNat then now
      else c.lastKernelRetryMs
    convs := (c.convs.clearInactive now).2 }

/-- The idle part of `on_timer`; whether `on_timer` goes on. -/
def attempt (o : TimerOracle) : ClientM Bool := do
  if (← get).state = .idle then
    select cfg o
    setUp cfg o
  else pure true

/-- A connection the peer disabled ends before anything else. -/
def endDisabled (o : TimerOracle) : ClientM Unit := do
  let c ← get
  if c.info.raw.disabled then goIdle (rawDisabledCycleReason c.state) o.disabledId

/-- `on_timer`. -/
def onTimer (o : TimerOracle) : ClientM Unit := do
  act (·.maintain o.now) []
  endDisabled o
  if ← attempt cfg o then
    if (← get).state.handshaking && o.roundExpired then goIdle .attemptFailed o.endId
    else timerState cfg o

/-- The conversation of a local peer, opened if there is room. -/
def convFor (now : UInt64) (newConv : UInt32) (peer : IpAddr × UInt16) :
    ClientM (Option UInt32) := do
  let c ← get
  match c.convs.findConvByData peer with
  | some conv => pure (some conv)
  | none =>
    if c.convs.len ≥ maxConvNum then pure none
    else
      act (fun c => { c with convs := c.convs.insert newConv peer now }) []
      pure (some newConv)

/-- `on_udp_packet`: a datagram from a local peer. `newConv` is the id `new_conv` draws. -/
def onUdpPacket (now : UInt64) (newConv : UInt32) (data : Bytes) (peer : IpAddr × UInt16) :
    ClientM Unit := do
  if data.length = maxDataLen + 1 then pure ()
  else match ← convFor now newConv peer with
    | none => pure ()
    | some conv =>
      act (fun c => { c with convs := c.convs.updateActiveTime conv now }) []
      let c ← get
      if c.state = .ready then
        let (plain, info) := Conn.prepareSaferData c.info conv data
        act (·.withInfo info)
          (handIn c.key c.info typeData (Wire.buildDataPayload conv data) plain)

/-- Parse a packet into the headers of the connection. -/
def receive (buf : Bytes) (ll : SockaddrLl) : ClientM (Option Bytes) := do
  let c ← get
  let (raw, data) ← packet ((c.ctx cfg).parseRecv c.info.raw buf ll)
  act (·.withRaw raw) []
  pure data

/-- A handshake state is entered: the retry timer is reset and `on_timer` runs. -/
def enter (o : ClientPacketOracle) (f : Client → Client) (out : List Effect) : ClientM Unit := do
  act (fun c =>
    let c := f c
    { c with info := { c.info with lastStateTime := o.now, lastHbSentTime := 0 } }) out
  onTimer cfg o.timer

/-- A packet in the states that wait for a TCP SYN-ACK. -/
def onTcpHandshake (o : ClientPacketOracle) (dst : IpAddr × UInt16) (data : Bytes) :
    ClientM Unit := do
  let c ← get
  let r := c.info.raw.recvInfo
  let send := c.info.raw.sendInfo
  if data.length > maxDataLen then pure ()
  else if (r.srcIp, r.srcPort) ≠ dst then pure ()
  else if data.length = 0 ∧ r.syn = true ∧ r.ack = true then
    if c.state = .tcpHandshake then
      if r.ackSeq ≠ send.seq + 1 then pure ()
      else enter cfg o (fun c => { c with state := .handshake1 }) []
    else
      enter cfg o (fun c => { c.withRaw { c.info.raw with
        sendInfo := { send with seq := r.ackSeq - 1 } } with state := .handshake1 }) []
  else pure ()

/-- A packet in the state that waits for the server's id. -/
def onHandshake1 (o : ClientPacketOracle) (dst : IpAddr × UInt16) (data : Bytes) :
    ClientM Unit := do
  let c ← get
  let r := c.info.raw.recvInfo
  let send := c.info.raw.sendInfo
  if cfg.ctx.rawMode == .fakeTcp && (r.syn || !r.ack) then pure ()
  else match Conn.openBare cfg.decrypt data with
    | none => pure ()
    | some plain =>
      match Wire.parseBare plain with
      | none => emit [.openBare plain]
      | some payload =>
        if (r.srcIp, r.srcPort) ≠ dst then emit [.openBare plain]
        else match Wire.parseHandshake payload with
          | none => emit [.openBare plain]
          | some (tmpOppsiteId, tmpMyId, _) =>
            if tmpMyId ≠ c.info.myId then emit [.openBare plain]
            else if cfg.ctx.rawMode = .fakeTcp ∧ (r.ackSeq ≠ send.seq ∨ r.seq ≠ send.ackSeq) then
              emit [.openBare plain]
            else
              enter cfg o (fun c => { c with
                info := { c.info with oppsiteId := tmpOppsiteId }, state := .handshake2 })
                [.openBare plain, .met c.info.myId tmpOppsiteId]

/-- A packet of a connection whose server is known goes to the pipeline. -/
def onSession (dst : IpAddr × UInt16) (data : Bytes) : ClientM Unit := do
  let c ← get
  let r := c.info.raw.recvInfo
  if (r.srcIp, r.srcPort) ≠ dst then emit [.unexpected]
  else emit [.submit (.decrypt c.key data (.fromRecv r))]

/-- `on_raw_packet`. -/
def onRawPacket (o : ClientPacketOracle) (buf : Bytes) (ll : SockaddrLl) : ClientM Unit := do
  match clampPacket cfg.fixGro buf with
  | none => pure ()
  | some buf =>
    let c ← get
    let dst := (c.info.raw.sendInfo.dstIp, c.info.raw.sendInfo.dstPort)
    if c.state = .idle then pure ()
    else match ← receive cfg buf ll with
      | none => pure ()
      | some data =>
        match c.state with
        | .idle => pure ()
        | .tcpHandshake | .tcpHandshakeDummy => onTcpHandshake cfg o dst data
        | .handshake1 => onHandshake1 cfg o dst data
        | .handshake2 | .ready => onSession dst data

/-- The first accepted packet of a connection makes the client ready. -/
def authenticate (o : ClientPlainOracle) (plain : Bytes) : ClientM Unit := do
  if (← get).state = .handshake2 then
    act (·.becomeReady o.activityNow) [.authenticated plain, .endpoint .onAuthenticated]
    onTimer cfg o.timer

/-- The server was heard at `now`. -/
def heard (now : UInt64) (out : List Effect) : ClientM Unit :=
  act (fun c => c.withInfo { c.info with lastHbRecvTime := now }) out

/-- The datagram of a known conversation goes to its peer. -/
def relayData (o : ClientPlainOracle) (conv : UInt32) (data : Bytes) : ClientM Unit := do
  let c ← get
  if !c.convs.isConvUsed conv then pure ()
  else
    act (fun c => { c with convs := c.convs.updateActiveTime conv o.convTime })
      [.endpoint (.onAuthenticatedActivity o.activityNow true)]
    match (← get).convs.findDataByConv conv with
    | none => abort .unwrap
    | some peer => emit [.udpSend peer data]

/-- `on_safer_packet`; `plain` is what was accepted with this type and payload. -/
def onSaferPacket (o : ClientPlainOracle) (plain : Bytes) (ptype : UInt8) (payload : Bytes) :
    ClientM Unit := do
  authenticate cfg o plain
  if ptype = typeHeartbeat then
    heard o.now [.endpoint (.onAuthenticatedActivity o.activityNow false)]
  else if ptype = typeData then
    match Wire.parseDataPayload payload with
    | none => pure ()
    | some (conv, data) =>
      -- without heartbeats data packets count as such
      if cfg.hbMode = 0 then heard o.now []
      relayData o conv data

/-- The loop of `on_done` over the plaintexts of a batch; whether any was accepted. -/
def acceptAll (o : Nat → ClientPlainOracle) (key : JobKey) : List Bytes → ClientM Bool
  | [] => pure false
  | plain :: rest => do
    let c ← get
    let (r, info) ← ofExcept
      ((Conn.acceptSaferOffset c.info plain cfg.hbMode (o 0).rollerTime).mapError .window)
    let effect := Effect.check key c.key c.info.myId c.info.oppsiteId plain
    match r with
    | none =>
      act (·.withInfo info) [effect none]
      acceptAll (fun i => o (i + 1)) key rest
    | some (ptype, off) =>
      act (·.withInfo info) [effect (some (ptype, plain.drop off))]
      onSaferPacket cfg (o 0) plain ptype (plain.drop off)
      let _ ← acceptAll (fun i => o (i + 1)) key rest
      pure true

/-- `on_done`. -/
def onDone (o : ClientDoneOracle) : Done → ClientM Unit
  | .encrypted _ none => pure ()
  | .encrypted key (some wire) => do
    let c ← get
    if key.generation = c.generation ∧ c.state = .ready then
      let raw := Conn.transmitSafer (c.ctx cfg) o.dropRoll o.seqRoll c.info.raw wire
      act (·.withRaw raw) [.transmit key c.info.myId c.info.oppsiteId wire]
  | .decrypted key plains recv => do
    let c ← get
    if key.generation = c.generation ∧ (c.state = .handshake2 ∨ c.state = .ready) then
      if ← acceptAll cfg o.plain key plains then
        let c ← get
        act (·.withRaw ((c.ctx cfg).afterRecv c.info.raw recv)) [.afterRecv key c.key]

end Client

/-- A command the FIFO brings; a promotion concerns the endpoint controller only. -/
inductive FifoCommand where
  | reconnect
  | rollback (authorized : Bool)
  | promote
  deriving DecidableEq, Repr

/-- An event of the client's loop, with what its handler obtains from outside. -/
inductive ClientEvent where
  /-- A packet on the raw socket. -/
  | raw (o : ClientPacketOracle) (buf : Bytes) (ll : SockaddrLl)
  /-- A completion of the pipeline. -/
  | done (o : ClientDoneOracle) (d : Done)
  /-- A datagram from a local peer. -/
  | udp (now : UInt64) (newConv : UInt32) (data : Bytes) (peer : IpAddr × UInt16)
  /-- A timer tick. -/
  | timer (o : TimerOracle)
  /-- A command of the operator. -/
  | fifo (command : FifoCommand) (id : UInt32)

/-- The completion an event brings. -/
def ClientEvent.cause : ClientEvent → Option Done
  | .done _ d => some d
  | _ => none

/-- `on_fifo`, behind the parsing of the command. -/
def Client.onFifo (id : UInt32) : FifoCommand → ClientM Unit
  | .reconnect => do
    emit [.endpoint .requestRefresh]
    Client.goIdle .forced id
  | .rollback true => Client.goIdle .operatorRollback id
  | .rollback false | .promote => pure ()

/-- The handler of an event. -/
def ClientEvent.handle (cfg : ClientCfg) : ClientEvent → ClientM Unit
  | .raw o buf ll => Client.onRawPacket cfg o buf ll
  | .done o d => Client.onDone cfg o d
  | .udp now newConv data peer => Client.onUdpPacket now newConv data peer
  | .timer o => Client.onTimer cfg o
  | .fifo command id => Client.onFifo id command

end Udp2raw
