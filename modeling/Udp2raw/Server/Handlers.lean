import Udp2raw.Server.State

/-!
# Server handlers

The event handlers of the server as programs over its state. Each read of a slot
aborts where the source indexes out of range or unwraps an empty slot. What one
event obtains from the clock, the random generator, the ciphers and the kernel
is an argument of its handler.
-/

namespace Udp2raw

open Program

/-- What one received packet makes the server read or draw. -/
structure PacketOracle where
  /-- `RawInfo::new` for the packet, and the one inside `ConnInfo::new`. -/
  seeds : RawSeeds
  connSeeds : RawSeeds
  /-- First sequence number of a new connection, before its scaling. -/
  random : UInt64
  /-- `secure_random_u32_nz`. -/
  freshId : UInt32
  createTime : UInt64
  readyTime : UInt64
  iv : UInt64
  padding : UInt64
  roll : UInt32
  /-- `Crypto::encrypt`. -/
  encrypt : Bytes → Option Bytes

/-- Outcome of opening and registering a local socket. -/
inductive SockResult where
  | failed
  | unregistered
  | opened
  deriving DecidableEq, Repr

/-- What handling one decrypted plaintext reads. -/
structure PlainOracle where
  rollerTime : UInt64
  now : UInt64
  sock : SockResult

/-- What one completion makes the server read or draw. -/
structure DoneOracle where
  dropRoll : UInt32
  seqRoll : UInt32
  /-- For the `i`-th plaintext of a batch. -/
  plain : Nat → PlainOracle

namespace Server

variable (cfg : ServerCfg)

/-- `self.conns[slot].as_ref()`. -/
def slot? (slot : Nat) : ServerM (Option ServerConn) := do
  match (← get).conns.slots[slot]? with
  | none => abort .index
  | some c => pure c

/-- `conn`: the connection in a slot that must be live. -/
def conn (slot : Nat) : ServerM ServerConn := do
  match ← slot? slot with
  | none => abort .unwrap
  | some c => pure c

/-- Write a connection back to its slot. -/
def putConn (slot : Nat) (c : ServerConn) (out : List Effect) : ServerM Unit :=
  act (fun s => s.setConn slot c) out

/-- `fill_lower_level`. -/
def fillLowerLevel (raw : RawInfo) : RawInfo :=
  if !cfg.ctx.lowerLevel then raw
  else
    let ll := match cfg.manualLl with
      | some ll => ll
      | none => replySockaddrLl raw.recvInfo.addrLl
    { raw with sendInfo := { raw.sendInfo with addrLl := ll } }

/-- Send headers that answer the last received packet. -/
def answer (raw : RawInfo) : RawInfo :=
  let r := raw.recvInfo
  fillLowerLevel cfg
    { raw with sendInfo := { raw.sendInfo with
        srcIp := r.dstIp, srcPort := r.dstPort, dstPort := r.srcPort, dstIp := r.srcIp } }

/-- `sync_seq`: take the send counters over from the received packet. -/
def syncSeq (raw : RawInfo) : RawInfo :=
  let r := raw.recvInfo
  match cfg.ctx.rawMode with
  | .fakeTcp =>
    { raw with sendInfo := { raw.sendInfo with
        seq := r.ackSeq, ackSeq := r.seq + UInt32.ofNat r.dataLen, tsAck := r.ts } }
  | .icmp => { raw with sendInfo := { raw.sendInfo with icmpSeq := r.icmpSeq } }
  | .udp => raw

/-- The FakeTCP flags no handshake packet may have: SYN set, or ACK clear. -/
def badFlags (r : PacketInfo) : Bool := cfg.ctx.rawMode == .fakeTcp && (r.syn || !r.ack)

/-- `send_heartbeat`. -/
def sendHeartbeat (slot : Nat) : ServerM Unit := do
  let hb := if cfg.hbMode = 0 then [] else cfg.hbBuf
  let c ← conn slot
  let (plain, info) := Conn.prepareSafer c.info typeHeartbeat hb
  putConn slot (c.withInfo info) (handIn (c.key slot) c.info typeHeartbeat hb plain)

/-- The connection in `slot` gives up: idle, with the const id `k`. -/
def refuse (slot : Nat) (k : ServerConn → UInt32) : ServerM Unit := do
  let c ← conn slot
  putConn slot (c.giveUp (k c)) []

/-- `pre_ready`: go ready, or recover an existing connection. `plain` is the handshake. -/
def preReady (now : UInt64) (slot : Nat) (k : UInt32) (plain : Bytes) : ServerM Unit := do
  let s ← get
  match s.byConstId.lookup k with
  | none =>
    if s.readyNum ≥ maxReadyConnNum then refuse slot (·.info.oppsiteConstId)
    else
      let c ← conn slot
      act (fun s => s.goReady slot c k now)
        [.openBare plain, .ready slot c.info.myId c.info.oppsiteId]
      sendHeartbeat cfg slot
  | some ori =>
    if ori = slot then emit [.unexpected]
    else
      let oc ← conn ori
      if oc.state ≠ .ready then
        emit [.unexpected]
        refuse slot fun _ => 0
      else
        let c ← conn slot
        if c.info.lastStateTime < oc.info.lastStateTime then refuse slot fun _ => 0
        else
          act (fun s => s.recover slot ori c oc)
            [.openBare plain, .recovered ori c.info.myId c.info.oppsiteId,
              .incarnation ⟨ori, s.nextGeneration⟩]
          sendHeartbeat cfg ori
          let oc ← conn ori
          putConn ori (oc.withInfo { oc.info with lastHbRecvTime := now }) []

/-- `on_handshake1`: a handshake on a connection that is not ready. -/
def onHandshake1 (o : PacketOracle) (slot : Nat) (plain payload : Bytes) : ServerM Unit := do
  let c ← conn slot
  match Wire.parseHandshake payload with
  | none => emit [.openBare plain]
  | some (tmpOppsiteId, tmpMyId, tmpOppsiteConstId) =>
    let raw := syncSeq cfg c.info.raw
    if tmpMyId = 0 then
      let (raw, sealed) := Conn.sendHandshake cfg.ctx o.encrypt o.iv o.padding o.roll raw
        c.info.myId tmpOppsiteId cfg.constId
      putConn slot (c.withInfo { c.info with raw := raw }) [.openBare plain, .sealBare sealed]
    else if tmpMyId = c.info.myId then
      putConn slot (c.withInfo { c.info with oppsiteId := tmpOppsiteId, raw := raw })
        [.openBare plain]
      preReady cfg o.readyTime slot tmpOppsiteConstId plain
    else emit [.openBare plain]

/-- Whether no ready connection has the address a packet came from. -/
def notReady : Option Nat → ServerM Bool
  | none => pure true
  | some slot => do
    match ← slot? slot with
    | none => pure true
    | some c => pure (decide (c.state ≠ .ready))

/-- A FakeTCP SYN: answered unless the address has a ready connection. -/
def onSyn (o : PacketOracle) (buf : Bytes) (ll : SockaddrLl) (slotOpt : Option Nat) :
    ServerM Unit := do
  if ← notReady slotOpt then
    match ← packet (cfg.ctx.parseRecv (.new cfg.ctx.rawMode cfg.ctx.isV6 o.seeds) buf ll) with
    | (_, none) => pure ()
    | (tmp, some data) =>
      if data.length > maxDataLen then pure ()
      -- the kernel's listening socket answers
      else if cfg.easyFaketcp then pure ()
      else
        let r := tmp.recvInfo
        let tmp := answer cfg tmp
        if data.length = 0 ∧ r.syn = true ∧ r.ack = false then
          emit [.sendEmpty { tmp.sendInfo with
            ackSeq := r.seq + 1, psh := false, syn := true, ack := true, tsAck := r.ts }]
        else pure ()
  else pure ()

/-- The connection an initial handshake creates; `tmp` holds the headers of its packet. -/
def newConn (o : PacketOracle) (s : Server) (tmp : RawInfo) (addr : Addr) : ServerConn :=
  let info := ConnInfo.new cfg.ctx.rawMode cfg.ctx.isV6 cfg.disableAntiReplay o.connSeeds o.random
  { info := { info with
      raw := answer cfg tmp, myId := o.freshId, lastStateTime := o.createTime }
    state := .handshake1, generation := s.nextGeneration, addr := addr, serial := s.created }

/-- A packet from an unknown address: it must be an initial handshake. -/
def onNewAddress (o : PacketOracle) (buf : Bytes) (ll : SockaddrLl) (addr : Addr) :
    ServerM Unit := do
  let s ← get
  if s.conns.live ≥ maxHandshakeConnNum then pure ()
  else
    let tmp := RawInfo.new cfg.ctx.rawMode cfg.ctx.isV6 o.seeds
    let tmp := if cfg.ctx.rawMode = .icmp then
      { tmp with sendInfo := { tmp.sendInfo with dstPort := addr.2, srcPort := addr.2 } } else tmp
    match ← packet (cfg.ctx.parseRecv tmp buf ll) with
    | (_, none) => pure ()
    | (tmp, some data) =>
      if badFlags cfg tmp.recvInfo then pure ()
      else match Conn.openBare cfg.decrypt data with
        | none => pure ()
        | some plain =>
          match (Wire.parseBare plain).bind fun p => (Wire.parseHandshake p).map (p, ·) with
          | none => emit [.openBare plain]
          | some (payload, _, zero, _) =>
            if zero ≠ 0 then emit [.openBare plain]
            else
              let c := newConn cfg o s tmp addr
              let slot := (s.addConn c).2
              act (fun s => (s.addConn c).1) [.newId c.info.myId, .incarnation (c.key slot)]
              onHandshake1 cfg o slot plain payload

/-- A packet from the address of the connection in `slot`. -/
def onKnownAddress (o : PacketOracle) (buf : Bytes) (ll : SockaddrLl) (slot : Nat) :
    ServerM Unit := do
  let c ← conn slot
  match c.state with
  | .handshake1 =>
    let (raw, data) ← packet (cfg.ctx.parseRecv c.info.raw buf ll)
    putConn slot (c.withInfo { c.info with raw := raw }) []
    match data with
    | none => pure ()
    | some data =>
      if badFlags cfg raw.recvInfo then pure ()
      else match Conn.openBare cfg.decrypt data with
        | none => pure ()
        | some plain =>
          match Wire.parseBare plain with
          | none => emit [.openBare plain]
          | some payload => onHandshake1 cfg o slot plain payload
  | .ready =>
    let (raw, data) ← packet (cfg.ctx.parseRecv c.info.raw buf ll)
    match data with
    | none => putConn slot (c.withInfo { c.info with raw := raw }) []
    | some data =>
      putConn slot (c.withInfo { c.info with raw := raw })
        [.submit (.decrypt (c.key slot) data (.fromRecv raw.recvInfo))]
  | .idle => pure ()

/-- `on_raw_packet`. -/
def onRawPacket (o : PacketOracle) (buf : Bytes) (ll : SockaddrLl) : ServerM Unit := do
  match clampPacket cfg.fixGro buf with
  | none => pure ()
  | some buf =>
    match ← packet (cfg.ctx.peek buf) with
    | none => pure ()
    | some peek =>
      let addr := (peek.srcIp, peek.srcPort)
      let slotOpt := (← get).byAddr.lookup addr
      if cfg.ctx.rawMode = .fakeTcp ∧ peek.syn = true then onSyn cfg o buf ll slotOpt
      else match slotOpt with
        | none => onNewAddress cfg o buf ll addr
        | some slot => onKnownAddress cfg o buf ll slot

/-- `valid_ready`: the key names a ready connection of the same generation. -/
def validReady (s : Server) (key : JobKey) : Bool :=
  match s.conns.get? key.slot with
  | some c => c.generation == key.generation && decide (c.state = .ready)
  | none => false

/-- Send the datagram of a known conversation on its socket. -/
def relayData (now : UInt64) (slot : Nat) (conv : UInt32) (data : Bytes) : ServerM Unit := do
  let c ← conn slot
  match c.convs.findDataByConv conv with
  | none => abort .unwrap
  | some sidx =>
    putConn slot { c with convs := c.convs.updateActiveTime conv now } []
    match (← get).socks.slots[sidx]? with
    | none => abort .index
    | some none => pure ()
    | some (some _) => emit [.sockSend sidx data]

/-- A data packet of a ready connection: open the conversation if it is new, then relay. -/
def onData (o : PlainOracle) (slot : Nat) (conv : UInt32) (data : Bytes) : ServerM Unit := do
  let c ← conn slot
  if c.convs.isConvUsed conv then relayData o.now slot conv data
  else if c.convs.len ≥ maxConvNum then pure ()
  else match o.sock with
    | .failed => pure ()
    | .unregistered => act (fun s => s.openSockUnregistered slot c conv) []
    | .opened =>
      act (fun s => s.openSock slot c conv o.now) []
      relayData o.now slot conv data

/-- `on_ready_packet`. -/
def onReadyPacket (o : PlainOracle) (slot : Nat) (ptype : UInt8) (payload : Bytes) :
    ServerM Unit := do
  let c ← conn slot
  let seen := c.withInfo { c.info with lastHbRecvTime := o.now }
  if ptype = typeHeartbeat then putConn slot seen []
  else if ptype ≠ typeData then pure ()
  else match Wire.parseDataPayload payload with
    | none => pure ()
    | some (conv, data) =>
      if cfg.hbMode = 0 then putConn slot seen []
      onData o slot conv data

/-- The loop of `on_done` over the plaintexts of a batch; whether any was accepted. -/
def acceptAll (o : Nat → PlainOracle) (key : JobKey) : List Bytes → ServerM Bool
  | [] => pure false
  | plain :: rest => do
    let c ← conn key.slot
    let (r, info) ← ofExcept
      ((Conn.acceptSaferOffset c.info plain cfg.hbMode (o 0).rollerTime).mapError .window)
    let effect := Effect.check key (c.key key.slot) c.info.myId c.info.oppsiteId plain
    match r with
    | none =>
      putConn key.slot (c.withInfo info) [effect none]
      acceptAll (fun i => o (i + 1)) key rest
    | some (ptype, off) =>
      putConn key.slot (c.withInfo info) [effect (some (ptype, plain.drop off))]
      onReadyPacket cfg (o 0) key.slot ptype (plain.drop off)
      let _ ← acceptAll (fun i => o (i + 1)) key rest
      pure true

/-- `on_done`. -/
def onDone (o : DoneOracle) : Done → ServerM Unit
  | .encrypted _ none => pure ()
  | .encrypted key (some wire) => do
    if validReady (← get) key then
      let c ← conn key.slot
      let raw := Conn.transmitSafer cfg.ctx o.dropRoll o.seqRoll c.info.raw wire
      putConn key.slot (c.withInfo { c.info with raw := raw })
        [.transmit key c.info.myId c.info.oppsiteId wire]
  | .decrypted key plains recv => do
    if validReady (← get) key then
      if ← acceptAll cfg o.plain key plains then
        let c ← conn key.slot
        putConn key.slot (c.withInfo { c.info with raw := cfg.ctx.afterRecv c.info.raw recv })
          [.afterRecv key (c.key key.slot)]

/-- `on_sock_packet`: a datagram from the local socket of a conversation. -/
def onSockPacket (slot : Nat) (conv : UInt32) (data : Bytes) : ServerM Unit := do
  if data.length = maxDataLen + 1 then pure ()
  else match ← slot? slot with
    | none => pure ()
    | some c =>
      if c.state ≠ .ready then emit [.unexpected]
      else
        let (plain, info) := Conn.prepareSaferData c.info conv data
        putConn slot (c.withInfo info)
          (handIn (c.key slot) c.info typeData (Wire.buildDataPayload conv data) plain)

/-- One round of `on_sock_readable`: the datagrams read from one socket. -/
def onSockReadable (sidx : Nat) (datagrams : List Bytes) : ServerM Unit := do
  match (← get).socks.slots[sidx]? with
  | none => abort .index
  | some none => pure ()
  | some (some cs) => forEach (onSockPacket cs.connSlot cs.conv) datagrams

/-- `erase_conn`; aborts where the source indexes a socket or counts below zero. -/
def eraseConn (order : List Nat → List Nat) (slot : Nat) : ServerM Unit := do
  match ← slot? slot with
  | none => pure ()
  | some c =>
    let s ← get
    if c.state = .ready ∧ s.readyNum = 0 then abort .underflow
    else if (c.convs.clear order).1.any fun i => s.socks.slots.length ≤ i then abort .index
    else act (fun s => s.dropConn slot c order) []

/-- Whether `clear_inactive_conns` keeps a connection. -/
def keepsConn (now : UInt64) (c : ServerConn) : Bool :=
  match c.state with
  | .ready => decide (now - c.info.lastHbRecvTime ≤ serverConnTimeoutMs) || !c.convs.isEmpty
  | _ => decide (now - c.info.lastStateTime ≤ serverHandshakeTimeoutMs)

/-- The loop of `clear_inactive_conns`: at most `visits` slots and `quota` connections. -/
def clearLoop (now : UInt64) (order : List Nat → List Nat) : Nat → Nat → ServerM Unit
  | 0, _ => pure ()
  | _, 0 => pure ()
  | visits + 1, quota + 1 => do
    let s ← get
    let slot := if s.clearCursor ≥ s.conns.slots.length then 0 else s.clearCursor
    act (fun s => { s with clearCursor := slot + 1 }) []
    match ← slot? slot with
    | none => clearLoop now order visits (quota + 1)
    | some c =>
      if !keepsConn now c then eraseConn order slot
      clearLoop now order visits quota

/-- `clear_inactive_conns`: inspect a bounded number of connections, once per second. -/
def clearInactiveConns (now : UInt64) (order : List Nat → List Nat) : ServerM Unit := do
  let s ← get
  if now.toNat - s.lastConnClear.toNat ≤ connClearIntervalMs then pure ()
  else
    act (fun s => { s with lastConnClear := now }) []
    let size := s.conns.live
    clearLoop now order s.conns.slots.length (min (size / connClearRatio + connClearMin) size)

/-- The part of `on_timer` for one slot: expire conversations and send a heartbeat. -/
def timerSlot (now : UInt64) (slot : Nat) : ServerM Unit := do
  match ← slot? slot with
  | none => pure ()
  | some c =>
    if c.state ≠ .ready then pure ()
    else
      let s ← get
      if ((c.convs.clearInactive now).1.map Prod.snd).any fun i => s.socks.slots.length ≤ i then
        abort .index
      else
        act (fun s => s.expireConvs slot c now) []
        let c ← conn slot
        if now - c.info.lastHbSentTime < heartbeatIntervalMs then pure ()
        else
          sendHeartbeat cfg slot
          let c ← conn slot
          putConn slot (c.withInfo { c.info with lastHbSentTime := now }) []

/-- The part of `on_timer` behind the collector. -/
def timerSlots (now : UInt64) : ServerM Unit := do
  forEach (timerSlot cfg now) (List.range (← get).conns.slots.length)

/-- `on_timer`. -/
def onTimer (now : UInt64) (order : List Nat → List Nat) : ServerM Unit := do
  clearInactiveConns now order
  timerSlots cfg now

end Server

/-- An event of the server's loop, with what its handler obtains from outside. -/
inductive ServerEvent where
  /-- A packet on the raw socket. -/
  | raw (o : PacketOracle) (buf : Bytes) (ll : SockaddrLl)
  /-- A completion of the pipeline. -/
  | done (o : DoneOracle) (d : Done)
  /-- Datagrams on the local socket with this token. -/
  | sock (sidx : Nat) (datagrams : List Bytes)
  /-- A timer tick; `order` is the iteration order of conversation tables. -/
  | timer (now : UInt64) (order : List Nat → List Nat)

/-- The handler of an event. -/
def ServerEvent.handle (cfg : ServerCfg) : ServerEvent → ServerM Unit
  | .raw o buf ll => Server.onRawPacket cfg o buf ll
  | .done o d => Server.onDone cfg o d
  | .sock sidx datagrams => Server.onSockReadable sidx datagrams
  | .timer now order => Server.onTimer cfg now order

/-- The completion an event brings. -/
def ServerEvent.cause : ServerEvent → Option Done
  | .done _ d => some d
  | _ => none

/-- The poll set only reports tokens that were registered, so a socket token never exceeds
the socket vector. -/
def ServerEvent.Possible (s : Server) : ServerEvent → Prop
  | .sock sidx _ => sidx < s.socks.slots.length
  | _ => True

instance (s : Server) : (ev : ServerEvent) → Decidable (ev.Possible s)
  | .sock sidx _ => inferInstanceAs (Decidable (sidx < s.socks.slots.length))
  | .raw .. | .done .. | .timer .. => isTrue trivial

end Udp2raw
