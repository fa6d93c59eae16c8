import Udp2raw.Packet.Ip

/-!
# Raw connection state

`PacketInfo` holds the headers of one direction, `RawInfo` both directions of a
raw connection. Arithmetic on sequence numbers, acknowledgement counters and the
RST count wraps at its machine width. What the kernel and the random generator
supply is an argument.
-/

namespace Udp2raw

/-- `MAX_DATA_LEN`: the largest tunnel payload in either direction. -/
def maxDataLen : Nat := 1800

/-- `RECEIVE_WINDOW_LOWER_BOUND`. -/
def receiveWindowLowerBound : UInt32 := 40960

/-- `WSCALE`. -/
def wscale : UInt32 := 5

/-- The three ways a tunnel packet is disguised. -/
inductive RawMode where
  | fakeTcp
  | udp
  | icmp
  deriving DecidableEq, Repr

/-- `libc::sockaddr_ll`, the link-layer address of `--lower-level`. -/
structure SockaddrLl where
  family : UInt16 := 0
  protocol : UInt16 := 0
  ifindex : Int32 := 0
  hatype : UInt16 := 0
  pkttype : UInt8 := 0
  halen : UInt8 := 0
  addr : Vector UInt8 8 := Vector.replicate 8 0
  deriving DecidableEq, Repr

/-- `reply_sockaddr_ll`: reply to the link-layer address a packet came from. -/
def replySockaddrLl (recv : SockaddrLl) : SockaddrLl :=
  { family := recv.family, ifindex := recv.ifindex, protocol := recv.protocol
    halen := recv.halen, addr := recv.addr }

/-- The headers of one direction of a raw connection. -/
structure PacketInfo where
  srcIp : IpAddr
  dstIp : IpAddr
  srcPort : UInt16 := 0
  dstPort : UInt16 := 0
  syn : Bool := false
  ack : Bool := false
  psh : Bool := false
  rst : Bool := false
  seq : UInt32 := 0
  ackSeq : UInt32 := 0
  ackSeqCounter : UInt32 := 0
  ts : UInt32 := 0
  tsAck : UInt32 := 0
  hasTs : Bool := false
  icmpSeq : UInt16 := 0
  dataLen : Nat := 0
  addrLl : SockaddrLl := {}
  deriving DecidableEq, Repr

/-- The unspecified address of a family. -/
def IpAddr.unspecified (isV6 : Bool) : IpAddr :=
  if isV6 then .v6 (Vector.replicate 16 0) else .v4 (Vector.replicate 4 0)

/-- `PacketInfo::new`; FakeTCP starts from two random numbers with ACK set. -/
def PacketInfo.new (rawMode : RawMode) (isV6 : Bool) (ackSeq seq : UInt32) : PacketInfo :=
  let p : PacketInfo := { srcIp := .unspecified isV6, dstIp := .unspecified isV6 }
  if rawMode = .fakeTcp then { p with ackSeq := ackSeq, seq := seq, ack := true } else p

/-- Both directions of a raw connection. -/
structure RawInfo where
  sendInfo : PacketInfo
  recvInfo : PacketInfo
  reservedSendSeq : UInt32 := 0
  rstReceived : Int32 := 0
  disabled : Bool := false
  deriving DecidableEq, Repr

/-- The random numbers one `RawInfo::new` draws. -/
structure RawSeeds where
  sendAckSeq : UInt32
  sendSeq : UInt32
  recvAckSeq : UInt32
  recvSeq : UInt32
  deriving DecidableEq, Repr

/-- `RawInfo::new`. -/
def RawInfo.new (rawMode : RawMode) (isV6 : Bool) (r : RawSeeds) : RawInfo :=
  { sendInfo := .new rawMode isV6 r.sendAckSeq r.sendSeq
    recvInfo := .new rawMode isV6 r.recvAckSeq r.recvSeq }

/-- Snapshot of the received headers that `after_recv` consumes later. -/
structure RecvMeta where
  syn : Bool := false
  ack : Bool := false
  seq : UInt32 := 0
  dataLen : Nat := 0
  hasTs : Bool := false
  ts : UInt32 := 0
  icmpSeq : UInt16 := 0
  deriving DecidableEq, Repr

/-- `RecvMeta::from_recv`. -/
def RecvMeta.fromRecv (r : PacketInfo) : RecvMeta :=
  { syn := r.syn, ack := r.ack, seq := r.seq, dataLen := r.dataLen
    hasTs := r.hasTs, ts := r.ts, icmpSeq := r.icmpSeq }

/-- The settings of a raw socket context that parsing and sending read. -/
structure RawCtx where
  rawMode : RawMode
  isV6 : Bool
  isClient : Bool
  seqMode : Int := 3
  filterPort : UInt16 := 0
  /-- Server: the listening address when it is not unspecified. -/
  bindAddr : Option IpAddr := none
  lowerLevel : Bool := false
  randomDrop : UInt32 := 0
  maxRstAllowed : Int32 := -1
  deriving DecidableEq, Repr

/-- `larger_than_u32`: serial-number comparison. -/
def largerThanU32 (a b : UInt32) : Bool := 0 < (a - b).toInt32

/-- `larger_than_u16`. -/
def largerThanU16 (a b : UInt16) : Bool := 0 < (a - b).toInt16

/-- `send_raw`: whether the payload is queued, and the send headers afterwards. `roll` is
the random number of `--random-drop`. The layout of the queued bytes is not part of this
definition. -/
def RawCtx.sendRaw (ctx : RawCtx) (roll : UInt32) (raw : RawInfo) (payload : List UInt8) :
    RawInfo × Bool :=
  if ctx.randomDrop ≠ 0 ∧ roll % 10000 < ctx.randomDrop then (raw, false)
  else if raw.disabled then (raw, false)
  else match ctx.rawMode with
    | .fakeTcp => ({ raw with sendInfo := { raw.sendInfo with dataLen := payload.length } }, true)
    -- `build_udp` refuses a datagram whose length field would overflow
    | .udp => (raw, decide (8 + payload.length ≤ 65535))
    | .icmp => (raw, true)

/-- The mode 3 and 4 part of `after_send`: an almost real seq/ack procedure. -/
def RawCtx.simulateAck (ctx : RawCtx) (raw : RawInfo) (dataLen : UInt32) : RawInfo :=
  let window := if ctx.seqMode = 3 then receiveWindowLowerBound <<< wscale
    else receiveWindowLowerBound
  let seq := raw.sendInfo.seq + dataLen
  let peer := raw.recvInfo.ackSeq
  let seq := if largerThanU32 (seq + UInt32.ofNat maxDataLen) (peer + window) then peer else seq
  let counter := raw.recvInfo.ackSeqCounter
  -- three equal acknowledgements simulate a fast retransmit
  let (seq, counter) := if counter ≥ 3 then (peer, 0) else (seq, counter)
  let seq := if largerThanU32 peer seq then peer else seq
  { raw with
    sendInfo := { raw.sendInfo with seq := seq }
    recvInfo := { raw.recvInfo with ackSeqCounter := counter } }

/-- `after_send`: advance the send headers per raw mode and `--seq-mode`. -/
def RawCtx.afterSend (ctx : RawCtx) (roll : UInt32) (raw : RawInfo) : RawInfo :=
  match ctx.rawMode with
  | .fakeTcp =>
    let dataLen := UInt32.ofNat raw.sendInfo.dataLen
    let advanced :=
      { raw with sendInfo := { raw.sendInfo with seq := raw.sendInfo.seq + dataLen } }
    if !raw.sendInfo.syn && raw.sendInfo.ack && dataLen != 0 then
      if ctx.seqMode = 0 then raw
      else if ctx.seqMode = 1 then advanced
      else if ctx.seqMode = 2 then (if roll % 5 = 3 then advanced else raw)
      else ctx.simulateAck raw dataLen
    else raw
  | .icmp =>
    if ctx.isClient then
      { raw with sendInfo := { raw.sendInfo with icmpSeq := raw.sendInfo.icmpSeq + 1 } }
    else raw
  | .udp => raw

/-- The FakeTCP part of `after_recv`. -/
def RawCtx.afterRecvTcp (ctx : RawCtx) (raw : RawInfo) (m : RecvMeta) : RawInfo :=
  let send := if m.hasTs then { raw.sendInfo with tsAck := m.ts } else raw.sendInfo
  let stop := m.seq + UInt32.ofNat m.dataLen
  let acked :=
    if ctx.seqMode ≤ 2 then largerThanU32 stop send.ackSeq else m.seq == send.ackSeq
  if !m.syn && m.ack && m.dataLen != 0 && acked then
    { raw with sendInfo := { send with ackSeq := stop } }
  else { raw with sendInfo := send }

/-- `after_recv`: acknowledge a received packet from the snapshot of its headers. -/
def RawCtx.afterRecv (ctx : RawCtx) (raw : RawInfo) (m : RecvMeta) : RawInfo :=
  match ctx.rawMode with
  | .fakeTcp => ctx.afterRecvTcp raw m
  | .icmp =>
    if !ctx.isClient && largerThanU16 m.icmpSeq raw.sendInfo.icmpSeq then
      { raw with sendInfo := { raw.sendInfo with icmpSeq := m.icmpSeq } }
    else raw
  | .udp => raw

end Udp2raw
