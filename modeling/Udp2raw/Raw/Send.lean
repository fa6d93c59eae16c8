import Udp2raw.Packet.Build
import Udp2raw.Raw.Receive

/-!
# Sending raw packets

`send_raw` wraps a payload in a transport and an IP header. What it queues is
accepted by the peer's `parse_recv`, which returns the payload and records the
headers that were sent; all checksums verify.
-/

namespace Udp2raw

open Checked

/-- `RECEIVE_WINDOW_RANDOM_RANGE`. -/
def receiveWindowRandomRange : UInt32 := 512

/-- What `send_raw` takes from outside the connection: the random numbers of `--random-drop` and
of the window, the clock, and the TTL and IP id counter of the context. -/
structure SendInputs where
  roll : UInt32
  windowRoll : UInt32
  now : UInt64
  ttl : UInt8
  ipId : UInt16
  deriving DecidableEq, Repr

/-- The TCP header fields of `send_raw`. -/
def tcpParams (o : SendInputs) (s : PacketInfo) : TcpSendParams :=
  { srcPort := s.srcPort, dstPort := s.dstPort, seq := s.seq, ackSeq := s.ackSeq
    syn := s.syn, ack := s.ack, psh := s.psh
    window := (receiveWindowLowerBound + o.windowRoll % receiveWindowRandomRange).toUInt16
    ts := o.now.toUInt32, tsAck := s.tsAck }

/-- The transport part of `send_raw`: protocol number and segment, or nothing for a datagram that
is too long. -/
def RawCtx.buildSegment (ctx : RawCtx) (o : SendInputs) (s : PacketInfo) (payload : Bytes) :
    Except Panic (Option (UInt8 × Bytes)) :=
  match ctx.rawMode with
  | .fakeTcp => do
    return some (ipprotoTcp, ← buildTcp s.srcIp s.dstIp (tcpParams o s) payload)
  | .udp => do
    return (← buildUdp s.srcIp s.dstIp s.srcPort s.dstPort payload).map fun seg => (ipprotoUdp, seg)
  | .icmp => do
    return some (icmpProto ctx.isV6,
      ← buildIcmp s.srcIp s.dstIp ctx.isClient s.srcPort s.icmpSeq payload)

/-- `send_raw`: the bytes it queues, if any, and the connection afterwards. -/
def RawCtx.sendRawBytes (ctx : RawCtx) (o : SendInputs) (raw : RawInfo) (payload : Bytes) :
    Except Panic (RawInfo × Option Bytes) := do
  if ctx.randomDrop ≠ 0 ∧ o.roll % 10000 < ctx.randomDrop then return (raw, none)
  if raw.disabled then return (raw, none)
  match ← ctx.buildSegment o raw.sendInfo payload with
  | none => return (raw, none)
  | some (protocol, seg) =>
    let header ←
      buildIpHeader raw.sendInfo.srcIp raw.sendInfo.dstIp protocol o.ttl o.ipId seg.length
    let raw := if ctx.rawMode = .fakeTcp then
      { raw with sendInfo := { raw.sendInfo with dataLen := payload.length } } else raw
    return (raw, some (header ++ seg))

/-- Addresses of one family always have a header. -/
theorem buildIpHeader_returns {src dst : IpAddr} (hfam : src.isIpv6 = dst.isIpv6)
    (protocol ttl : UInt8) (id : UInt16) (n : Nat) :
    Returns (buildIpHeader src dst protocol ttl id n) fun _ => True := by
  cases src with
  | v4 s =>
    cases dst with
    | v4 d => exact returns_ok trivial
    | v6 d => cases hfam
  | v6 s =>
    cases dst with
    | v4 d => cases hfam
    | v6 d => exact returns_ok trivial

/-- Only a datagram whose length field would overflow is not built. -/
theorem RawCtx.buildSegment_returns (ctx : RawCtx) (o : SendInputs) {s : PacketInfo}
    (hfam : s.srcIp.isIpv6 = s.dstIp.isIpv6) (payload : Bytes) :
    Returns (ctx.buildSegment o s payload) fun r =>
      r.isSome = decide (ctx.rawMode = .udp → udpHeaderLen + payload.length ≤ 65535) := by
  unfold buildSegment
  cases ctx.rawMode with
  | fakeTcp =>
    have htcp : Returns (buildTcp s.srcIp s.dstIp (tcpParams o s) payload) fun _ => True :=
      (pseudoHeader_returns hfam _ _).bind fun pseudo _ => returns_ok trivial
    exact htcp.bind fun seg _ => returns_ok rfl
  | udp =>
    have hudp : Returns (buildUdp s.srcIp s.dstIp s.srcPort s.dstPort payload) fun r =>
        r.isSome = decide (udpHeaderLen + payload.length ≤ 65535) := by
      refine returns_ite (fun hlong => returns_ok ?_) fun hshort => ?_
      · rw [decide_eq_false (by omega)]
        rfl
      · refine (pseudoHeader_returns hfam _ _).bind fun pseudo _ => returns_ok ?_
        rw [decide_eq_true (by omega)]
        rfl
    exact hudp.bind fun seg hseg => returns_ok (by simp [hseg])
  | icmp =>
    have hcsum : ∀ seg, Returns (icmpCsum seg s.srcIp s.dstIp) fun _ => True := fun seg => by
      refine returns_ite (fun _ => ?_) fun _ => returns_ok trivial
      obtain ⟨pseudo, hpseudo, -⟩ := pseudoHeader_returns hfam ipprotoIcmpv6 seg.length
      rw [hpseudo]
      exact returns_ok trivial
    have hicmp : Returns (buildIcmp s.srcIp s.dstIp ctx.isClient s.srcPort s.icmpSeq payload)
        fun _ => True := (hcsum _).bind fun c _ => returns_ok trivial
    exact hicmp.bind fun seg _ => returns_ok rfl

variable {raw : RawInfo} {o : SendInputs}

/-- What the handlers see of a send, the new headers and whether something was queued, is what
building the packet gives. -/
theorem RawCtx.sendRaw_eq_sendRawBytes (ctx : RawCtx) (o : SendInputs)
    (hfam : raw.sendInfo.srcIp.isIpv6 = raw.sendInfo.dstIp.isIpv6) (payload : Bytes) :
    Returns (ctx.sendRawBytes o raw payload) fun r =>
      ctx.sendRaw o.roll raw payload = (r.1, r.2.isSome) := by
  unfold sendRawBytes sendRaw
  refine returns_ite (fun hdrop => ?_) fun hdrop => ?_
  · rw [if_pos hdrop]
    exact returns_ok rfl
  rw [if_neg hdrop]
  refine returns_ite (fun hoff => ?_) fun hoff => ?_
  · rw [if_pos hoff]
    exact returns_ok rfl
  rw [if_neg hoff]
  refine (ctx.buildSegment_returns o hfam payload).bind fun r hr => ?_
  rcases r with _ | ⟨protocol, seg⟩
  · obtain ⟨hudp, hlong⟩ := Classical.not_imp.mp (of_decide_eq_false hr.symm)
    rw [hudp]
    exact returns_ok (congrArg (Prod.mk raw) (decide_eq_false hlong))
  · refine (buildIpHeader_returns hfam _ _ _ _).bind fun header _ => returns_ok ?_
    have hshort := of_decide_eq_true hr.symm
    cases hmode : ctx.rawMode with
    | fakeTcp => rfl
    | udp => exact congrArg (Prod.mk raw) (decide_eq_true (hshort hmode))
    | icmp => rfl

/-- One byte as a UDP datagram. -/
theorem sendRaw_eq_sendRawBytes_udp :
    let ctx : RawCtx := { rawMode := .udp, isV6 := false, isClient := true }
    let raw : RawInfo := .new .udp false ⟨1, 2, 3, 4⟩
    Returns (ctx.sendRawBytes ⟨0, 0, 0, 64, 0⟩ raw [1]) fun r =>
      ctx.sendRaw 0 raw [1] = (r.1, r.2.isSome) :=
  RawCtx.sendRaw_eq_sendRawBytes _ ⟨0, 0, 0, 64, 0⟩ rfl [1]

/-! ## What the peer makes of it -/

/-- The length of the IP header of a family. -/
def ipHeaderLen (isV6 : Bool) : Nat := if isV6 then ipv6HeaderLen else ipv4HeaderLen

/-- The length of the transport header of a mode; a SYN carries more options. -/
def transportHeaderLen (mode : RawMode) (syn : Bool) : Nat :=
  match mode with
  | .fakeTcp => if syn then 40 else 32
  | .udp => udpHeaderLen
  | .icmp => icmpHeaderLen

/-- The checksum of a transport segment. -/
def transportCsumOk (mode : RawMode) (src dst : IpAddr) (seg : Bytes) : Except Panic Bool :=
  match mode with
  | .fakeTcp => (fun pseudo => Checksum.verifyWithPseudo pseudo seg) <$>
      pseudoHeader src dst ipprotoTcp seg.length
  | .udp => (fun pseudo => Checksum.verifyWithPseudo pseudo seg) <$>
      pseudoHeader src dst ipprotoUdp seg.length
  | .icmp => icmpCsumOk seg src dst

/-- The transport headers of a received packet are those that were sent. -/
def SameTransport (mode : RawMode) (o : SendInputs) (s r : PacketInfo) : Prop :=
  match mode with
  | .fakeTcp => r.srcPort = s.srcPort ∧ r.dstPort = s.dstPort ∧ r.seq = s.seq ∧
      r.ackSeq = s.ackSeq ∧ r.syn = s.syn ∧ r.ack = s.ack ∧ r.psh = s.psh ∧ r.rst = false ∧
      r.hasTs = true ∧ r.ts = o.now.toUInt32 ∧ r.tsAck = s.tsAck
  | .udp => r.srcPort = s.srcPort ∧ r.dstPort = s.dstPort
  -- the echo id is both ports
  | .icmp => r.srcPort = s.srcPort ∧ r.dstPort = s.srcPort ∧ r.icmpSeq = s.icmpSeq

/-- A context on the other end of the raw connection: the same mode and family, the opposite
role, listening on the destination of `s`. -/
structure RawCtx.Faces (rx tx : RawCtx) (s : PacketInfo) : Prop where
  mode : rx.rawMode = tx.rawMode
  family : rx.isV6 = tx.isV6
  role : rx.isClient = !tx.isClient
  port : tx.rawMode ≠ .icmp → rx.filterPort = s.dstPort
  bind : ∀ b, rx.bindAddr = some b → b = s.dstIp

theorem length_options (o : SendInputs) (s : PacketInfo) :
    tcpMinHeader + (tcpParams o s).options.length = transportHeaderLen .fakeTcp s.syn := by
  unfold TcpSendParams.options
  change tcpMinHeader + (if s.syn then _ else _ : Bytes).length = _
  cases h : s.syn <;> simp [transportHeaderLen, tcpMinHeader]

/-- The peer accepts the segment with its payload and records its headers, the addresses being
recorded already. -/
def RawCtx.AcceptsSegment (rx : RawCtx) (mode : RawMode) (o : SendInputs) (s : PacketInfo)
    (payload : Bytes) (protocol : UInt8) (seg : Bytes) : Prop :=
  ∀ (ip : ParsedIp) (raw : RawInfo), ip.src = s.srcIp → ip.dst = s.dstIp →
    ip.protocol = protocol → (mode = .icmp → raw.sendInfo.srcPort = s.srcPort) →
    ∃ raw', rx.parsePayload raw ip seg = .ok (raw', some payload) ∧
      raw'.recvInfo.srcIp = raw.recvInfo.srcIp ∧ raw'.recvInfo.dstIp = raw.recvInfo.dstIp ∧
      raw'.recvInfo.dataLen = payload.length ∧ SameTransport mode o s raw'.recvInfo

/-- The transport layer: the segment that is built has the mode's length, its checksum verifies
and the peer accepts it. -/
theorem RawCtx.acceptsSegment_buildSegment {tx rx : RawCtx} (o : SendInputs) {s : PacketInfo}
    (hrx : rx.Faces tx s) (hsrc : s.srcIp.isIpv6 = tx.isV6) (hdst : s.dstIp.isIpv6 = tx.isV6)
    {payload : Bytes} (hfit : transportHeaderLen tx.rawMode s.syn + payload.length ≤ 65535) :
    ∃ protocol seg, tx.buildSegment o s payload = .ok (some (protocol, seg)) ∧
      seg.length = transportHeaderLen tx.rawMode s.syn + payload.length ∧
      transportCsumOk tx.rawMode s.srcIp s.dstIp seg = .ok true ∧
      rx.AcceptsSegment tx.rawMode o s payload protocol seg := by
  have hfam : s.srcIp.isIpv6 = s.dstIp.isIpv6 := hsrc.trans hdst.symm
  have hport := hrx.port
  cases hmode : tx.rawMode with
  | fakeTcp =>
    rw [hmode] at hfit hport
    obtain ⟨seg, pseudo, hbuild, hlen, hpseudo, hverify, hparse⟩ :=
      @parseTcp_buildTcp _ _ hfam (tcpParams o s) payload (by omega)
    refine ⟨ipprotoTcp, seg, ?_, by rw [hlen, length_options], ?_, ?_⟩
    · rw [buildSegment, hmode]
      simp only [hbuild, ok_bind]
      rfl
    · rw [transportCsumOk, hpseudo]
      exact congrArg Except.ok hverify
    · intro ip raw hs hd hp _
      unfold parsePayload
      rw [hrx.mode, hmode]
      have hdport : (tcpParams o s).dstPort = rx.filterPort := (hport nofun).symm
      simp only [hs, hd, hp, hparse, ok_bind]
      rw [if_neg (not_not.mpr rfl), if_neg (not_not.mpr hdport)]
      exact ⟨_, rfl, rfl, rfl, rfl, rfl, rfl, rfl, rfl, rfl, rfl, rfl, rfl, rfl, rfl, rfl⟩
  | udp =>
    rw [hmode] at hfit hport
    obtain ⟨seg, pseudo, hbuild, hlen, hpseudo, hverify, hparse⟩ :=
      parseUdp_buildUdp hfam s.srcPort s.dstPort hfit
    refine ⟨ipprotoUdp, seg, ?_, hlen, ?_, ?_⟩
    · rw [buildSegment, hmode]
      simp only [hbuild, ok_bind]
      rfl
    · rw [transportCsumOk, hpseudo]
      exact congrArg Except.ok hverify
    · intro ip raw hs hd hp _
      unfold parsePayload
      rw [hrx.mode, hmode]
      simp only [hs, hd, hp, hparse, ok_bind]
      rw [if_neg (not_not.mpr rfl), if_neg (not_not.mpr (hport nofun).symm)]
      exact ⟨_, rfl, rfl, rfl, rfl, rfl, rfl⟩
  | icmp =>
    rw [hmode] at hfit
    obtain ⟨seg, hbuild, hlen, hcsum, hparse⟩ :=
      parseIcmp_buildIcmp hfam tx.isClient s.srcPort s.icmpSeq hfit
    refine ⟨icmpProto tx.isV6, seg, ?_, hlen, hcsum, ?_⟩
    · rw [buildSegment, hmode]
      simp only [hbuild, ok_bind]
      rfl
    · intro ip raw hs hd hp hid
      unfold parsePayload
      rw [hrx.mode, hmode]
      simp only [hs, hd, hp, hrx.role, hrx.family, hparse, ok_bind]
      rw [if_neg (not_not.mpr rfl), if_neg (not_not.mpr (hid rfl).symm)]
      exact ⟨_, rfl, rfl, rfl, rfl, rfl, rfl, rfl⟩

/-- The IP layer of either family: the header that is built is parsed back, and an IPv4 header
verifies. -/
theorem parseIp_buildIpHeader {src dst : IpAddr} {isV6 : Bool} (hsrc : src.isIpv6 = isV6)
    (hdst : dst.isIpv6 = isV6) (protocol ttl : UInt8) (id : UInt16) {seg : Bytes}
    (hfit : ipHeaderLen isV6 + seg.length ≤ 65535) :
    ∃ h, buildIpHeader src dst protocol ttl id seg.length = .ok h ∧
      h.length = ipHeaderLen isV6 ∧ (isV6 = false → Checksum.verify h = true) ∧
      parseIp (h ++ seg) isV6 true = .ok (some
        { src, dst, protocol
          headerLen := ipHeaderLen isV6, totalLen := ipHeaderLen isV6 + seg.length }) := by
  subst hsrc
  cases src with
  | v4 s =>
    cases dst with
    | v4 d =>
      obtain ⟨h, hbuild, hlen, hverify, hparse⟩ := parseIp_build_v4 s d protocol ttl id hfit
      exact ⟨h, hbuild, hlen, fun _ => hverify, hparse⟩
    | v6 d => cases hdst
  | v6 s =>
    cases dst with
    | v4 d => cases hdst
    | v6 d =>
      obtain ⟨h, hbuild, hlen, hparse⟩ := parseIp_build_v6 s d protocol ttl id hfit
      exact ⟨h, hbuild, hlen, nofun, hparse⟩

/-- Whether `send_raw` queues nothing: a random drop or a disabled connection. -/
def RawCtx.Withholds (ctx : RawCtx) (o : SendInputs) (raw : RawInfo) : Prop :=
  (ctx.randomDrop ≠ 0 ∧ o.roll % 10000 < ctx.randomDrop) ∨ raw.disabled = true

/-- A withheld packet changes nothing. -/
theorem RawCtx.sendRawBytes_withheld {ctx : RawCtx} (h : ctx.Withholds o raw) (payload : Bytes) :
    ctx.sendRawBytes o raw payload = .ok (raw, none) := by
  unfold sendRawBytes
  by_cases hdrop : ctx.randomDrop ≠ 0 ∧ o.roll % 10000 < ctx.randomDrop
  · rw [if_pos hdrop]
    rfl
  · rw [if_neg hdrop, if_pos (h.resolve_left hdrop)]
    rfl

/-- A packet that is not withheld is queued, header first. -/
theorem RawCtx.sendRawBytes_queued {ctx : RawCtx} (h : ¬ ctx.Withholds o raw)
    {payload seg header : Bytes} {protocol : UInt8}
    (hseg : ctx.buildSegment o raw.sendInfo payload = .ok (some (protocol, seg)))
    (hheader : buildIpHeader raw.sendInfo.srcIp raw.sendInfo.dstIp protocol o.ttl o.ipId
      seg.length = .ok header) :
    ctx.sendRawBytes o raw payload = .ok
      (if ctx.rawMode = .fakeTcp then
        { raw with sendInfo := { raw.sendInfo with dataLen := payload.length } } else raw,
        some (header ++ seg)) := by
  obtain ⟨hdrop, henabled⟩ := not_or.mp h
  unfold sendRawBytes
  rw [if_neg hdrop, if_neg henabled, hseg]
  simp only [ok_bind, hheader]
  rfl

/-- `parse_recv` on a packet whose header is known and whose segment the context accepts. -/
theorem RawCtx.parseRecv_of_parts {tx rx : RawCtx} {s : PacketInfo} (hrx : rx.Faces tx s)
    {header seg payload : Bytes} {protocol : UInt8}
    (hparse : parseIp (header ++ seg) rx.isV6 true = .ok (some
      { src := s.srcIp, dst := s.dstIp, protocol
        headerLen := header.length, totalLen := header.length + seg.length }))
    (haccept : rx.AcceptsSegment tx.rawMode o s payload protocol seg) (peer : RawInfo)
    (hid : tx.rawMode = .icmp → peer.sendInfo.srcPort = s.srcPort) (ll : SockaddrLl) :
    ∃ peer', rx.parseRecv peer (header ++ seg) ll = .ok (peer', some payload) ∧
      peer'.recvInfo.srcIp = s.srcIp ∧ peer'.recvInfo.dstIp = s.dstIp ∧
      peer'.recvInfo.dataLen = payload.length ∧ SameTransport tx.rawMode o s peer'.recvInfo := by
  let ip : ParsedIp :=
    { src := s.srcIp, dst := s.dstIp, protocol
      headerLen := header.length, totalLen := header.length + seg.length }
  have hbind : rx.bindAccepts ip = true := by
    unfold bindAccepts
    cases hb : rx.bindAddr with
    | none => rfl
    | some b => simpa using (hrx.bind b hb).symm
  have hpayload : ip.payload (header ++ seg) = .ok seg := by
    have hslice := @slice_middle _ header seg header.length _ rfl rfl []
    rwa [List.append_nil] at hslice
  unfold parseRecv
  rw [hparse]
  simp only [ok_bind]
  rw [hbind, hpayload]
  simp only [ok_bind]
  cases rx.lowerLevel with
  | true => exact haccept ip _ rfl rfl rfl hid
  | false => exact haccept ip _ rfl rfl rfl hid

/-- Whatever its state, the context returns the payload of the packet and records the headers it
was sent with; an echo must carry the id the context sends with. -/
def RawCtx.Receives (rx : RawCtx) (mode : RawMode) (o : SendInputs) (s : PacketInfo)
    (payload packet : Bytes) : Prop :=
  ∀ (peer : RawInfo) (ll : SockaddrLl), (mode = .icmp → peer.sendInfo.srcPort = s.srcPort) →
    ∃ peer', rx.parseRecv peer packet ll = .ok (peer', some payload) ∧
      peer'.recvInfo.srcIp = s.srcIp ∧ peer'.recvInfo.dstIp = s.dstIp ∧
      peer'.recvInfo.dataLen = payload.length ∧ SameTransport mode o s peer'.recvInfo

/-- A packet that is not withheld: its length, its checksums and what the peer makes of it. -/
theorem RawCtx.sendRawBytes_receives {tx rx : RawCtx} {o : SendInputs} {raw : RawInfo}
    {payload : Bytes} (hrx : rx.Faces tx raw.sendInfo)
    (hsrc : raw.sendInfo.srcIp.isIpv6 = tx.isV6) (hdst : raw.sendInfo.dstIp.isIpv6 = tx.isV6)
    (hfit : ipHeaderLen tx.isV6 + transportHeaderLen tx.rawMode raw.sendInfo.syn +
      payload.length ≤ 65535) (hsent : ¬ tx.Withholds o raw) :
    ∃ raw' packet, tx.sendRawBytes o raw payload = .ok (raw', some packet) ∧
      packet.length = ipHeaderLen tx.isV6 + transportHeaderLen tx.rawMode raw.sendInfo.syn +
        payload.length ∧
      (tx.isV6 = false → Checksum.verify (packet.take ipv4HeaderLen) = true) ∧
      transportCsumOk tx.rawMode raw.sendInfo.srcIp raw.sendInfo.dstIp
        (packet.drop (ipHeaderLen tx.isV6)) = .ok true ∧
      rx.Receives tx.rawMode o raw.sendInfo payload packet := by
  obtain ⟨protocol, seg, hseg, hlen, hcsum, haccept⟩ :=
    @RawCtx.acceptsSegment_buildSegment tx rx o _ hrx hsrc hdst payload (by omega)
  obtain ⟨h, hbuild, hhlen, hverify, hparse⟩ := @parseIp_buildIpHeader _ _ _ hsrc hdst protocol
    o.ttl o.ipId seg (by omega)
  refine ⟨_, h ++ seg, sendRawBytes_queued hsent hseg hbuild, ?_, fun h4 => ?_, ?_, ?_⟩
  · rw [List.length_append, hhlen, hlen, Nat.add_assoc]
  · have hlen4 : h.length = ipv4HeaderLen := by rw [hhlen, h4]; rfl
    rw [← hlen4, List.take_left]
    exact hverify h4
  · rw [← hhlen, List.drop_left, hcsum]
  · intro peer ll hid
    rw [← hhlen, ← hrx.family] at hparse
    exact parseRecv_of_parts hrx hparse haccept peer hid ll

/-- Unless the packet is dropped at random or the connection is disabled, `send_raw` queues a
packet whose checksums verify, and the peer's `parse_recv` returns exactly its payload and records
the headers it was sent with. -/
theorem sendRaw_parseRecv (tx rx : RawCtx) (o : SendInputs) (raw peer : RawInfo) (payload : Bytes)
    (ll : SockaddrLl) (hrx : rx.Faces tx raw.sendInfo)
    (hsrc : raw.sendInfo.srcIp.isIpv6 = tx.isV6) (hdst : raw.sendInfo.dstIp.isIpv6 = tx.isV6)
    (hid : tx.rawMode = .icmp → peer.sendInfo.srcPort = raw.sendInfo.srcPort)
    (hfit : ipHeaderLen tx.isV6 + transportHeaderLen tx.rawMode raw.sendInfo.syn +
      payload.length ≤ 65535) :
    ∃ raw' sent, tx.sendRawBytes o raw payload = .ok (raw', sent) ∧
      (sent = none ↔ tx.Withholds o raw) ∧
      ∀ packet, sent = some packet → ∃ peer',
        rx.parseRecv peer packet ll = .ok (peer', some payload) ∧
        peer'.recvInfo.srcIp = raw.sendInfo.srcIp ∧ peer'.recvInfo.dstIp = raw.sendInfo.dstIp ∧
        peer'.recvInfo.dataLen = payload.length ∧
        SameTransport tx.rawMode o raw.sendInfo peer'.recvInfo ∧
        (tx.isV6 = false → Checksum.verify (packet.take ipv4HeaderLen) = true) ∧
        transportCsumOk tx.rawMode raw.sendInfo.srcIp raw.sendInfo.dstIp
          (packet.drop (ipHeaderLen tx.isV6)) = .ok true := by
  by_cases hw : tx.Withholds o raw
  · exact ⟨raw, none, RawCtx.sendRawBytes_withheld hw payload, iff_of_true rfl hw, nofun⟩
  · obtain ⟨raw', packet, hsend, -, hverify, hcsum, hreceives⟩ :=
      RawCtx.sendRawBytes_receives hrx hsrc hdst hfit hw
    refine ⟨raw', some packet, hsend, iff_of_false nofun hw, ?_⟩
    rintro _ ⟨⟩
    obtain ⟨peer', hrecv, hs, hd, hdata, hsame⟩ := hreceives peer ll hid
    exact ⟨peer', hrecv, hs, hd, hdata, hsame, hverify, hcsum⟩

/-- A SYN of a client to a server bound to the destination, with an odd payload. -/
theorem sendRaw_parseRecv_syn :
    let tx : RawCtx := { rawMode := .fakeTcp, isV6 := false, isClient := true }
    let rx : RawCtx :=
      { rawMode := .fakeTcp, isV6 := false, isClient := false, filterPort := 4096
        bindAddr := some (.v4 #v[10, 0, 0, 2]) }
    let o : SendInputs := { roll := 0, windowRoll := 7, now := 1000, ttl := 64, ipId := 9 }
    let s : PacketInfo :=
      { srcIp := .v4 #v[10, 0, 0, 1], dstIp := .v4 #v[10, 0, 0, 2], srcPort := 2000, dstPort := 4096
        syn := true, seq := 5, ackSeq := 6, tsAck := 8 }
    let peer : RawInfo := .new .fakeTcp false ⟨1, 2, 3, 4⟩
    ∃ raw' sent, tx.sendRawBytes o ⟨s, s, 0, 0, false⟩ [1, 2, 3] = .ok (raw', sent) ∧
      (sent = none ↔ tx.Withholds o ⟨s, s, 0, 0, false⟩) ∧
      ∀ packet, sent = some packet → ∃ peer',
        rx.parseRecv peer packet {} = .ok (peer', some [1, 2, 3]) ∧
        peer'.recvInfo.srcIp = s.srcIp ∧ peer'.recvInfo.dstIp = s.dstIp ∧
        peer'.recvInfo.dataLen = 3 ∧ SameTransport .fakeTcp o s peer'.recvInfo ∧
        (false = false → Checksum.verify (packet.take ipv4HeaderLen) = true) ∧
        transportCsumOk .fakeTcp s.srcIp s.dstIp (packet.drop (ipHeaderLen false)) = .ok true := by
  intro tx rx o s peer
  have hrx : rx.Faces tx s := ⟨rfl, rfl, rfl, fun _ => rfl, fun b hb => (Option.some.inj hb).symm⟩
  exact sendRaw_parseRecv tx rx o ⟨s, s, 0, 0, false⟩ peer [1, 2, 3] {} hrx rfl rfl nofun
    (by decide)

end Udp2raw
