import Udp2raw.Packet.Datagram
import Udp2raw.Packet.Tcp
import Udp2raw.Raw.Info

/-!
# Receiving raw packets

`peek` and `parse_recv` run the packet parsers on bytes from the network. Every
index is justified from lengths the parsers have checked, with one exception: a
TCP data offset below five words reaches the option slice and inverts it.
-/

namespace Udp2raw

open Checked

/-- What the server needs to route a packet before parsing it fully. -/
structure PeekInfo where
  srcIp : IpAddr
  srcPort : UInt16
  syn : Bool
  deriving DecidableEq, Repr

/-- The echo protocol number of a family. -/
def icmpProto (isV6 : Bool) : UInt8 := if isV6 then ipprotoIcmpv6 else ipprotoIcmp

/-- The transport part of `peek`. -/
def RawCtx.peekPayload (ctx : RawCtx) (ip : ParsedIp) (payload : Bytes) :
    Except Panic (Option PeekInfo) := do
  match ctx.rawMode with
  | .fakeTcp =>
    if ip.protocol ≠ ipprotoTcp ∨ payload.length < tcpMinHeader then return none
    let srcPort ← readU16At payload 0
    let flags ← readAt payload 13
    return some { srcIp := ip.src, srcPort, syn := flags &&& 0x02 != 0 }
  | .udp =>
    if ip.protocol ≠ ipprotoUdp ∨ payload.length < udpHeaderLen then return none
    return some { srcIp := ip.src, srcPort := ← readU16At payload 0, syn := false }
  | .icmp =>
    if ip.protocol ≠ icmpProto ctx.isV6 ∨ payload.length < icmpHeaderLen then return none
    return some { srcIp := ip.src, srcPort := ← readU16At payload 4, syn := false }

/-- `peek`: header-only look at a received packet, without its checksum. -/
def RawCtx.peek (ctx : RawCtx) (buf : Bytes) : Except Panic (Option PeekInfo) := do
  match ← parseIp buf ctx.isV6 false with
  | none => return none
  | some ip => ctx.peekPayload ip (← ip.payload buf)

/-- `ack_seq_counter` and `rst_received` of a received segment, as `parse_recv` updates them. -/
def RawCtx.recordTcp (ctx : RawCtx) (raw : RawInfo) (t : ParsedTcp) (dataLen : Nat) : RawInfo :=
  let r := raw.recvInfo
  let recv :=
    { r with
      hasTs := t.hasTs, ts := t.ts, tsAck := t.tsAck
      ack := t.ack, syn := t.syn, rst := t.rst, psh := t.psh
      srcPort := t.srcPort, dstPort := t.dstPort, seq := t.seq, ackSeq := t.ackSeq
      ackSeqCounter := if t.ackSeq = r.ackSeq then r.ackSeqCounter + 1 else 0
      dataLen := dataLen }
  if t.rst then
    let cnt := raw.rstReceived + 1
    { raw with
      recvInfo := recv
      rstReceived := cnt
      disabled := raw.disabled ||
        decide (0 ≤ ctx.maxRstAllowed ∧ cnt = ctx.maxRstAllowed + 1) }
  else { raw with recvInfo := recv }

/-- The transport part of `parse_recv`, entered with the addresses already recorded. -/
def RawCtx.parsePayload (ctx : RawCtx) (raw : RawInfo) (ip : ParsedIp) (payload : Bytes) :
    Except Panic (RawInfo × Option Bytes) := do
  match ctx.rawMode with
  | .fakeTcp =>
    if ip.protocol ≠ ipprotoTcp then return (raw, none)
    match ← parseTcp payload ip.src ip.dst with
    | none => return (raw, none)
    | some (t, data) =>
      if t.dstPort ≠ ctx.filterPort then return (raw, none)
      return (ctx.recordTcp raw t data.length, some data)
  | .udp =>
    if ip.protocol ≠ ipprotoUdp then return (raw, none)
    match ← parseUdp payload ip.src ip.dst with
    | none => return (raw, none)
    | some (sp, dp, data) =>
      if dp ≠ ctx.filterPort then return (raw, none)
      return ({ raw with recvInfo :=
        { raw.recvInfo with srcPort := sp, dstPort := dp, dataLen := data.length } }, some data)
  | .icmp =>
    if ip.protocol ≠ icmpProto ctx.isV6 then return (raw, none)
    match ← parseIcmp payload ip.src ip.dst ctx.isClient with
    | none => return (raw, none)
    | some (h, data) =>
      if h.id ≠ raw.sendInfo.srcPort then return (raw, none)
      return ({ raw with recvInfo :=
        { raw.recvInfo with
          srcPort := h.id, dstPort := h.id, icmpSeq := h.seq, dataLen := data.length } }, some data)

/-- Whether the destination passes the server's bind address. -/
def RawCtx.bindAccepts (ctx : RawCtx) (ip : ParsedIp) : Bool :=
  match ctx.bindAddr with
  | none => true
  | some b => ip.dst == b

/-- `parse_recv`: validate headers, fill `recv_info`, return the transport payload. The
receive headers keep whatever was recorded before a refusal. -/
def RawCtx.parseRecv (ctx : RawCtx) (raw : RawInfo) (buf : Bytes) (ll : SockaddrLl) :
    Except Panic (RawInfo × Option Bytes) := do
  match ← parseIp buf ctx.isV6 true with
  | none => return (raw, none)
  | some ip =>
    let raw := if ctx.lowerLevel then
      { raw with recvInfo := { raw.recvInfo with addrLl := ll } } else raw
    if !ctx.bindAccepts ip then return (raw, none)
    let raw := { raw with recvInfo := { raw.recvInfo with srcIp := ip.src, dstIp := ip.dst } }
    ctx.parsePayload raw ip (← ip.payload buf)

/-- What the transport part of `parse_recv` does with a packet: it refuses it and records nothing,
or it records the headers of the mode. -/
inductive RawCtx.Records (ctx : RawCtx) (raw : RawInfo) (ip : ParsedIp) (payload : Bytes) :
    RawInfo → Option Bytes → Prop where
  | refused : Records ctx raw ip payload raw none
  | tcp {t : ParsedTcp} {data : Bytes} (mode : ctx.rawMode = .fakeTcp)
      (protocol : ip.protocol = ipprotoTcp)
      (parsed : parseTcp payload ip.src ip.dst = .ok (some (t, data)))
      (port : t.dstPort = ctx.filterPort) :
      Records ctx raw ip payload (ctx.recordTcp raw t data.length) (some data)
  | udp {srcPort dstPort : UInt16} {data : Bytes} (mode : ctx.rawMode = .udp)
      (protocol : ip.protocol = ipprotoUdp)
      (parsed : parseUdp payload ip.src ip.dst = .ok (some (srcPort, dstPort, data)))
      (port : dstPort = ctx.filterPort) :
      Records ctx raw ip payload { raw with recvInfo :=
        { raw.recvInfo with srcPort := srcPort, dstPort := dstPort, dataLen := data.length } }
        (some data)
  | icmp {h : ParsedIcmp} {data : Bytes} (mode : ctx.rawMode = .icmp)
      (protocol : ip.protocol = icmpProto ctx.isV6)
      (parsed : parseIcmp payload ip.src ip.dst ctx.isClient = .ok (some (h, data)))
      (id : h.id = raw.sendInfo.srcPort) :
      Records ctx raw ip payload { raw with recvInfo :=
        { raw.recvInfo with
          srcPort := h.id, dstPort := h.id, icmpSeq := h.seq, dataLen := data.length } }
        (some data)

/-- What a parsed payload records. -/
theorem RawCtx.records_of_parsePayload {ctx : RawCtx} {raw after : RawInfo} {ip : ParsedIp}
    {payload : Bytes} {data : Option Bytes}
    (h : ctx.parsePayload raw ip payload = .ok (after, data)) :
    ctx.Records raw ip payload after data := by
  unfold parsePayload at h
  cases hm : ctx.rawMode with
  | fakeTcp =>
    simp only [hm] at h
    split_ifs at h with hprotocol
    · cases h
      exact .refused
    obtain ⟨r, hr, h⟩ := bind_eq_ok.mp h
    rcases r with _ | ⟨t, d⟩
    · cases h
      exact .refused
    dsimp only at h
    split_ifs at h with hport
    · cases h
      exact .refused
    · cases h
      exact .tcp hm (not_not.mp hprotocol) hr (not_not.mp hport)
  | udp =>
    simp only [hm] at h
    split_ifs at h with hprotocol
    · cases h
      exact .refused
    obtain ⟨r, hr, h⟩ := bind_eq_ok.mp h
    rcases r with _ | ⟨sp, dp, d⟩
    · cases h
      exact .refused
    dsimp only at h
    split_ifs at h with hport
    · cases h
      exact .refused
    · cases h
      exact .udp hm (not_not.mp hprotocol) hr (not_not.mp hport)
  | icmp =>
    simp only [hm] at h
    split_ifs at h with hprotocol
    · cases h
      exact .refused
    obtain ⟨r, hr, h⟩ := bind_eq_ok.mp h
    rcases r with _ | ⟨hd, d⟩
    · cases h
      exact .refused
    dsimp only at h
    split_ifs at h with hid
    · cases h
      exact .refused
    · cases h
      exact .icmp hm (not_not.mp hprotocol) hr (not_not.mp hid)

/-- An accepted packet: its IP header and its segment, the addresses being recorded before the
transport part. -/
theorem RawCtx.records_of_parseRecv {ctx : RawCtx} {raw after : RawInfo} {buf data : Bytes}
    {ll : SockaddrLl} (h : ctx.parseRecv raw buf ll = .ok (after, some data)) :
    ∃ ip seg r, parseIp buf ctx.isV6 true = .ok (some ip) ∧ ip.payload buf = .ok seg ∧
      ctx.bindAccepts ip = true ∧ r.srcIp = ip.src ∧ r.dstIp = ip.dst ∧
      ctx.Records { raw with recvInfo := r } ip seg after (some data) := by
  unfold parseRecv at h
  obtain ⟨r, hr, h⟩ := bind_eq_ok.mp h
  cases r with
  | none => cases h
  | some ip =>
    dsimp only at h
    by_cases hb : (!ctx.bindAccepts ip) = true
    · rw [if_pos hb] at h
      cases h
    · rw [if_neg hb] at h
      obtain ⟨seg, hseg, h⟩ := bind_eq_ok.mp h
      have hbind : ctx.bindAccepts ip = true := by simpa using hb
      split at h
      · exact ⟨ip, seg, _, hr, hseg, hbind, rfl, rfl, records_of_parsePayload h⟩
      · exact ⟨ip, seg, _, hr, hseg, hbind, rfl, rfl, records_of_parsePayload h⟩

/-- The header-only look returns on every buffer. -/
theorem RawCtx.peek_returns (ctx : RawCtx) (buf : Bytes) :
    Returns (ctx.peek buf) fun _ => True := by
  refine (parseIp_returns buf ctx.isV6 false).bind fun r hr => ?_
  cases r with
  | none => exact returns_ok trivial
  | some ip =>
    refine (hr ip rfl).payload_returns.bind fun payload _ => ?_
    unfold RawCtx.peekPayload
    cases ctx.rawMode with
    | fakeTcp =>
      refine returns_ite (fun _ => returns_ok trivial) fun h => ?_
      simp only [tcpMinHeader] at h
      refine (readU16At_returns (by omega)).bind fun port _ => ?_
      exact (readAt_returns (by omega)).bind fun flags _ => returns_ok trivial
    | udp =>
      refine returns_ite (fun _ => returns_ok trivial) fun h => ?_
      simp only [udpHeaderLen] at h
      exact (readU16At_returns (by omega)).bind fun port _ => returns_ok trivial
    | icmp =>
      refine returns_ite (fun _ => returns_ok trivial) fun h => ?_
      simp only [icmpHeaderLen] at h
      exact (readU16At_returns (by omega)).bind fun port _ => returns_ok trivial

/-- `parse_recv` hands `seg` to `parse_tcp`: FakeTCP, an accepted IP header, an accepted
destination and the TCP protocol number. -/
def RawCtx.HandsTcp (ctx : RawCtx) (buf seg : Bytes) (src dst : IpAddr) : Prop :=
  ctx.rawMode = .fakeTcp ∧ ∃ ip, parseIp buf ctx.isV6 true = .ok (some ip) ∧
    ctx.bindAccepts ip = true ∧ ip.protocol = ipprotoTcp ∧ ip.payload buf = .ok seg ∧
    ip.src = src ∧ ip.dst = dst

/-- The packets on which the receive path must not be run: a TCP segment of at least a
fixed header whose data offset is one to four words. -/
def RawCtx.ShortDataOffset (ctx : RawCtx) (buf : Bytes) : Prop :=
  ∃ seg src dst, ctx.HandsTcp buf seg src dst ∧ tcpMinHeader ≤ seg.length ∧
    1 ≤ (seg.getD 12 0 >>> 4).toNat ∧ (seg.getD 12 0 >>> 4).toNat ≤ 4

/-- A header of one to four words passes the checks of `parse_tcp` and only those do so
while ending before the fixed header. -/
theorem short_offset_iff {seg : Bytes} :
    (tcpMinHeader ≤ seg.length ∧ 1 ≤ (seg.getD 12 0 >>> 4).toNat ∧
      (seg.getD 12 0 >>> 4).toNat ≤ 4) ↔
    ReachesOptions seg ∧ tcpHeaderLen seg < tcpMinHeader := by
  simp only [ReachesOptions, tcpHeaderLen, tcpMinHeader]
  omega

/-- The transport part aborts only inside `parse_tcp`. -/
theorem RawCtx.parsePayload_returns (ctx : RawCtx) (raw : RawInfo) {ip : ParsedIp}
    (payload : Bytes) (hfam : ip.src.isIpv6 = ip.dst.isIpv6)
    (h : ctx.rawMode = .fakeTcp → ip.protocol = ipprotoTcp → ReachesOptions payload →
      tcpMinHeader ≤ tcpHeaderLen payload) :
    Returns (ctx.parsePayload raw ip payload) fun _ => True := by
  unfold RawCtx.parsePayload
  cases hm : ctx.rawMode with
  | fakeTcp =>
    refine returns_ite (fun _ => returns_ok trivial) fun hp => ?_
    have htcp : Returns (parseTcp payload ip.src ip.dst) fun _ => True := by
      by_cases hr : ReachesOptions payload
      · exact parseTcp_returns hr (h hm (not_not.mp hp) hr) hfam
      · exact ⟨none, parseTcp_of_not_reaches hr _ _, trivial⟩
    refine htcp.bind fun r _ => ?_
    rcases r with _ | ⟨t, data⟩
    · exact returns_ok trivial
    · exact returns_ite (fun _ => returns_ok trivial) fun _ => returns_ok trivial
  | udp =>
    refine returns_ite (fun _ => returns_ok trivial) fun _ => ?_
    refine (parseUdp_returns payload hfam).bind fun r _ => ?_
    rcases r with _ | ⟨sp, dp, data⟩
    · exact returns_ok trivial
    · exact returns_ite (fun _ => returns_ok trivial) fun _ => returns_ok trivial
  | icmp =>
    refine returns_ite (fun _ => returns_ok trivial) fun _ => ?_
    refine (parseIcmp_returns payload hfam ctx.isClient).bind fun r _ => ?_
    rcases r with _ | ⟨h, data⟩
    · exact returns_ok trivial
    · exact returns_ite (fun _ => returns_ok trivial) fun _ => returns_ok trivial

/-- Away from short data offsets `parse_recv` returns on every buffer. -/
theorem RawCtx.parseRecv_returns (ctx : RawCtx) (raw : RawInfo) (buf : Bytes) (ll : SockaddrLl)
    (h : ¬ ctx.ShortDataOffset buf) : Returns (ctx.parseRecv raw buf ll) fun _ => True := by
  obtain ⟨r, hr, hfit⟩ := parseIp_returns buf ctx.isV6 true
  unfold RawCtx.parseRecv
  rw [hr]
  cases r with
  | none => exact returns_ok trivial
  | some ip =>
    have hf := hfit ip rfl
    refine returns_ite (fun _ => returns_ok trivial) fun hb => ?_
    obtain ⟨seg, hseg, -⟩ := hf.payload_returns
    rw [hseg]
    refine ctx.parsePayload_returns _ seg (hf.src.trans hf.dst.symm) fun hm hp hreach => ?_
    by_contra hshort
    have hb' : ctx.bindAccepts ip = true := by simpa using hb
    exact h ⟨seg, ip.src, ip.dst, ⟨hm, ip, hr, hb', hp, hseg, rfl, rfl⟩,
      short_offset_iff.mpr ⟨hreach, Nat.not_le.mp hshort⟩⟩

/-- On a short data offset `parse_recv` aborts at the option slice. -/
theorem RawCtx.parseRecv_aborts (ctx : RawCtx) (raw : RawInfo) (buf : Bytes) (ll : SockaddrLl)
    (h : ctx.ShortDataOffset buf) :
    ∃ stop, stop < tcpMinHeader ∧
      ctx.parseRecv raw buf ll = .error (.sliceOrder tcpMinHeader stop) := by
  obtain ⟨seg, src, dst, ⟨hm, ip, hr, hb, hp, hseg, -, -⟩, hshort⟩ := h
  obtain ⟨hreach, hlt⟩ := short_offset_iff.mp hshort
  have hf := (parseIp_returns buf ctx.isV6 true).post hr ip rfl
  refine ⟨tcpHeaderLen seg, hlt, ?_⟩
  have hb' : ¬ (!ctx.bindAccepts ip) = true := by simp [hb]
  unfold RawCtx.parseRecv
  rw [hr]
  refine (if_neg hb').trans ?_
  rw [hseg]
  change ctx.parsePayload _ ip seg = _
  unfold RawCtx.parsePayload
  rw [hm]
  refine (if_neg (not_not.mpr hp)).trans ?_
  rw [parseTcp_aborts hreach hlt (hf.src.trans hf.dst.symm)]
  rfl

/-- The receive path is safe on a packet: both entry points return, and the option slice,
when reached, lies between the fixed header and the end of the segment. -/
structure RawCtx.ReceiveSafe (ctx : RawCtx) (raw : RawInfo) (buf : Bytes) (ll : SockaddrLl) :
    Prop where
  peek : ∃ r, ctx.peek buf = .ok r
  parseRecv : ∃ r, ctx.parseRecv raw buf ll = .ok r
  options : ∀ seg src dst, ctx.HandsTcp buf seg src dst → ReachesOptions seg →
    tcpMinHeader ≤ tcpHeaderLen seg ∧ tcpHeaderLen seg ≤ seg.length

/-- The receive path is safe exactly on the packets without a short TCP data offset, in
every mode, family and role and from every prior connection state. -/
theorem receive_safe_iff (ctx : RawCtx) (raw : RawInfo) (buf : Bytes) (ll : SockaddrLl) :
    ctx.ReceiveSafe raw buf ll ↔ ¬ ctx.ShortDataOffset buf := by
  constructor
  · rintro ⟨-, ⟨r, hr⟩, -⟩ hshort
    obtain ⟨stop, -, habort⟩ := ctx.parseRecv_aborts raw buf ll hshort
    rw [habort] at hr
    cases hr
  · intro h
    obtain ⟨p, hp, -⟩ := ctx.peek_returns buf
    obtain ⟨r, hr, -⟩ := ctx.parseRecv_returns raw buf ll h
    refine ⟨⟨p, hp⟩, ⟨r, hr⟩, fun seg src dst hands hreach => ⟨?_, hreach.2.2.2⟩⟩
    by_contra hlt
    exact h ⟨seg, src, dst, hands, short_offset_iff.mpr ⟨hreach, Nat.not_le.mp hlt⟩⟩

/-- An IPv4 packet with a correct header checksum and a bare TCP header whose data offset
is one word. -/
def shortOffsetPacket : Bytes :=
  [0x45, 0, 0, 40, 0, 0, 0, 0, 64, 6, 0x66, 0xce, 10, 0, 0, 1, 10, 0, 0, 2] ++
  [0, 1, 0, 2, 0, 0, 0, 0, 0, 0, 0, 0, 0x10, 0x10, 0, 0, 0, 0, 0, 0]

/-- One crafted packet aborts a FakeTCP server from its initial connection state. -/
theorem receive_not_always_safe :
    ¬ ∀ (ctx : RawCtx) (raw : RawInfo) (buf : Bytes) (ll : SockaddrLl),
      ctx.ReceiveSafe raw buf ll := by
  intro h
  let ctx : RawCtx := { rawMode := .fakeTcp, isV6 := false, isClient := false }
  obtain ⟨-, ⟨r, hr⟩, -⟩ := h ctx (.new .fakeTcp false ⟨1, 2, 3, 4⟩) shortOffsetPacket {}
  have habort : ctx.parseRecv (.new .fakeTcp false ⟨1, 2, 3, 4⟩) shortOffsetPacket {} =
      .error (.sliceOrder 20 4) := by decide
  rw [habort] at hr
  cases hr

end Udp2raw
