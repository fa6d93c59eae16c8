import Udp2raw.Core.Bpf
import Udp2raw.Raw.Receive

/-!
# The kernel filter

A classic BPF program on the receive socket drops what is not the tunnel's before
the process sees it. Three parsers then look at one packet: the filter, `peek`
and `parse_recv`. Whatever the last one accepts, the other two accept as well,
and `peek` reports the sender that `parse_recv` records.
-/

namespace Udp2raw

open Checked

/-! ## The programs of `bpf.rs` -/

/-- `TCP4`: ip and tcp and dst port. -/
def tcp4 : List Bpf.Insn :=
  [⟨0x30, 0, 0, 0x00000009⟩, ⟨0x15, 0, 6, 0x00000006⟩, ⟨0x28, 0, 0, 0x00000006⟩,
   ⟨0x45, 4, 0, 0x00001fff⟩, ⟨0xb1, 0, 0, 0x00000000⟩, ⟨0x48, 0, 0, 0x00000002⟩,
   ⟨0x15, 0, 1, 0x0000fffe⟩, ⟨0x6, 0, 0, 0x0000ffff⟩, ⟨0x6, 0, 0, 0x00000000⟩]

/-- `TCP4_PORT_INDEX`. -/
def tcp4PortIndex : Nat := 6

/-- `TCP6`: ip6 and tcp and dst port, without extension headers. -/
def tcp6 : List Bpf.Insn :=
  [⟨0x30, 0, 0, 0x00000006⟩, ⟨0x15, 0, 3, 0x00000006⟩, ⟨0x28, 0, 0, 0x0000002a⟩,
   ⟨0x15, 0, 1, 0x0000fffe⟩, ⟨0x6, 0, 0, 0x00040000⟩, ⟨0x6, 0, 0, 0x00000000⟩]

/-- `TCP6_PORT_INDEX`. -/
def tcp6PortIndex : Nat := 3

/-- `UDP4`. -/
def udp4 : List Bpf.Insn :=
  [⟨0x30, 0, 0, 0x00000009⟩, ⟨0x15, 0, 6, 0x00000011⟩, ⟨0x28, 0, 0, 0x00000006⟩,
   ⟨0x45, 4, 0, 0x00001fff⟩, ⟨0xb1, 0, 0, 0x00000000⟩, ⟨0x48, 0, 0, 0x00000002⟩,
   ⟨0x15, 0, 1, 0x0000fffe⟩, ⟨0x6, 0, 0, 0x0000ffff⟩, ⟨0x6, 0, 0, 0x00000000⟩]

/-- `UDP4_PORT_INDEX`. -/
def udp4PortIndex : Nat := 6

/-- `UDP6`. -/
def udp6 : List Bpf.Insn :=
  [⟨0x30, 0, 0, 0x00000006⟩, ⟨0x15, 0, 3, 0x00000011⟩, ⟨0x28, 0, 0, 0x0000002a⟩,
   ⟨0x15, 0, 1, 0x0000fffe⟩, ⟨0x6, 0, 0, 0x00040000⟩, ⟨0x6, 0, 0, 0x00000000⟩]

/-- `UDP6_PORT_INDEX`. -/
def udp6PortIndex : Nat := 3

/-- `ICMP4`. -/
def icmp4 : List Bpf.Insn :=
  [⟨0x30, 0, 0, 0x00000009⟩, ⟨0x15, 0, 1, 0x00000001⟩, ⟨0x6, 0, 0, 0x0000ffff⟩,
   ⟨0x6, 0, 0, 0x00000000⟩]

/-- `ICMP6`. -/
def icmp6 : List Bpf.Insn :=
  [⟨0x30, 0, 0, 0x00000006⟩, ⟨0x15, 3, 0, 0x0000003a⟩, ⟨0x15, 0, 3, 0x0000002c⟩,
   ⟨0x30, 0, 0, 0x00000028⟩, ⟨0x15, 0, 1, 0x0000003a⟩, ⟨0x6, 0, 0, 0x00040000⟩,
   ⟨0x6, 0, 0, 0x00000000⟩]

/-- The program and the place of its port, of `program`. -/
def baseProgram : (rawMode : RawMode) → (isV6 : Bool) → List Bpf.Insn × Option Nat
  | .fakeTcp, false => (tcp4, some tcp4PortIndex)
  | .fakeTcp, true => (tcp6, some tcp6PortIndex)
  | .udp, false => (udp4, some udp4PortIndex)
  | .udp, true => (udp6, some udp6PortIndex)
  | .icmp, false => (icmp4, none)
  | .icmp, true => (icmp6, none)

/-- `program`: the filter of a mode, family and port. -/
def filterProgram (rawMode : RawMode) (isV6 : Bool) (port : UInt16) : List Bpf.Insn :=
  match baseProgram rawMode isV6 with
  | (base, some index) => base.modify index fun insn => { insn with k := port.toUInt32 }
  | (base, none) => base

/-- The IPv4 programs that check a port, by protocol. -/
def portProgram4 (protocol : UInt8) (port : UInt16) : List Bpf.Insn :=
  [⟨0x30, 0, 0, 0x00000009⟩, ⟨0x15, 0, 6, protocol.toUInt32⟩, ⟨0x28, 0, 0, 0x00000006⟩,
   ⟨0x45, 4, 0, 0x00001fff⟩, ⟨0xb1, 0, 0, 0x00000000⟩, ⟨0x48, 0, 0, 0x00000002⟩,
   ⟨0x15, 0, 1, port.toUInt32⟩, ⟨0x6, 0, 0, 0x0000ffff⟩, ⟨0x6, 0, 0, 0x00000000⟩]

/-- The IPv6 programs that check a port, by protocol. -/
def portProgram6 (protocol : UInt8) (port : UInt16) : List Bpf.Insn :=
  [⟨0x30, 0, 0, 0x00000006⟩, ⟨0x15, 0, 3, protocol.toUInt32⟩, ⟨0x28, 0, 0, 0x0000002a⟩,
   ⟨0x15, 0, 1, port.toUInt32⟩, ⟨0x6, 0, 0, 0x00040000⟩, ⟨0x6, 0, 0, 0x00000000⟩]

theorem filterProgram_tcp4 (port : UInt16) :
    filterProgram .fakeTcp false port = portProgram4 ipprotoTcp port := rfl

theorem filterProgram_tcp6 (port : UInt16) :
    filterProgram .fakeTcp true port = portProgram6 ipprotoTcp port := rfl

theorem filterProgram_udp4 (port : UInt16) :
    filterProgram .udp false port = portProgram4 ipprotoUdp port := rfl

theorem filterProgram_udp6 (port : UInt16) :
    filterProgram .udp true port = portProgram6 ipprotoUdp port := rfl

/-! ## What the filter needs to see -/

/-- The fragment offset of an IPv4 header. -/
def fragmentOffset (buf : Bytes) : Nat :=
  ((buf.getD 6 0).toNat * 256 + (buf.getD 7 0).toNat) % 8192

variable {buf : Bytes} {i : Nat}

theorem byteAt_of_getElem? {b : UInt8} (h : buf[i]? = some b) :
    Bpf.byteAt buf i = some b.toUInt32 := by
  rw [Bpf.byteAt, h]
  rfl

/-- A half word that the parsers read is the one the filter loads. -/
theorem halfAt_of_readU16At {w : UInt16} (h : readU16At buf i = .ok w) :
    Bpf.halfAt buf i = some w.toUInt32 := by
  obtain ⟨hi, hhi, h⟩ := bind_eq_ok.mp h
  obtain ⟨lo, hlo, h⟩ := bind_eq_ok.mp h
  cases h
  rw [Bpf.halfAt, byteAt_of_getElem? (readAt_eq_ok_iff.mp hhi),
    byteAt_of_getElem? (readAt_eq_ok_iff.mp hlo)]
  refine congrArg some (UInt32.toNat_inj.mp ?_)
  have hlt := hi.toNat_lt
  have hlt' := lo.toNat_lt
  rw [UInt16.toNat_toUInt32, toNat_u16FromBe, UInt32.toNat_add, UInt32.toNat_mul,
    UInt8.toNat_toUInt32, UInt8.toNat_toUInt32]
  simp only [UInt32.reduceToNat]
  omega

/-- Reading a segment is reading the packet past its header. -/
theorem readU16At_of_slice {seg : Bytes} {start stop : Nat} {w : UInt16}
    (hs : slice buf start stop = .ok seg) (h : readU16At seg i = .ok w) :
    readU16At buf (start + i) = .ok w := by
  have hseg : seg = (buf.take stop).drop start := by
    unfold slice at hs
    split_ifs at hs
    cases hs
    rfl
  have hread : ∀ {j : Nat} {b : UInt8}, readAt seg j = .ok b → readAt buf (start + j) = .ok b := by
    intro j b hj
    rw [readAt_eq_ok_iff, hseg, List.getElem?_drop, List.getElem?_take] at hj
    rw [readAt_eq_ok_iff]
    split_ifs at hj
    exact hj
  obtain ⟨hi, hhi, h⟩ := bind_eq_ok.mp h
  obtain ⟨lo, hlo, h⟩ := bind_eq_ok.mp h
  rw [readU16At, hread hhi, ok_bind, Nat.add_assoc, hread hlo, ok_bind]
  exact h

/-- The flags and fragment offset of an unfragmented packet pass the filter's test. -/
theorem halfAt_fragment (hlen : 9 < buf.length) (h : fragmentOffset buf = 0) :
    ∃ w, Bpf.halfAt buf 6 = some w ∧ w &&& 0x00001fff = 0 := by
  have h6 : buf[6]? = some (buf.getD 6 0) := by
    rw [List.getD_eq_getElem?_getD, List.getElem?_eq_getElem (by omega : 6 < buf.length)]
    rfl
  have h7 : buf[7]? = some (buf.getD 7 0) := by
    rw [List.getD_eq_getElem?_getD, List.getElem?_eq_getElem (by omega : 7 < buf.length)]
    rfl
  rw [Bpf.halfAt, byteAt_of_getElem? h6, byteAt_of_getElem? h7]
  refine ⟨_, rfl, UInt32.toNat_inj.mp ?_⟩
  have hhi := (buf.getD 6 0).toNat_lt
  have hlo := (buf.getD 7 0).toNat_lt
  have hmask : ∀ n : Nat, n &&& 8191 = n % 8192 := fun n => Nat.and_two_pow_sub_one_eq_mod n 13
  rw [fragmentOffset] at h
  rw [UInt32.toNat_and, UInt32.toNat_add, UInt32.toNat_mul, UInt8.toNat_toUInt32,
    UInt8.toNat_toUInt32]
  simp only [UInt32.reduceToNat, hmask]
  omega

/-- The index register points past the header. -/
theorem toNat_index (b0 : UInt8) :
    (((b0.toUInt32 &&& 0xf) * 4) + 2).toNat = (b0 &&& 0x0f).toNat * 4 + 2 := by
  have hle : b0.toNat &&& 15 ≤ 15 := Nat.and_le_right
  rw [UInt32.toNat_add, UInt32.toNat_mul, UInt32.toNat_and, UInt8.toNat_toUInt32, UInt8.toNat_and]
  simp only [UInt32.reduceToNat, UInt8.reduceToNat]
  omega

/-! ## What an accepted packet carries -/

/-- The transport part of an accepted packet and what is recorded of it. -/
def RawCtx.Carries (ctx : RawCtx) (protocol : UInt8) (seg : Bytes) (r : PacketInfo) : Prop :=
  match ctx.rawMode with
  | .fakeTcp => protocol = ipprotoTcp ∧ tcpMinHeader ≤ seg.length ∧
      readU16At seg 0 = .ok r.srcPort ∧ readU16At seg 2 = .ok ctx.filterPort ∧
      ∃ flags, readAt seg 13 = .ok flags ∧ r.syn = (flags &&& 0x02 != 0)
  | .udp => protocol = ipprotoUdp ∧ udpHeaderLen ≤ seg.length ∧
      readU16At seg 0 = .ok r.srcPort ∧ readU16At seg 2 = .ok ctx.filterPort
  | .icmp => protocol = icmpProto ctx.isV6 ∧ icmpHeaderLen ≤ seg.length ∧
      readU16At seg 4 = .ok r.srcPort

namespace RawCtx

variable {ctx : RawCtx} {raw after : RawInfo} {ip : ParsedIp} {seg data buf : Bytes}

theorem recordTcp_recvInfo (raw : RawInfo) (t : ParsedTcp) (n : Nat) :
    let r := (ctx.recordTcp raw t n).recvInfo
    r.srcIp = raw.recvInfo.srcIp ∧ r.srcPort = t.srcPort ∧ r.syn = t.syn := by
  unfold recordTcp
  dsimp only
  split <;> exact ⟨rfl, rfl, rfl⟩

/-- What is recorded stands in the segment. -/
theorem Records.carries (h : ctx.Records raw ip seg after (some data)) :
    after.recvInfo.srcIp = raw.recvInfo.srcIp ∧ ctx.Carries ip.protocol seg after.recvInfo := by
  unfold Carries
  cases h with
  | @tcp t _ mode protocol parsed port =>
    obtain ⟨hlen, hsrc, hdst, hflags⟩ := parseTcp_fields parsed
    obtain ⟨hip, hsrcPort, hsyn⟩ := @recordTcp_recvInfo ctx raw t data.length
    rw [port] at hdst
    refine ⟨hip, ?_⟩
    simp only [mode]
    rw [hsrcPort, hsyn]
    exact ⟨protocol, hlen, hsrc, hdst, hflags⟩
  | udp mode protocol parsed port =>
    obtain ⟨hlen, hsrc, hdst⟩ := parseUdp_fields parsed
    rw [port] at hdst
    refine ⟨rfl, ?_⟩
    simp only [mode]
    exact ⟨protocol, hlen, hsrc, hdst⟩
  | icmp mode protocol parsed id =>
    obtain ⟨hlen, hid⟩ := parseIcmp_fields parsed
    refine ⟨rfl, ?_⟩
    simp only [mode]
    exact ⟨protocol, hlen, hid⟩

variable {ll : SockaddrLl}

/-- What `parse_recv` knows of a packet it accepts. -/
theorem parseRecv_carries (h : ctx.parseRecv raw buf ll = .ok (after, some data)) :
    ∃ ip seg, parseIp buf ctx.isV6 true = .ok (some ip) ∧ ip.payload buf = .ok seg ∧
      after.recvInfo.srcIp = ip.src ∧ ctx.Carries ip.protocol seg after.recvInfo := by
  obtain ⟨ip, seg, r, hip, hseg, -, hsrc, -, hrecords⟩ := records_of_parseRecv h
  obtain ⟨hsame, hcarries⟩ := hrecords.carries
  exact ⟨ip, seg, hip, hseg, hsame.trans hsrc, hcarries⟩

/-- The recorded port is the filtered one, except for ICMP. -/
theorem Records.ports (h : ctx.Records raw ip seg after (some data)) :
    after.recvInfo.dstIp = raw.recvInfo.dstIp ∧ after.recvInfo.dstPort =
      if ctx.rawMode = .icmp then raw.sendInfo.srcPort else ctx.filterPort := by
  cases h with
  | @tcp t _ mode protocol parsed port =>
    rw [mode, if_neg RawMode.noConfusion, ← port]
    unfold recordTcp
    dsimp only
    split <;> exact ⟨rfl, rfl⟩
  | udp mode protocol parsed port =>
    rw [mode, if_neg RawMode.noConfusion]
    exact ⟨rfl, port⟩
  | icmp mode protocol parsed id =>
    rw [if_pos mode]
    exact ⟨rfl, id⟩

/-- Where an accepted packet came from and where it went. -/
theorem parseRecv_addresses (h : ctx.parseRecv raw buf ll = .ok (after, some data)) :
    after.recvInfo.srcIp.isIpv6 = ctx.isV6 ∧ after.recvInfo.dstIp.isIpv6 = ctx.isV6 ∧
      (∀ b, ctx.bindAddr = some b → after.recvInfo.dstIp = b) ∧
      after.recvInfo.dstPort =
        if ctx.rawMode = .icmp then raw.sendInfo.srcPort else ctx.filterPort := by
  obtain ⟨ip, seg, r, hip, -, hbind, hsrc, hdst, hrecords⟩ := records_of_parseRecv h
  have hfits := (parseIp_returns buf ctx.isV6 true).post hip ip rfl
  obtain ⟨hdst', hport⟩ := hrecords.ports
  refine ⟨?_, ?_, fun b hb => ?_, hport⟩
  · rw [hrecords.carries.1]
    exact (congrArg IpAddr.isIpv6 hsrc).trans hfits.src
  · rw [hdst']
    exact (congrArg IpAddr.isIpv6 hdst).trans hfits.dst
  · rw [bindAccepts, hb] at hbind
    exact hdst'.trans (hdst.trans (by simpa using hbind))

/-- `peek` reports what is recorded of a packet that is accepted. -/
theorem peek_of_carries {r : PacketInfo} (hip : parseIp buf ctx.isV6 false = .ok (some ip))
    (hseg : ip.payload buf = .ok seg) (h : ctx.Carries ip.protocol seg r) :
    ∃ p, ctx.peek buf = .ok (some p) ∧ p.srcIp = ip.src ∧ p.srcPort = r.srcPort ∧
      (ctx.rawMode = .fakeTcp → p.syn = r.syn) := by
  unfold peek
  rw [hip, ok_bind]
  dsimp only
  rw [hseg, ok_bind]
  unfold peekPayload
  unfold Carries at h
  cases hm : ctx.rawMode with
  | fakeTcp =>
    simp only [hm] at h
    obtain ⟨hprotocol, hlen, hsrc, -, flags, hflags, hsyn⟩ := h
    have hpass : ¬ (ip.protocol ≠ ipprotoTcp ∨ seg.length < tcpMinHeader) :=
      not_or.mpr ⟨not_not.mpr hprotocol, Nat.not_lt.mpr hlen⟩
    refine ⟨⟨ip.src, r.srcPort, r.syn⟩, ?_, rfl, rfl, fun _ => rfl⟩
    dsimp only
    rw [if_neg hpass, hsrc, ok_bind, hflags, ok_bind, hsyn]
    rfl
  | udp =>
    simp only [hm] at h
    obtain ⟨hprotocol, hlen, hsrc, -⟩ := h
    have hpass : ¬ (ip.protocol ≠ ipprotoUdp ∨ seg.length < udpHeaderLen) :=
      not_or.mpr ⟨not_not.mpr hprotocol, Nat.not_lt.mpr hlen⟩
    refine ⟨⟨ip.src, r.srcPort, false⟩, ?_, rfl, rfl, fun h => by cases h⟩
    dsimp only
    rw [if_neg hpass, hsrc, ok_bind]
    rfl
  | icmp =>
    simp only [hm] at h
    obtain ⟨hprotocol, hlen, hsrc⟩ := h
    have hpass : ¬ (ip.protocol ≠ icmpProto ctx.isV6 ∨ seg.length < icmpHeaderLen) :=
      not_or.mpr ⟨not_not.mpr hprotocol, Nat.not_lt.mpr hlen⟩
    refine ⟨⟨ip.src, r.srcPort, false⟩, ?_, rfl, rfl, fun h => by cases h⟩
    dsimp only
    rw [if_neg hpass, hsrc, ok_bind]
    rfl

/-- `peek` reports the sender that `parse_recv` records. -/
theorem peek_of_parseRecv (h : ctx.parseRecv raw buf ll = .ok (after, some data)) :
    ∃ p, ctx.peek buf = .ok (some p) ∧ p.srcIp = after.recvInfo.srcIp ∧
      p.srcPort = after.recvInfo.srcPort ∧
      (ctx.rawMode = .fakeTcp → p.syn = after.recvInfo.syn) := by
  obtain ⟨ip, seg, hip, hseg, hsrc, hcarries⟩ := parseRecv_carries h
  obtain ⟨p, hpeek, hpsrc, hpport, hpsyn⟩ := peek_of_carries (parseIp_reads hip).2 hseg hcarries
  exact ⟨p, hpeek, hpsrc.trans hsrc.symm, hpport, hpsyn⟩

/-- The IPv4 programs for a port accept what carries the protocol and the port. -/
theorem accepts_port4 {protocol : UInt8} {port : UInt16} (hreads : ip.Reads buf false)
    (hseg : ip.payload buf = .ok seg) (hprotocol : ip.protocol = protocol)
    (hport : readU16At seg 2 = .ok port) (hfirst : fragmentOffset buf = 0) :
    Bpf.accepts (portProgram4 protocol port) buf = true := by
  obtain ⟨hproto, b0, hb0, hheader⟩ := hreads
  have hbyte := byteAt_of_getElem? hproto
  obtain ⟨w, hw, hzero⟩ := halfAt_fragment (List.getElem?_eq_some_iff.mp hproto).1 hfirst
  have hdst : Bpf.halfAt buf (((b0.toUInt32 &&& 0xf) * 4) + 2).toNat = some port.toUInt32 := by
    rw [toNat_index, ← hheader]
    exact halfAt_of_readU16At (readU16At_of_slice hseg hport)
  subst hprotocol
  rw [Bpf.accepts, portProgram4, Bpf.run_ldAbsB hbyte, Bpf.run_jeq_eq, UInt8.toNat_zero,
    Bpf.run_ldAbsH hw,
    Bpf.run_jset_zero 4 0 hzero, UInt8.toNat_zero, Bpf.run_ldxMsh (byteAt_of_getElem? hb0),
    Bpf.run_ldIndH hdst, Bpf.run_jeq_eq, UInt8.toNat_zero, Bpf.run_ret]
  rfl

/-- The IPv6 programs for a port likewise. -/
theorem accepts_port6 {protocol : UInt8} {port : UInt16} (hreads : ip.Reads buf true)
    (hseg : ip.payload buf = .ok seg) (hprotocol : ip.protocol = protocol)
    (hport : readU16At seg 2 = .ok port) : Bpf.accepts (portProgram6 protocol port) buf = true := by
  obtain ⟨hproto, hheader⟩ := hreads
  have hbyte := byteAt_of_getElem? hproto
  have hdst : Bpf.halfAt buf (ip.headerLen + 2) = some port.toUInt32 :=
    halfAt_of_readU16At (readU16At_of_slice hseg hport)
  rw [show ip.headerLen = ipv6HeaderLen from hheader] at hdst
  subst hprotocol
  rw [Bpf.accepts, portProgram6, Bpf.run_ldAbsB hbyte, Bpf.run_jeq_eq, UInt8.toNat_zero,
    Bpf.run_ldAbsH hdst,
    Bpf.run_jeq_eq, UInt8.toNat_zero, Bpf.run_ret]
  rfl

theorem accepts_icmp4 (hreads : ip.Reads buf false) (h : ip.protocol = ipprotoIcmp) :
    Bpf.accepts icmp4 buf = true := by
  have hbyte := byteAt_of_getElem? hreads.protocol
  rw [h] at hbyte
  rw [Bpf.accepts, icmp4, Bpf.run_ldAbsB hbyte]
  rfl

theorem accepts_icmp6 (hreads : ip.Reads buf true) (h : ip.protocol = ipprotoIcmpv6) :
    Bpf.accepts icmp6 buf = true := by
  have hbyte := byteAt_of_getElem? hreads.protocol
  rw [h] at hbyte
  rw [Bpf.accepts, icmp6, Bpf.run_ldAbsB hbyte]
  rfl

/-- The filter accepts what carries the tunnel's protocol and port. -/
theorem filterProgram_accepts {r : PacketInfo} (hreads : ip.Reads buf ctx.isV6)
    (hseg : ip.payload buf = .ok seg) (h : ctx.Carries ip.protocol seg r)
    (hfirst : ctx.isV6 = false → fragmentOffset buf = 0) :
    Bpf.accepts (filterProgram ctx.rawMode ctx.isV6 ctx.filterPort) buf = true := by
  unfold Carries at h
  cases hv6 : ctx.isV6 with
  | false =>
    rw [hv6] at hreads
    cases hm : ctx.rawMode with
    | fakeTcp =>
      simp only [hm] at h
      rw [filterProgram_tcp4]
      exact accepts_port4 hreads hseg h.1 h.2.2.2.1 (hfirst hv6)
    | udp =>
      simp only [hm] at h
      rw [filterProgram_udp4]
      exact accepts_port4 hreads hseg h.1 h.2.2.2 (hfirst hv6)
    | icmp =>
      simp only [hm, hv6] at h
      exact accepts_icmp4 hreads h.1
  | true =>
    rw [hv6] at hreads
    cases hm : ctx.rawMode with
    | fakeTcp =>
      simp only [hm] at h
      rw [filterProgram_tcp6]
      exact accepts_port6 hreads hseg h.1 h.2.2.2.1
    | udp =>
      simp only [hm] at h
      rw [filterProgram_udp6]
      exact accepts_port6 hreads hseg h.1 h.2.2.2
    | icmp =>
      simp only [hm, hv6] at h
      exact accepts_icmp6 hreads h.1

end RawCtx

end Udp2raw
