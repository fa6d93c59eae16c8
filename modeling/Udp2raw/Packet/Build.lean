import Udp2raw.Packet.Datagram
import Udp2raw.Packet.Tcp

/-!
# Building packets

The builders lay the header fields out one after another, compute the checksum
with its own word zero and write it in. Each parser accepts what its builder
makes, with the same fields, and every checksum verifies.
-/

namespace Udp2raw

open Checked

/-- The IPv4 header up to its checksum; `0x4000` is DF. -/
def ipv4Head (tot id : UInt16) (ttl protocol : UInt8) : Bytes :=
  [0x45, 0] ++ u16ToBe tot ++ u16ToBe id ++ u16ToBe 0x4000 ++ [ttl, protocol]

/-- `build_ip_header`. -/
def buildIpHeader (src dst : IpAddr) (protocol ttl : UInt8) (id : UInt16) (payloadLen : Nat) :
    Except Panic Bytes :=
  match src, dst with
  | .v4 s, .v4 d =>
    let tot := UInt16.ofNat (ipv4HeaderLen + payloadLen)
    let h := ipv4Head tot id ttl protocol ++ ([0, 0] ++ (s.toList ++ d.toList))
    .ok (putU16 h 10 (Checksum.csum h))
  | .v6 s, .v6 d =>
    .ok ([0x60, 0, 0, 0] ++ u16ToBe (UInt16.ofNat payloadLen) ++ [protocol, ttl] ++
      (s.toList ++ d.toList))
  | _, _ => .error .explicit

/-- `SYN_MSS`. -/
def synMss : UInt16 := 1460

/-- `WSCALE` as the option byte. -/
def wscaleByte : UInt8 := 5

/-- `TcpSendParams`. -/
structure TcpSendParams where
  srcPort : UInt16
  dstPort : UInt16
  seq : UInt32
  ackSeq : UInt32
  syn : Bool
  ack : Bool
  psh : Bool
  window : UInt16
  ts : UInt32
  tsAck : UInt32
  deriving DecidableEq, Repr

namespace TcpSendParams

/-- The flag byte of `build_tcp`. -/
def flags (p : TcpSendParams) : UInt8 :=
  (if p.syn then 0x02 else 0) ||| (if p.psh then 0x08 else 0) ||| (if p.ack then 0x10 else 0)

/-- The options of `build_tcp`: MSS, SACK permitted, timestamps and window scale on a SYN,
timestamps behind two NOPs otherwise. -/
def options (p : TcpSendParams) : Bytes :=
  if p.syn then
    [0x02, 0x04] ++ u16ToBe synMss ++ [0x04, 0x02] ++ [0x08, 0x0a] ++ u32ToBe p.ts ++
      u32ToBe p.tsAck ++ [0x01, 0x03, 0x03, wscaleByte]
  else [0x01, 0x01, 0x08, 0x0a] ++ u32ToBe p.ts ++ u32ToBe p.tsAck

/-- `doff`. -/
def doff (p : TcpSendParams) : UInt8 := if p.syn then 10 else 8

/-- The header up to the window. -/
def head (p : TcpSendParams) : Bytes :=
  u16ToBe p.srcPort ++ u16ToBe p.dstPort ++ u32ToBe p.seq ++ u32ToBe p.ackSeq ++
    [p.doff <<< 4, p.flags] ++ u16ToBe p.window

end TcpSendParams

/-- `build_tcp`. -/
def buildTcp (src dst : IpAddr) (p : TcpSendParams) (payload : Bytes) : Except Panic Bytes := do
  let seg := p.head ++ ([0, 0] ++ ([0, 0] ++ (p.options ++ payload)))
  let pseudo ← pseudoHeader src dst ipprotoTcp seg.length
  return putU16 seg 16 (Checksum.csumWithPseudo pseudo seg)

/-- The UDP header up to its checksum. -/
def udpHead (srcPort dstPort : UInt16) (tot : Nat) : Bytes :=
  u16ToBe srcPort ++ u16ToBe dstPort ++ u16ToBe (UInt16.ofNat tot)

/-- `build_udp`: nothing for a datagram whose length field would overflow. -/
def buildUdp (src dst : IpAddr) (srcPort dstPort : UInt16) (payload : Bytes) :
    Except Panic (Option Bytes) := do
  let tot := udpHeaderLen + payload.length
  if tot > 65535 then return none
  let seg := udpHead srcPort dstPort tot ++ ([0, 0] ++ payload)
  let pseudo ← pseudoHeader src dst ipprotoUdp tot
  return some (putU16 seg 6 (Checksum.csumWithPseudo pseudo seg))

/-- The checksum `build_icmp` fills in. -/
def icmpCsum (seg : Bytes) (src dst : IpAddr) : Except Panic UInt16 :=
  if src.isIpv6 then (fun pseudo => Checksum.csumWithPseudo pseudo seg) <$>
    pseudoHeader src dst ipprotoIcmpv6 seg.length
  else .ok (Checksum.csum seg)

/-- `build_icmp`. -/
def buildIcmp (src dst : IpAddr) (isClient : Bool) (id seq : UInt16) (payload : Bytes) :
    Except Panic Bytes := do
  let seg := [echoType src.isIpv6 isClient, 0] ++ ([0, 0] ++ (u16ToBe id ++ u16ToBe seq ++ payload))
  return putU16 seg 2 (← icmpCsum seg src dst)

/-! ## Words and slices -/

/-- The two bytes of a 16-bit word. -/
theorem u16ToBe_eq (x : UInt16) : ∃ a b, u16ToBe x = [a, b] ∧ u16FromBe a b = x := by
  have hx : BigEndian.decode (u16ToBe x) = x.toNat := BigEndian.decode_encode_of_lt x.toNat_lt
  refine ⟨UInt8.ofNat (x.toNat / 256), UInt8.ofNat x.toNat, rfl, ?_⟩
  rw [u16FromBe]
  exact (congrArg UInt16.ofNat hx).trans UInt16.ofNat_toNat

/-- The four bytes of a 32-bit word. -/
theorem u32ToBe_eq (x : UInt32) : ∃ a b c d, u32ToBe x = [a, b, c, d] ∧ u32FromBe a b c d = x := by
  have hx : BigEndian.decode (u32ToBe x) = x.toNat := BigEndian.decode_encode_of_lt x.toNat_lt
  refine ⟨UInt8.ofNat (x.toNat / 256 / 256 / 256), UInt8.ofNat (x.toNat / 256 / 256),
    UInt8.ofNat (x.toNat / 256), UInt8.ofNat x.toNat, rfl, ?_⟩
  rw [u32FromBe]
  exact (congrArg UInt32.ofNat hx).trans UInt32.ofNat_toNat

/-- Writing over a zero word. -/
theorem putU16_zero {before : Bytes} {i : Nat} (h : before.length = i) (after : Bytes)
    (x : UInt16) : putU16 (before ++ ([0, 0] ++ after)) i x = before ++ (u16ToBe x ++ after) := by
  subst h
  have hdrop : (before ++ ([0, 0] ++ after)).drop (before.length + 2) = after := by
    rw [← List.append_assoc]
    exact List.drop_left' (by simp)
  rw [putU16, List.take_left, hdrop]

theorem octetsOf_toList {n : Nat} (v : Vector UInt8 n) : octetsOf n v.toList = .ok v := by
  rw [octetsOf, dif_pos (by simp)]
  cases v
  simp [Vector.toList]

/-! ## IP headers -/

variable {seg payload : Bytes} {dst src : IpAddr}

/-- A header of this layout whose checksum is right is parsed. -/
theorem parseIp_v4_layout {t₁ t₂ : UInt8} (i₁ i₂ f₁ f₂ ttl protocol c₁ c₂ : UInt8)
    (s d : Vector UInt8 4) (htot : (u16FromBe t₁ t₂).toNat = ipv4HeaderLen + seg.length)
    (hverify : Checksum.verify ([0x45, 0, t₁, t₂, i₁, i₂, f₁, f₂, ttl, protocol, c₁, c₂] ++
      (s.toList ++ d.toList)) = true) :
    parseIp ([0x45, 0, t₁, t₂, i₁, i₂, f₁, f₂, ttl, protocol, c₁, c₂] ++
        (s.toList ++ d.toList) ++ seg) false true = .ok (some
      { src := .v4 s, dst := .v4 d, protocol
        headerLen := ipv4HeaderLen, totalLen := ipv4HeaderLen + seg.length }) := by
  generalize hbuf : [0x45, 0, t₁, t₂, i₁, i₂, f₁, f₂, ttl, protocol, c₁, c₂] ++
    (s.toList ++ d.toList) ++ seg = buf
  have hlen : buf.length = ipv4HeaderLen + seg.length := by
    rw [← hbuf]
    simp [ipv4HeaderLen]
    omega
  have hempty : buf.isEmpty = false := by rw [← hbuf]; rfl
  have h0 : readAt buf 0 = .ok 0x45 := by rw [← hbuf]; rfl
  have hlenField : readU16At buf 2 = .ok (u16FromBe t₁ t₂) := by rw [← hbuf]; rfl
  have hproto : readAt buf 9 = .ok protocol := by rw [← hbuf]; rfl
  have hheader : slice buf 0 ipv4HeaderLen = .ok ([0x45, 0, t₁, t₂, i₁, i₂, f₁, f₂, ttl, protocol,
      c₁, c₂] ++ (s.toList ++ d.toList)) := by
    rw [← hbuf]
    have hlen : ([0x45, 0, t₁, t₂, i₁, i₂, f₁, f₂, ttl, protocol, c₁, c₂] ++
        (s.toList ++ d.toList)).length = ipv4HeaderLen := by simp [ipv4HeaderLen]
    exact @slice_middle _ [] _ 0 _ rfl ((Nat.zero_add _).trans hlen) seg
  have hsrc : slice buf 12 16 = .ok s.toList := by
    rw [← hbuf, List.append_assoc, List.append_assoc]
    exact slice_middle rfl (by simp) _
  have hdst : slice buf 16 20 = .ok d.toList := by
    rw [← hbuf, List.append_assoc, List.append_assoc, ← List.append_assoc]
    exact slice_middle (by simp) (by simp) _
  have hihl : ((0x45 : UInt8) &&& 0x0f).toNat * 4 = ipv4HeaderLen := by decide
  have hgood : headerCsumBad buf ipv4HeaderLen true = .ok false := by
    rw [headerCsumBad, if_pos rfl, hheader]
    exact congrArg (fun b => Except.ok (!b)) hverify
  have hcond : ¬ (buf.length < ipv4HeaderLen + seg.length ∨
      ipv4HeaderLen + seg.length < ipv4HeaderLen) := by omega
  unfold parseIp
  rw [hempty, if_neg Bool.false_ne_true, h0]
  change parseIpv4 buf 0x45 true = _
  simp only [parseIpv4, hihl]
  rw [if_neg (by decide), if_neg (by omega), if_neg (by omega)]
  simp only [hlenField, ok_bind, htot, if_neg hcond, hgood, hsrc, hdst, hproto, octetsOf_toList]
  rfl

/-- An IPv4 header is accepted with its fields, and its checksum verifies. -/
theorem parseIp_build_v4 (s d : Vector UInt8 4) (protocol ttl : UInt8) (id : UInt16)
    (hfit : ipv4HeaderLen + seg.length ≤ 65535) :
    ∃ h, buildIpHeader (.v4 s) (.v4 d) protocol ttl id seg.length = .ok h ∧
      h.length = ipv4HeaderLen ∧ Checksum.verify h = true ∧
      parseIp (h ++ seg) false true = .ok (some
        { src := .v4 s, dst := .v4 d, protocol
          headerLen := ipv4HeaderLen, totalLen := ipv4HeaderLen + seg.length }) := by
  obtain ⟨t₁, t₂, ht, htot⟩ := u16ToBe_eq (UInt16.ofNat (ipv4HeaderLen + seg.length))
  obtain ⟨i₁, i₂, hid, -⟩ := u16ToBe_eq id
  have hhead : ipv4Head (UInt16.ofNat (ipv4HeaderLen + seg.length)) id ttl protocol =
      [0x45, 0, t₁, t₂, i₁, i₂, 0x40, 0, ttl, protocol] := by
    rw [ipv4Head, ht, hid]
    rfl
  have hlenField : (u16FromBe t₁ t₂).toNat = ipv4HeaderLen + seg.length := by
    rw [htot, UInt16.toNat_ofNat', Nat.mod_eq_of_lt (by omega)]
  have hverify : Checksum.verify ([0x45, 0, t₁, t₂, i₁, i₂, 0x40, 0, ttl, protocol] ++ (u16ToBe
      (Checksum.csum ([0x45, 0, t₁, t₂, i₁, i₂, 0x40, 0, ttl, protocol] ++
        ([0, 0] ++ (s.toList ++ d.toList)))) ++ (s.toList ++ d.toList))) = true :=
    Checksum.verify_filled (by simp) (by simp)
  simp only [buildIpHeader, hhead]
  rw [@putU16_zero _ 10 rfl]
  obtain ⟨c₁, c₂, hc, -⟩ := u16ToBe_eq (Checksum.csum ([0x45, 0, t₁, t₂, i₁, i₂, 0x40, 0, ttl,
    protocol] ++ ([0, 0] ++ (s.toList ++ d.toList))))
  rw [hc] at hverify ⊢
  exact ⟨_, rfl, by simp [ipv4HeaderLen], hverify,
    parseIp_v4_layout i₁ i₂ 0x40 0 ttl protocol c₁ c₂ s d hlenField hverify⟩

/-- An IPv6 header is accepted with its fields. -/
theorem parseIp_build_v6 (s d : Vector UInt8 16) (protocol ttl : UInt8) (id : UInt16)
    (hfit : ipv6HeaderLen + seg.length ≤ 65535) :
    ∃ h, buildIpHeader (.v6 s) (.v6 d) protocol ttl id seg.length = .ok h ∧
      h.length = ipv6HeaderLen ∧
      parseIp (h ++ seg) true true = .ok (some
        { src := .v6 s, dst := .v6 d, protocol
          headerLen := ipv6HeaderLen, totalLen := ipv6HeaderLen + seg.length }) := by
  obtain ⟨t₁, t₂, ht, htot⟩ := u16ToBe_eq (UInt16.ofNat seg.length)
  have hlenField : (u16FromBe t₁ t₂).toNat = seg.length := by
    rw [htot, UInt16.toNat_ofNat', Nat.mod_eq_of_lt (by omega)]
  refine ⟨_, rfl, by simp [ipv6HeaderLen], ?_⟩
  rw [ht]
  generalize hbuf :
    [0x60, 0, 0, 0] ++ [t₁, t₂] ++ [protocol, ttl] ++ (s.toList ++ d.toList) ++ seg = buf
  have hlen : buf.length = ipv6HeaderLen + seg.length := by
    rw [← hbuf]
    simp [ipv6HeaderLen]
    omega
  have hempty : buf.isEmpty = false := by rw [← hbuf]; rfl
  have h0 : readAt buf 0 = .ok 0x60 := by rw [← hbuf]; rfl
  have hread : readU16At buf 4 = .ok (u16FromBe t₁ t₂) := by rw [← hbuf]; rfl
  have hproto : readAt buf 6 = .ok protocol := by rw [← hbuf]; rfl
  have hsrc : slice buf 8 24 = .ok s.toList := by
    have hsplit : buf = [0x60, 0, 0, 0, t₁, t₂, protocol, ttl] ++ (s.toList ++
        (d.toList ++ seg)) := by
      rw [← hbuf]
      simp
    rw [hsplit]
    exact slice_middle rfl (by simp) _
  have hdst : slice buf 24 40 = .ok d.toList := by
    have hsplit : buf = ([0x60, 0, 0, 0, t₁, t₂, protocol, ttl] ++ s.toList) ++
        (d.toList ++ seg) := by
      rw [← hbuf]
      simp
    rw [hsplit]
    exact slice_middle (by simp) (by simp) seg
  unfold parseIp
  rw [hempty, if_neg Bool.false_ne_true, h0]
  change parseIpv6 buf 0x60 = _
  unfold parseIpv6
  rw [if_neg (by decide), if_neg (by omega), hread]
  simp only [ok_bind, hlenField]
  rw [if_neg (by omega), hsrc, hdst, hproto]
  simp only [ok_bind, octetsOf_toList]
  rfl

/-! ## TCP segments -/

/-- The option walk finds the timestamps in both layouts. -/
theorem parseOptions_options (p : TcpSendParams) (t : ParsedTcp) :
    parseOptions p.options t = .ok { t with hasTs := true, ts := p.ts, tsAck := p.tsAck } := by
  obtain ⟨a₁, a₂, a₃, a₄, hts, hts'⟩ := u32ToBe_eq p.ts
  obtain ⟨b₁, b₂, b₃, b₄, hack, hack'⟩ := u32ToBe_eq p.tsAck
  rw [← hts', ← hack', TcpSendParams.options, hts, hack]
  cases p.syn with
  | false => rfl
  | true => rfl

/-- A segment by its bytes: what the parser reads where. -/
theorem parseTcp_layout {pseudo : Bytes}
    (s₁ s₂ d₁ d₂ q₁ q₂ q₃ q₄ a₁ a₂ a₃ a₄ flags w₁ w₂ c₁ c₂ : UInt8) {off : UInt8} {opt : Bytes}
    (hoff : (off >>> 4).toNat * 4 = tcpMinHeader + opt.length) (hopt : opt.length ≤ 40)
    (hpseudo : pseudoHeader src dst ipprotoTcp (tcpMinHeader + opt.length + payload.length) =
      .ok pseudo) :
    parseTcp ([s₁, s₂, d₁, d₂, q₁, q₂, q₃, q₄, a₁, a₂, a₃, a₄, off, flags, w₁, w₂, c₁, c₂, 0, 0] ++
        (opt ++ payload)) src dst =
      (do
        let t ← parseOptions opt
          { srcPort := u16FromBe s₁ s₂, dstPort := u16FromBe d₁ d₂
            seq := u32FromBe q₁ q₂ q₃ q₄, ackSeq := u32FromBe a₁ a₂ a₃ a₄
            syn := flags &&& 0x02 != 0, ack := flags &&& 0x10 != 0
            psh := flags &&& 0x08 != 0, rst := flags &&& 0x04 != 0
            headerLen := tcpMinHeader + opt.length
            csumOk := Checksum.verifyWithPseudo pseudo ([s₁, s₂, d₁, d₂, q₁, q₂, q₃, q₄, a₁, a₂, a₃,
              a₄, off, flags, w₁, w₂, c₁, c₂, 0, 0] ++ (opt ++ payload)) }
        return some (t, payload)) := by
  generalize hseg : [s₁, s₂, d₁, d₂, q₁, q₂, q₃, q₄, a₁, a₂, a₃, a₄, off, flags, w₁, w₂, c₁, c₂,
    0, 0] ++ (opt ++ payload) = seg
  have hlen : seg.length = tcpMinHeader + opt.length + payload.length := by
    rw [← hseg]
    simp [tcpMinHeader]
    omega
  have hopts : slice seg tcpMinHeader (tcpMinHeader + opt.length) = .ok opt := by
    rw [← hseg]
    exact slice_middle rfl rfl payload
  have hdata : sliceFrom seg (tcpMinHeader + opt.length) = .ok payload := by
    rw [sliceFrom_eq_ok (by omega), ← hseg, ← List.append_assoc,
      List.drop_left' (by simp [tcpMinHeader]; omega)]
  have h12 : readAt seg 12 = .ok off := by rw [← hseg]; rfl
  have h13 : readAt seg 13 = .ok flags := by rw [← hseg]; rfl
  have hsrc : readU16At seg 0 = .ok (u16FromBe s₁ s₂) := by rw [← hseg]; rfl
  have hdst : readU16At seg 2 = .ok (u16FromBe d₁ d₂) := by rw [← hseg]; rfl
  have hfour : sliceFrom seg 4 = .ok (seg.drop 4) :=
    sliceFrom_eq_ok (by rw [hlen, tcpMinHeader]; omega)
  have height : sliceFrom seg 8 = .ok (seg.drop 8) :=
    sliceFrom_eq_ok (by rw [hlen, tcpMinHeader]; omega)
  have hseq : readU32Be (seg.drop 4) = .ok (u32FromBe q₁ q₂ q₃ q₄) := by rw [← hseg]; rfl
  have hack : readU32Be (seg.drop 8) = .ok (u32FromBe a₁ a₂ a₃ a₄) := by rw [← hseg]; rfl
  rw [← hlen] at hpseudo
  unfold parseTcp
  rw [if_neg (by omega), h12]
  simp only [ok_bind, hoff]
  rw [if_neg (by rw [hlen]; simp only [tcpMinHeader]; omega), hpseudo]
  simp only [ok_bind, h13, hsrc, hdst, hfour, hseq, height, hack, hopts, hdata]

/-- The flags that are set are the flags that are read. -/
theorem TcpSendParams.flags_bits (p : TcpSendParams) :
    (p.flags &&& 0x02 != 0) = p.syn ∧ (p.flags &&& 0x10 != 0) = p.ack ∧
      (p.flags &&& 0x08 != 0) = p.psh ∧ (p.flags &&& 0x04 != 0) = false := by
  unfold TcpSendParams.flags
  cases p.syn <;> cases p.ack <;> cases p.psh <;> decide

/-- A segment that was built is parsed with its fields, its timestamps and its payload, and its
checksum verifies. -/
theorem parseTcp_buildTcp {src dst : IpAddr} (hfam : src.isIpv6 = dst.isIpv6) (p : TcpSendParams)
    {payload : Bytes} (hfit : payload.length ≤ 65535) :
    ∃ seg pseudo, buildTcp src dst p payload = .ok seg ∧
      seg.length = tcpMinHeader + p.options.length + payload.length ∧
      pseudoHeader src dst ipprotoTcp seg.length = .ok pseudo ∧
      Checksum.verifyWithPseudo pseudo seg = true ∧
      parseTcp seg src dst = .ok (some
        ({ srcPort := p.srcPort, dstPort := p.dstPort, seq := p.seq, ackSeq := p.ackSeq
           syn := p.syn, ack := p.ack, psh := p.psh, rst := false
           hasTs := true, ts := p.ts, tsAck := p.tsAck
           headerLen := tcpMinHeader + p.options.length, csumOk := true }, payload)) := by
  obtain ⟨s₁, s₂, hs, hs'⟩ := u16ToBe_eq p.srcPort
  obtain ⟨d₁, d₂, hd, hd'⟩ := u16ToBe_eq p.dstPort
  obtain ⟨q₁, q₂, q₃, q₄, hq, hq'⟩ := u32ToBe_eq p.seq
  obtain ⟨a₁, a₂, a₃, a₄, ha, ha'⟩ := u32ToBe_eq p.ackSeq
  obtain ⟨w₁, w₂, hw, -⟩ := u16ToBe_eq p.window
  have hhead : p.head = [s₁, s₂, d₁, d₂, q₁, q₂, q₃, q₄, a₁, a₂, a₃, a₄, p.doff <<< 4, p.flags,
      w₁, w₂] := by
    rw [TcpSendParams.head, hs, hd, hq, ha, hw]
    rfl
  have hoptLen : p.options.length ≤ 40 ∧
      ((p.doff <<< 4) >>> 4).toNat * 4 = tcpMinHeader + p.options.length := by
    unfold TcpSendParams.options TcpSendParams.doff
    cases p.syn <;> simp [tcpMinHeader]
  have hlen : ∀ x, (p.head ++ (u16ToBe x ++ ([0, 0] ++ (p.options ++ payload)))).length =
      tcpMinHeader + p.options.length + payload.length := fun x => by
    simp [hhead, tcpMinHeader]
    omega
  have hzero : (p.head ++ ([0, 0] ++ ([0, 0] ++ (p.options ++ payload)))).length =
      tcpMinHeader + p.options.length + payload.length := hlen 0
  obtain ⟨pseudo, hpseudo, -⟩ := pseudoHeader_returns hfam ipprotoTcp
    (tcpMinHeader + p.options.length + payload.length)
  have hplen := length_pseudoHeader hpseudo
  have hlen16 : p.head.length = 16 := by rw [hhead]; rfl
  have hverify := @Checksum.verifyWithPseudo_filled pseudo p.head
    ([0, 0] ++ (p.options ++ payload)) (by rw [hlen16]; decide)
    (by simp only [hlen16, List.length_append, List.length_cons, List.length_nil]; omega)
  generalize hc : Checksum.csumWithPseudo pseudo
    (p.head ++ ([0, 0] ++ ([0, 0] ++ (p.options ++ payload)))) = c at hverify
  refine ⟨p.head ++ (u16ToBe c ++ ([0, 0] ++ (p.options ++ payload))), pseudo, ?_, hlen c,
    by rw [hlen, hpseudo], hverify, ?_⟩
  · rw [buildTcp, hzero, hpseudo]
    simp only [ok_bind, hc, putU16_zero hlen16]
    rfl
  · obtain ⟨c₁, c₂, hc', -⟩ := u16ToBe_eq c
    obtain ⟨hsyn, hack, hpsh, hrst⟩ := p.flags_bits
    rw [hhead, hc'] at hverify ⊢
    refine (parseTcp_layout s₁ s₂ d₁ d₂ q₁ q₂ q₃ q₄ a₁ a₂ a₃ a₄ p.flags w₁ w₂ c₁ c₂ hoptLen.2
      hoptLen.1 hpseudo).trans ?_
    rw [parseOptions_options]
    simp only [ok_bind, hs', hd', hq', ha', hsyn, hack, hpsh, hrst]
    have hcsum : Checksum.verifyWithPseudo pseudo ([s₁, s₂, d₁, d₂, q₁, q₂, q₃, q₄, a₁, a₂, a₃, a₄,
        p.doff <<< 4, p.flags, w₁, w₂, c₁, c₂, 0, 0] ++ (p.options ++ payload)) = true := hverify
    rw [hcsum]
    rfl

/-! ## UDP datagrams and echo packets -/

/-- A datagram that was built is parsed with its ports and its payload, and its checksum
verifies. -/
theorem parseUdp_buildUdp (hfam : src.isIpv6 = dst.isIpv6) (srcPort dstPort : UInt16)
    (hfit : udpHeaderLen + payload.length ≤ 65535) :
    ∃ seg pseudo, buildUdp src dst srcPort dstPort payload = .ok (some seg) ∧
      seg.length = udpHeaderLen + payload.length ∧
      pseudoHeader src dst ipprotoUdp seg.length = .ok pseudo ∧
      Checksum.verifyWithPseudo pseudo seg = true ∧
      parseUdp seg src dst = .ok (some (srcPort, dstPort, payload)) := by
  obtain ⟨s₁, s₂, hs, hs'⟩ := u16ToBe_eq srcPort
  obtain ⟨d₁, d₂, hd, hd'⟩ := u16ToBe_eq dstPort
  obtain ⟨t₁, t₂, ht, ht'⟩ := u16ToBe_eq (UInt16.ofNat (udpHeaderLen + payload.length))
  have htot : (u16FromBe t₁ t₂).toNat = udpHeaderLen + payload.length := by
    rw [ht', UInt16.toNat_ofNat', Nat.mod_eq_of_lt (by omega)]
  have hhead : udpHead srcPort dstPort (udpHeaderLen + payload.length) =
      [s₁, s₂, d₁, d₂, t₁, t₂] := by
    rw [udpHead, hs, hd, ht]
    rfl
  obtain ⟨pseudo, hpseudo, -⟩ :=
    pseudoHeader_returns hfam ipprotoUdp (udpHeaderLen + payload.length)
  have hplen := length_pseudoHeader hpseudo
  have hverify := @Checksum.verifyWithPseudo_filled pseudo [s₁, s₂, d₁, d₂, t₁, t₂] payload
    (by simp) (by simp only [List.length_cons, List.length_nil]; omega)
  generalize hc : Checksum.csumWithPseudo pseudo ([s₁, s₂, d₁, d₂, t₁, t₂] ++ ([0, 0] ++ payload)) =
    c at hverify
  obtain ⟨c₁, c₂, hc', -⟩ := u16ToBe_eq c
  have hlen : ([s₁, s₂, d₁, d₂, t₁, t₂] ++ (u16ToBe c ++ payload)).length =
      udpHeaderLen + payload.length := by
    simp [udpHeaderLen]
    omega
  refine ⟨[s₁, s₂, d₁, d₂, t₁, t₂] ++ (u16ToBe c ++ payload), pseudo, ?_, hlen, ?_, hverify, ?_⟩
  · simp only [buildUdp, hhead]
    rw [if_neg (by omega), hpseudo]
    simp only [ok_bind, hc, @putU16_zero [s₁, s₂, d₁, d₂, t₁, t₂] 6 rfl]
    rfl
  · rw [hlen, hpseudo]
  · unfold parseUdp
    rw [hlen, if_neg (by omega), hpseudo]
    rw [hc'] at hverify ⊢
    have hlenField : readU16At ([s₁, s₂, d₁, d₂, t₁, t₂] ++ ([c₁, c₂] ++ payload)) 4 =
        .ok (u16FromBe t₁ t₂) := rfl
    rw [hlenField]
    simp only [ok_bind, htot, hverify]
    rw [if_neg (not_not.mpr rfl), sliceFrom_eq_ok (by rw [← hc', hlen]; omega), ← hs', ← hd']
    rfl

/-- The echo checksum of either family verifies once it is filled in. -/
theorem icmpCsumOk_filled {src dst : IpAddr} (hfam : src.isIpv6 = dst.isIpv6) {before after : Bytes}
    (heven : 2 ∣ before.length) (hfit : before.length + after.length ≤ 130000) :
    ∃ c, icmpCsum (before ++ ([0, 0] ++ after)) src dst = .ok c ∧
      icmpCsumOk (before ++ (u16ToBe c ++ after)) src dst = .ok true := by
  unfold icmpCsum icmpCsumOk
  cases src.isIpv6 with
  | false =>
    refine ⟨_, rfl, ?_⟩
    exact congrArg Except.ok (Checksum.verify_filled heven (by omega))
  | true =>
    obtain ⟨pseudo, hpseudo, -⟩ := pseudoHeader_returns hfam ipprotoIcmpv6
      (before ++ ([0, 0] ++ after)).length
    have hplen := length_pseudoHeader hpseudo
    have hverify := @Checksum.verifyWithPseudo_filled pseudo before after heven (by omega)
    have hsame : ∀ x, (before ++ (u16ToBe x ++ after)).length =
        (before ++ ([0, 0] ++ after)).length := fun x => by simp; omega
    refine ⟨_, by rw [hpseudo]; rfl, ?_⟩
    simp only [hsame, hpseudo]
    exact congrArg Except.ok hverify

/-- An echo packet that was built is parsed by the opposite role with its id, its sequence
number and its payload, and its checksum verifies. -/
theorem parseIcmp_buildIcmp (hfam : src.isIpv6 = dst.isIpv6) (isClient : Bool) (id seq : UInt16)
    (hfit : icmpHeaderLen + payload.length ≤ 65535) :
    ∃ seg, buildIcmp src dst isClient id seq payload = .ok seg ∧
      seg.length = icmpHeaderLen + payload.length ∧ icmpCsumOk seg src dst = .ok true ∧
      parseIcmp seg src dst (!isClient) = .ok (some
        ({ ptype := echoType src.isIpv6 isClient, id, seq }, payload)) := by
  obtain ⟨i₁, i₂, hid, hid'⟩ := u16ToBe_eq id
  obtain ⟨q₁, q₂, hseq, hseq'⟩ := u16ToBe_eq seq
  simp only [buildIcmp, hid, hseq]
  obtain ⟨c, hcsum, hok⟩ := @icmpCsumOk_filled src dst hfam [echoType src.isIpv6 isClient, 0]
    ([i₁, i₂] ++ [q₁, q₂] ++ payload) (by simp) (by simp [icmpHeaderLen] at hfit ⊢; omega)
  obtain ⟨c₁, c₂, hc, -⟩ := u16ToBe_eq c
  refine ⟨[echoType src.isIpv6 isClient, 0] ++ (u16ToBe c ++ ([i₁, i₂] ++ [q₁, q₂] ++ payload)),
    ?_, by simp [icmpHeaderLen]; omega, hok, ?_⟩
  · rw [hcsum]
    simp only [ok_bind, @putU16_zero [echoType src.isIpv6 isClient, 0] 2 rfl]
    rfl
  · rw [hc] at hok ⊢
    have htype : readAt ([echoType src.isIpv6 isClient, 0] ++ ([c₁, c₂] ++ ([i₁, i₂] ++ [q₁, q₂] ++
        payload))) 0 = .ok (echoType src.isIpv6 isClient) := rfl
    have hcode : readAt ([echoType src.isIpv6 isClient, 0] ++ ([c₁, c₂] ++ ([i₁, i₂] ++ [q₁, q₂] ++
        payload))) 1 = .ok 0 := rfl
    unfold parseIcmp
    rw [if_neg (by simp [icmpHeaderLen]), htype, hcode]
    simp only [ok_bind, hok, Bool.not_not]
    rw [if_neg (not_not.mpr rfl), if_neg (not_not.mpr rfl),
      sliceFrom_eq_ok (by simp [icmpHeaderLen]), ← hid', ← hseq']
    rfl

end Udp2raw
