import Udp2raw.Packet.Ip

/-!
# Raw UDP datagrams and ICMP echo packets

Both parsers check the length before the first index and refuse a segment whose
checksum fails. They return on every segment.
-/

namespace Udp2raw

open Checked

/-- `UDP_HEADER_LEN`. -/
def udpHeaderLen : Nat := 8

/-- `ICMP_HEADER_LEN`. -/
def icmpHeaderLen : Nat := 8

/-- `parse_udp`: source port, destination port and payload. -/
def parseUdp (seg : Bytes) (src dst : IpAddr) :
    Except Panic (Option (UInt16 × UInt16 × Bytes)) := do
  if seg.length < udpHeaderLen then return none
  let len := (← readU16At seg 4).toNat
  if len ≠ seg.length then return none
  let pseudo ← pseudoHeader src dst ipprotoUdp seg.length
  if !Checksum.verifyWithPseudo pseudo seg then return none
  return some (← readU16At seg 0, ← readU16At seg 2, ← sliceFrom seg udpHeaderLen)

variable {dst src : IpAddr}

/-- Parsing UDP never panics. -/
theorem parseUdp_returns (seg : Bytes) (hfam : src.isIpv6 = dst.isIpv6) :
    Returns (parseUdp seg src dst) fun _ => True := by
  unfold parseUdp
  refine returns_ite (fun _ => returns_ok trivial) fun hlen => ?_
  simp only [udpHeaderLen] at hlen ⊢
  refine (readU16At_returns (by omega)).bind fun len _ => ?_
  refine returns_ite (fun _ => returns_ok trivial) fun _ => ?_
  refine (pseudoHeader_returns hfam _ _).bind fun pseudo _ => ?_
  refine returns_ite (fun _ => returns_ok trivial) fun _ => ?_
  refine (readU16At_returns (by omega)).bind fun srcPort _ => ?_
  refine (readU16At_returns (by omega)).bind fun dstPort _ => ?_
  exact (sliceFrom_returns (by omega)).bind fun data _ => returns_ok trivial

/-- `echo_type`: the client sends requests, the server replies. -/
def echoType : (isV6 isClient : Bool) → UInt8
  | false, true => 8
  | false, false => 0
  | true, true => 128
  | true, false => 129

/-- The header fields of a received echo packet. -/
structure ParsedIcmp where
  ptype : UInt8
  id : UInt16
  seq : UInt16
  deriving DecidableEq, Repr

/-- The checksum of an echo packet; only ICMPv6 covers a pseudo header. -/
def icmpCsumOk (seg : Bytes) (src dst : IpAddr) : Except Panic Bool :=
  if src.isIpv6 then (fun pseudo => Checksum.verifyWithPseudo pseudo seg) <$>
    pseudoHeader src dst ipprotoIcmpv6 seg.length
  else .ok (Checksum.verify seg)

theorem icmpCsumOk_returns (seg : Bytes) (hfam : src.isIpv6 = dst.isIpv6) :
    Returns (icmpCsumOk seg src dst) fun _ => True := by
  refine returns_ite (fun _ => ?_) fun _ => returns_ok trivial
  obtain ⟨pseudo, hp, -⟩ := pseudoHeader_returns hfam ipprotoIcmpv6 seg.length
  rw [hp]
  exact returns_ok trivial

/-- `parse_icmp`: an echo packet of the peer's type (`isClient` is our role). -/
def parseIcmp (seg : Bytes) (src dst : IpAddr) (isClient : Bool) :
    Except Panic (Option (ParsedIcmp × Bytes)) := do
  if seg.length < icmpHeaderLen then return none
  let ptype ← readAt seg 0
  if (← readAt seg 1) ≠ 0 then return none
  if ptype ≠ echoType src.isIpv6 !isClient then return none
  if !(← icmpCsumOk seg src dst) then return none
  let id ← readU16At seg 4
  let seq ← readU16At seg 6
  return some ({ ptype, id, seq }, ← sliceFrom seg icmpHeaderLen)

/-- Parsing ICMP never panics. -/
theorem parseIcmp_returns (seg : Bytes) (hfam : src.isIpv6 = dst.isIpv6) (isClient : Bool) :
    Returns (parseIcmp seg src dst isClient) fun _ => True := by
  unfold parseIcmp
  refine returns_ite (fun _ => returns_ok trivial) fun hlen => ?_
  simp only [icmpHeaderLen] at hlen ⊢
  refine (readAt_returns (by omega)).bind fun ptype _ => ?_
  refine (readAt_returns (by omega)).bind fun code _ => ?_
  refine returns_ite (fun _ => returns_ok trivial) fun _ => ?_
  refine returns_ite (fun _ => returns_ok trivial) fun _ => ?_
  refine (icmpCsumOk_returns seg hfam).bind fun ok _ => ?_
  refine returns_ite (fun _ => returns_ok trivial) fun _ => ?_
  refine (readU16At_returns (by omega)).bind fun id _ => ?_
  refine (readU16At_returns (by omega)).bind fun seq _ => ?_
  exact (sliceFrom_returns (by omega)).bind fun data _ => returns_ok trivial

/-! ## Where the fields come from -/

/-- The ports stand in the header. -/
theorem parseUdp_fields {seg data : Bytes} {sp dp : UInt16}
    (h : parseUdp seg src dst = .ok (some (sp, dp, data))) :
    udpHeaderLen ≤ seg.length ∧ readU16At seg 0 = .ok sp ∧ readU16At seg 2 = .ok dp := by
  unfold parseUdp at h
  split_ifs at h with hlen
  · cases h
  obtain ⟨len, _, h⟩ := bind_eq_ok.mp h
  dsimp only at h
  split_ifs at h
  · cases h
  obtain ⟨pseudo, _, h⟩ := bind_eq_ok.mp h
  split_ifs at h
  · cases h
  obtain ⟨sp', hsp, h⟩ := bind_eq_ok.mp h
  obtain ⟨dp', hdp, h⟩ := bind_eq_ok.mp h
  obtain ⟨data', _, h⟩ := bind_eq_ok.mp h
  cases h
  exact ⟨Nat.not_lt.mp hlen, hsp, hdp⟩

/-- The id stands in the header. -/
theorem parseIcmp_fields {seg data : Bytes} {isClient : Bool} {hd : ParsedIcmp}
    (h : parseIcmp seg src dst isClient = .ok (some (hd, data))) :
    icmpHeaderLen ≤ seg.length ∧ readU16At seg 4 = .ok hd.id := by
  unfold parseIcmp at h
  split_ifs at h with hlen
  · cases h
  obtain ⟨ptype, _, h⟩ := bind_eq_ok.mp h
  obtain ⟨code, _, h⟩ := bind_eq_ok.mp h
  split_ifs at h
  · cases h
  · cases h
  obtain ⟨ok, _, h⟩ := bind_eq_ok.mp h
  split_ifs at h
  · cases h
  obtain ⟨id, hid, h⟩ := bind_eq_ok.mp h
  obtain ⟨seq, _, h⟩ := bind_eq_ok.mp h
  obtain ⟨data', _, h⟩ := bind_eq_ok.mp h
  cases h
  exact ⟨Nat.not_lt.mp hlen, hid⟩

end Udp2raw
