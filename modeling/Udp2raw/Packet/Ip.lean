import Udp2raw.Packet.Checksum

/-!
# IP headers

Parsing follows the source branch by branch: the version, the header length and
the total length are read from the packet, and every later slice is taken with
the bounds those bytes give. A parsed header always delimits a slice of the
buffer it came from, and both of its addresses are of the expected family.
-/

namespace Udp2raw

open Checked

/-- `IPV4_HEADER_LEN`. -/
def ipv4HeaderLen : Nat := 20
/-- `IPV6_HEADER_LEN`. -/
def ipv6HeaderLen : Nat := 40

/-- `IPPROTO_ICMP`. -/
def ipprotoIcmp : UInt8 := 1
/-- `IPPROTO_TCP`. -/
def ipprotoTcp : UInt8 := 6
/-- `IPPROTO_UDP`. -/
def ipprotoUdp : UInt8 := 17
/-- `IPPROTO_ICMPV6`. -/
def ipprotoIcmpv6 : UInt8 := 58

/-- An address of either family, by its octets. -/
inductive IpAddr where
  | v4 (octets : Vector UInt8 4)
  | v6 (octets : Vector UInt8 16)
  deriving DecidableEq, Repr

/-- `IpAddr::is_ipv6`. -/
def IpAddr.isIpv6 : IpAddr → Bool
  | .v4 _ => false
  | .v6 _ => true

/-- `<[u8; n]>::try_from(slice).unwrap()`. -/
def octetsOf (n : Nat) (xs : Bytes) : Except Panic (Vector UInt8 n) :=
  if h : xs.length = n then .ok ⟨xs.toArray, by simpa using h⟩ else .error .unwrap

theorem octetsOf_returns {n : Nat} {xs : Bytes} (h : xs.length = n) :
    Returns (octetsOf n xs) fun _ => True :=
  ⟨⟨xs.toArray, by simpa using h⟩, by rw [octetsOf, dif_pos h], trivial⟩

/-- What an IP header says about the packet it opens. -/
structure ParsedIp where
  src : IpAddr
  dst : IpAddr
  protocol : UInt8
  headerLen : Nat
  /-- End of the IP packet inside the buffer. -/
  totalLen : Nat
  deriving DecidableEq, Repr

/-- `ParsedIp::payload`: `&buf[self.header_len..self.total_len]`. -/
def ParsedIp.payload (ip : ParsedIp) (buf : Bytes) : Except Panic Bytes :=
  slice buf ip.headerLen ip.totalLen

/-- `verify_csum && !checksum::verify(&buf[..ihl])`: the header is only sliced when its
checksum is asked for. -/
def headerCsumBad (buf : Bytes) (ihl : Nat) (verifyCsum : Bool) : Except Panic Bool :=
  if verifyCsum then (fun header => !Checksum.verify header) <$> slice buf 0 ihl else .ok false

variable {buf : Bytes} {ip : ParsedIp}

theorem headerCsumBad_returns {ihl : Nat} (h : ihl ≤ buf.length) (verifyCsum : Bool) :
    Returns (headerCsumBad buf ihl verifyCsum) fun _ => True := by
  refine returns_ite (fun _ => ?_) fun _ => returns_ok trivial
  rw [slice_eq_ok (Nat.zero_le _) h]
  exact returns_ok trivial

/-- The IPv4 branch of `parse_ip`, entered with the first byte already read. -/
def parseIpv4 (buf : Bytes) (b0 : UInt8) (verifyCsum : Bool) : Except Panic (Option ParsedIp) := do
  if b0 >>> 4 ≠ 4 then return none
  if buf.length < ipv4HeaderLen then return none
  let ihl := (b0 &&& 0x0f).toNat * 4
  if ihl < ipv4HeaderLen ∨ ihl > buf.length then return none
  let totLen := (← readU16At buf 2).toNat
  if buf.length < totLen ∨ totLen < ihl then return none
  if ← headerCsumBad buf ihl verifyCsum then return none
  let src ← octetsOf 4 (← slice buf 12 16)
  let dst ← octetsOf 4 (← slice buf 16 20)
  let protocol ← readAt buf 9
  return some { src := .v4 src, dst := .v4 dst, protocol, headerLen := ihl, totalLen := totLen }

/-- The IPv6 branch of `parse_ip`; extension headers are not interpreted. -/
def parseIpv6 (buf : Bytes) (b0 : UInt8) : Except Panic (Option ParsedIp) := do
  if b0 >>> 4 ≠ 6 then return none
  if buf.length < ipv6HeaderLen then return none
  let payloadLen := (← readU16At buf 4).toNat
  let tot := ipv6HeaderLen + payloadLen
  if buf.length < tot then return none
  let src ← octetsOf 16 (← slice buf 8 24)
  let dst ← octetsOf 16 (← slice buf 24 40)
  let protocol ← readAt buf 6
  return some
    { src := .v6 src, dst := .v6 dst, protocol, headerLen := ipv6HeaderLen, totalLen := tot }

/-- `parse_ip`: an IP header of the expected version. -/
def parseIp (buf : Bytes) (wantV6 verifyCsum : Bool) : Except Panic (Option ParsedIp) := do
  if buf.isEmpty then return none
  let b0 ← readAt buf 0
  if !wantV6 then parseIpv4 buf b0 verifyCsum else parseIpv6 buf b0

/-- A parsed header delimits a slice of `buf` and carries one family twice. -/
structure ParsedIp.Fits (ip : ParsedIp) (buf : Bytes) (v6 : Bool) : Prop where
  order : ip.headerLen ≤ ip.totalLen
  stop : ip.totalLen ≤ buf.length
  src : ip.src.isIpv6 = v6
  dst : ip.dst.isIpv6 = v6

/-- Parsing never panics, and what is parsed fits. -/
theorem parseIpv4_returns (buf : Bytes) (b0 : UInt8) (verifyCsum : Bool) :
    Returns (parseIpv4 buf b0 verifyCsum) fun r => ∀ ip, r = some ip → ip.Fits buf false := by
  have hnone : Returns (.ok none : Except Panic (Option ParsedIp))
      fun r => ∀ ip, r = some ip → ip.Fits buf false := returns_ok (by simp)
  unfold parseIpv4
  refine returns_ite (fun _ => hnone) fun _ => returns_ite (fun _ => hnone) fun hlen => ?_
  refine returns_ite (fun _ => hnone) fun hihl => ?_
  simp only [ipv4HeaderLen] at hlen hihl
  refine (readU16At_returns (by omega)).bind fun tot _ => ?_
  refine returns_ite (fun _ => hnone) fun htot => ?_
  refine (headerCsumBad_returns (by omega) verifyCsum).bind fun bad _ => ?_
  refine returns_ite (fun _ => hnone) fun _ => ?_
  refine (slice_returns (by omega) (by omega)).bind fun s hs => ?_
  refine (octetsOf_returns hs).bind fun src _ => ?_
  refine (slice_returns (by omega) (by omega)).bind fun d hd => ?_
  refine (octetsOf_returns hd).bind fun dst _ => ?_
  refine (readAt_returns (by omega)).bind fun protocol _ => returns_ok ?_
  rintro ip h
  cases h
  exact ⟨by simp only; omega, by simp only; omega, rfl, rfl⟩

/-- Parsing IPv6 never panics, and what is parsed fits. -/
theorem parseIpv6_returns (buf : Bytes) (b0 : UInt8) :
    Returns (parseIpv6 buf b0) fun r => ∀ ip, r = some ip → ip.Fits buf true := by
  have hnone : Returns (.ok none : Except Panic (Option ParsedIp))
      fun r => ∀ ip, r = some ip → ip.Fits buf true := returns_ok (by simp)
  unfold parseIpv6
  refine returns_ite (fun _ => hnone) fun _ => returns_ite (fun _ => hnone) fun hlen => ?_
  simp only [ipv6HeaderLen] at hlen
  refine (readU16At_returns (by omega)).bind fun len _ => ?_
  refine returns_ite (fun _ => hnone) fun htot => ?_
  refine (slice_returns (by omega) (by omega)).bind fun s hs => ?_
  refine (octetsOf_returns hs).bind fun src _ => ?_
  refine (slice_returns (by omega) (by omega)).bind fun d hd => ?_
  refine (octetsOf_returns hd).bind fun dst _ => ?_
  refine (readAt_returns (by omega)).bind fun protocol _ => returns_ok ?_
  rintro ip h
  cases h
  exact ⟨by simp only; omega, by simp only; omega, rfl, rfl⟩

/-- `parse_ip` returns on every buffer, and an accepted header fits it. -/
theorem parseIp_returns (buf : Bytes) (wantV6 verifyCsum : Bool) :
    Returns (parseIp buf wantV6 verifyCsum)
      fun r => ∀ ip, r = some ip → ip.Fits buf wantV6 := by
  unfold parseIp
  refine returns_ite (fun _ => returns_ok (by simp)) fun hne => ?_
  have hpos : 0 < buf.length := List.length_pos_of_ne_nil (by simpa using hne)
  refine (readAt_returns hpos).bind fun b0 _ => ?_
  cases wantV6 with
  | false => exact parseIpv4_returns buf b0 verifyCsum
  | true => exact parseIpv6_returns buf b0

/-- The transport segment of an accepted packet is always a slice of the buffer. -/
theorem ParsedIp.Fits.payload_returns {v6 : Bool} (h : ip.Fits buf v6) :
    Returns (ip.payload buf) fun seg => seg.length = ip.totalLen - ip.headerLen :=
  slice_returns h.order h.stop

/-- What the header of an accepted packet says about its bytes. -/
structure ParsedIp.Reads (ip : ParsedIp) (buf : Bytes) (v6 : Bool) : Prop where
  protocol : buf[if v6 then 6 else 9]? = some ip.protocol
  headerLen : if v6 then ip.headerLen = ipv6HeaderLen else
    ∃ b0, buf[0]? = some b0 ∧ ip.headerLen = (b0 &&& 0x0f).toNat * 4

/-- What is parsed stands in the header. -/
theorem parseIpv4_reads {b0 : UInt8} (hb0 : buf[0]? = some b0)
    (h : parseIpv4 buf b0 true = .ok (some ip)) :
    ip.Reads buf false ∧ parseIpv4 buf b0 false = .ok (some ip) := by
  unfold parseIpv4 at h ⊢
  split at h
  · cases h
  rename_i hversion
  split at h
  · cases h
  rename_i hlen
  dsimp only at h ⊢
  split at h
  · cases h
  rename_i hihl
  obtain ⟨tot, htot, h⟩ := bind_eq_ok.mp h
  split at h
  · cases h
  rename_i hfit
  obtain ⟨bad, _, h⟩ := bind_eq_ok.mp h
  split at h
  · cases h
  rw [if_neg hversion, if_neg hlen, if_neg hihl, htot, ok_bind, if_neg hfit]
  refine ⟨?_, h⟩
  obtain ⟨s, _, h⟩ := bind_eq_ok.mp h
  obtain ⟨src, _, h⟩ := bind_eq_ok.mp h
  obtain ⟨d, _, h⟩ := bind_eq_ok.mp h
  obtain ⟨dst, _, h⟩ := bind_eq_ok.mp h
  obtain ⟨protocol, hprotocol, h⟩ := bind_eq_ok.mp h
  cases h
  exact ⟨readAt_eq_ok_iff.mp hprotocol, b0, hb0, rfl⟩

/-- What is parsed stands in the IPv6 header. -/
theorem parseIpv6_reads {b0 : UInt8} (h : parseIpv6 buf b0 = .ok (some ip)) :
    ip.Reads buf true := by
  unfold parseIpv6 at h
  split at h
  · cases h
  split at h
  · cases h
  obtain ⟨len, _, h⟩ := bind_eq_ok.mp h
  dsimp only at h
  split at h
  · cases h
  obtain ⟨s, _, h⟩ := bind_eq_ok.mp h
  obtain ⟨src, _, h⟩ := bind_eq_ok.mp h
  obtain ⟨d, _, h⟩ := bind_eq_ok.mp h
  obtain ⟨dst, _, h⟩ := bind_eq_ok.mp h
  obtain ⟨protocol, hprotocol, h⟩ := bind_eq_ok.mp h
  cases h
  exact ⟨readAt_eq_ok_iff.mp hprotocol, rfl⟩

/-- An accepted packet is accepted without its checksum as well. -/
theorem parseIp_reads {v6 : Bool} (h : parseIp buf v6 true = .ok (some ip)) :
    ip.Reads buf v6 ∧ parseIp buf v6 false = .ok (some ip) := by
  unfold parseIp at h ⊢
  split at h
  · cases h
  rename_i hempty
  rw [if_neg hempty]
  obtain ⟨b0, hb0, h⟩ := bind_eq_ok.mp h
  rw [hb0, ok_bind]
  cases v6 with
  | false => exact parseIpv4_reads (readAt_eq_ok_iff.mp hb0) h
  | true => exact ⟨parseIpv6_reads h, h⟩

/-- `pseudo_header`: the transport pseudo header of either family. -/
def pseudoHeader (src dst : IpAddr) (protocol : UInt8) (transportLen : Nat) : Except Panic Bytes :=
  let be := BigEndian.encode 2 transportLen
  match src, dst with
  | .v4 s, .v4 d => .ok (s.toList ++ d.toList ++ [0, protocol] ++ be)
  -- the length sits in the first half of its 32-bit field, as the C++ stores it
  | .v6 s, .v6 d => .ok (s.toList ++ d.toList ++ be ++ [0, 0] ++ [0, 0, 0] ++ [protocol])
  | _, _ => .error .explicit

/-- Addresses of one family always have a pseudo header. -/
theorem pseudoHeader_returns {src dst : IpAddr} (h : src.isIpv6 = dst.isIpv6)
    (protocol : UInt8) (n : Nat) : Returns (pseudoHeader src dst protocol n) fun _ => True := by
  cases src with
  | v4 s =>
    cases dst with
    | v4 d => exact ⟨_, rfl, trivial⟩
    | v6 d => simp [IpAddr.isIpv6] at h
  | v6 s =>
    cases dst with
    | v4 d => simp [IpAddr.isIpv6] at h
    | v6 d => exact ⟨_, rfl, trivial⟩

/-- A pseudo header is short. -/
theorem length_pseudoHeader {src dst : IpAddr} {protocol : UInt8} {n : Nat} {pseudo : Bytes}
    (h : pseudoHeader src dst protocol n = .ok pseudo) : pseudo.length ≤ 40 := by
  cases src with
  | v4 s =>
    cases dst with
    | v4 d => cases h; simp
    | v6 d => cases h
  | v6 s =>
    cases dst with
    | v4 d => cases h
    | v6 d => cases h; simp

end Udp2raw
