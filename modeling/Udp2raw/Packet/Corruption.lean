import Udp2raw.Packet.Datagram
import Udp2raw.Packet.Rfc1071

/-!
# Corrupted bytes

A packet that verifies has a word sum that is a multiple of 65535. Changing one
byte moves the sum by less than that, so the packet no longer verifies, and every
parser that checks the sum refuses it. A changed length field is refused before
the sum is taken over another number of bytes.
-/

namespace Udp2raw

open Checked

namespace Checksum

open OnesComplement

theorem verifyWithPseudo_iff {pseudo data : Bytes} (h : wordSum pseudo + wordSum data < 2 ^ 32) :
    verifyWithPseudo pseudo data = true ↔ reduce (wordSum pseudo + wordSum data) = 65535 := by
  have hle := reduce_le (wordSum pseudo + wordSum data)
  rw [verifyWithPseudo, beq_iff_eq, ← UInt16.toNat_inj, toNat_csumWithPseudo h, UInt16.toNat_zero]
  omega

/-- Data that verifies does not with one byte changed. -/
theorem verifyWithPseudo_set {pseudo data : Bytes} {i : Nat} {v : UInt8} (hp : pseudo.length ≤ 40)
    (hd : data.length ≤ 65575) (h : verifyWithPseudo pseudo data = true) (hi : i < data.length)
    (hne : v ≠ data[i]) : verifyWithPseudo pseudo (data.set i v) = false := by
  have hfits := wordSum_fits hp hd
  have hfitsSet : wordSum pseudo + wordSum (data.set i v) < 2 ^ 32 :=
    wordSum_fits hp (by rwa [List.length_set])
  have hdvd := dvd_of_reduce hfits ((verifyWithPseudo_iff hfits).mp h)
  have hmod := wordSum_set_mod_ne hi hne
  rw [← Bool.not_eq_true, verifyWithPseudo_iff hfitsSet]
  intro hreduce
  have hdvdSet := dvd_of_reduce hfitsSet hreduce
  omega

/-- A changed byte is detected. -/
theorem verify_set {data : Bytes} {i : Nat} {v : UInt8} (hd : data.length ≤ 65575)
    (h : verify data = true) (hi : i < data.length) (hne : v ≠ data[i]) :
    verify (data.set i v) = false :=
  @verifyWithPseudo_set [] data i v (Nat.zero_le _) hd h hi hne

end Checksum

section

variable {seg : Bytes} {src dst : IpAddr}

/-- What an accepted datagram satisfies: its length field, hence its length, and its sum. -/
theorem parseUdp_accepted {r : UInt16 × UInt16 × Bytes} (h : parseUdp seg src dst = .ok (some r)) :
    udpHeaderLen ≤ seg.length ∧ seg.length ≤ 65535 ∧
      ∃ pseudo, pseudoHeader src dst ipprotoUdp seg.length = .ok pseudo ∧
        Checksum.verifyWithPseudo pseudo seg = true := by
  unfold parseUdp at h
  split_ifs at h with hlen
  · cases h
  obtain ⟨len, _, h⟩ := bind_eq_ok.mp h
  dsimp only at h
  split_ifs at h with heq
  · cases h
  obtain ⟨pseudo, hpseudo, h⟩ := bind_eq_ok.mp h
  split_ifs at h with hsum
  · cases h
  have hlt := len.toNat_lt
  refine ⟨Nat.not_lt.mp hlen, by omega, pseudo, hpseudo, ?_⟩
  simpa using hsum

/-- A datagram whose sum fails is refused, if its length field does not refuse it before. -/
theorem parseUdp_of_bad_sum {pseudo : Bytes} (hlen : udpHeaderLen ≤ seg.length)
    (hpseudo : pseudoHeader src dst ipprotoUdp seg.length = .ok pseudo)
    (hsum : Checksum.verifyWithPseudo pseudo seg = false) : parseUdp seg src dst = .ok none := by
  obtain ⟨len, hread, -⟩ := @readU16At_returns seg 4 (by rw [udpHeaderLen] at hlen; omega)
  rw [parseUdp, if_neg (Nat.not_lt.mpr hlen), hread, ok_bind]
  dsimp only
  split
  · rfl
  · rw [hpseudo, ok_bind, hsum]
    rfl

/-- An accepted message has the length and the checksum. -/
theorem parseIcmp_accepted {isClient : Bool} {r : ParsedIcmp × Bytes}
    (h : parseIcmp seg src dst isClient = .ok (some r)) :
    icmpHeaderLen ≤ seg.length ∧ icmpCsumOk seg src dst = .ok true := by
  unfold parseIcmp at h
  split_ifs at h with hlen
  · cases h
  obtain ⟨ptype, _, h⟩ := bind_eq_ok.mp h
  obtain ⟨code, _, h⟩ := bind_eq_ok.mp h
  split_ifs at h
  · cases h
  · cases h
  obtain ⟨ok, hok, h⟩ := bind_eq_ok.mp h
  split_ifs at h with hsum
  · cases h
  refine ⟨Nat.not_lt.mp hlen, ?_⟩
  rw [hok, show ok = true by simpa using hsum]

/-- A wrong checksum is refused. -/
theorem parseIcmp_of_bad_sum (isClient : Bool) (hlen : icmpHeaderLen ≤ seg.length)
    (hsum : icmpCsumOk seg src dst = .ok false) : parseIcmp seg src dst isClient = .ok none := by
  have hbytes : 8 ≤ seg.length := hlen
  obtain ⟨ptype, htype, -⟩ := @readAt_returns _ seg 0 (by omega)
  obtain ⟨code, hcode, -⟩ := @readAt_returns _ seg 1 (by omega)
  rw [parseIcmp, if_neg (Nat.not_lt.mpr hlen), htype, ok_bind, hcode, ok_bind]
  split
  · rfl
  split
  · rfl
  · rw [hsum, ok_bind]
    rfl

/-- A changed byte makes the checksum wrong. -/
theorem icmpCsumOk_set {i : Nat} {v : UInt8} (hlen : seg.length ≤ 65535)
    (h : icmpCsumOk seg src dst = .ok true) (hi : i < seg.length) (hne : v ≠ seg[i]) :
    icmpCsumOk (seg.set i v) src dst = .ok false := by
  unfold icmpCsumOk at h ⊢
  rw [List.length_set]
  split_ifs at h ⊢ with hfam
  · obtain ⟨pseudo, hpseudo, hverify⟩ : ∃ pseudo,
        pseudoHeader src dst ipprotoIcmpv6 seg.length = .ok pseudo ∧
          Checksum.verifyWithPseudo pseudo seg = true := by
      cases hp : pseudoHeader src dst ipprotoIcmpv6 seg.length with
      | error e =>
        rw [hp] at h
        cases h
      | ok pseudo =>
        rw [hp] at h
        exact ⟨pseudo, rfl, Except.ok.inj h⟩
    rw [hpseudo]
    change Except.ok (Checksum.verifyWithPseudo pseudo (seg.set i v)) = _
    rw [Checksum.verifyWithPseudo_set (length_pseudoHeader hpseudo) (by omega) hverify hi hne]
  · rw [Checksum.verify_set (by omega) (Except.ok.inj h) hi hne]

end

section

variable {buf : Bytes}

/-- What an accepted IPv4 packet satisfies: a header that fits and whose sum verifies. -/
theorem parseIpv4_accepted {b0 : UInt8} {ip : ParsedIp}
    (h : parseIpv4 buf b0 true = .ok (some ip)) :
    ip.headerLen = (b0 &&& 0x0f).toNat * 4 ∧ ipv4HeaderLen ≤ buf.length ∧
      ip.headerLen ≤ buf.length ∧ Checksum.verify (buf.take ip.headerLen) = true := by
  unfold parseIpv4 at h
  split at h
  · cases h
  split at h
  · cases h
  rename_i hlen
  dsimp only at h
  split at h
  · cases h
  rename_i hihl
  obtain ⟨tot, _, h⟩ := bind_eq_ok.mp h
  split at h
  · cases h
  have hfit : (b0 &&& 0x0f).toNat * 4 ≤ buf.length := by omega
  obtain ⟨bad, hbad, h⟩ := bind_eq_ok.mp h
  rw [headerCsumBad, if_pos rfl, slice_eq_ok (Nat.zero_le _) hfit] at hbad
  have hverify := Except.ok.inj hbad
  split at h
  · cases h
  rename_i hgood
  obtain ⟨s, _, h⟩ := bind_eq_ok.mp h
  obtain ⟨src, _, h⟩ := bind_eq_ok.mp h
  obtain ⟨d, _, h⟩ := bind_eq_ok.mp h
  obtain ⟨dst, _, h⟩ := bind_eq_ok.mp h
  obtain ⟨protocol, _, h⟩ := bind_eq_ok.mp h
  cases h
  refine ⟨rfl, Nat.not_lt.mp hlen, hfit, ?_⟩
  rw [← hverify] at hgood
  simpa using hgood

/-- An IPv4 packet whose header sum fails is refused, if no length refuses it before. -/
theorem parseIpv4_of_bad_sum {b0 : UInt8}
    (hsum : Checksum.verify (buf.take ((b0 &&& 0x0f).toNat * 4)) = false) :
    parseIpv4 buf b0 true = .ok none := by
  unfold parseIpv4
  split
  · rfl
  split
  · rfl
  rename_i hlen
  rw [ipv4HeaderLen] at hlen
  obtain ⟨tot, htot, -⟩ := @readU16At_returns buf 2 (by omega)
  dsimp only
  split
  · rfl
  rename_i hihl
  rw [htot, ok_bind]
  split
  · rfl
  · have hbad : headerCsumBad buf ((b0 &&& 0x0f).toNat * 4) true = .ok true := by
      rw [headerCsumBad, if_pos rfl, slice_eq_ok (Nat.zero_le _) (by omega)]
      change Except.ok (!Checksum.verify (buf.take ((b0 &&& 0x0f).toNat * 4))) = _
      rw [hsum]
      rfl
    rw [hbad, ok_bind]
    rfl

/-- A changed byte of the header is refused. -/
theorem parseIp_set {ip : ParsedIp} {i : Nat} {v : UInt8}
    (h : parseIp buf false true = .ok (some ip)) (hfirst : 0 < i) (hi : i < ip.headerLen)
    (hne : buf[i]? ≠ some v) : parseIp (buf.set i v) false true = .ok none := by
  unfold parseIp at h ⊢
  split at h
  · cases h
  obtain ⟨b0, hb0, h⟩ := bind_eq_ok.mp h
  obtain ⟨hheader, _, hfit, hverify⟩ := parseIpv4_accepted h
  have hb0Set : readAt (buf.set i v) 0 = .ok b0 := by
    rw [readAt_eq_ok_iff] at hb0 ⊢
    rw [List.getElem?_set_ne (by omega), hb0]
  have hmask : (b0 &&& 0x0f).toNat ≤ 15 := by
    rw [UInt8.toNat_and]
    exact Nat.and_le_right
  have hlt : i < (buf.take ip.headerLen).length := by
    rw [List.length_take]
    omega
  have hbyte : v ≠ (buf.take ip.headerLen)[i] := by
    intro heq
    apply hne
    rw [List.getElem?_eq_getElem (by omega), heq, List.getElem_take]
  have hbad := Checksum.verify_set (by rw [List.length_take]; omega) hverify hlt hbyte
  rw [← List.take_set, hheader] at hbad
  split
  · rfl
  · rw [hb0Set, ok_bind]
    exact parseIpv4_of_bad_sum hbad

end

/-- Changing any one byte of an accepted UDP datagram or ICMP echo packet, or any byte but the
first of the header of an accepted IPv4 packet, makes the parser refuse it. -/
theorem single_byte_corruption_refused :
    (∀ (seg : Bytes) (src dst : IpAddr) (r : UInt16 × UInt16 × Bytes),
      parseUdp seg src dst = .ok (some r) →
      ∀ (i : Nat) (v : UInt8), i < seg.length → seg[i]? ≠ some v →
        parseUdp (seg.set i v) src dst = .ok none) ∧
      (∀ (seg : Bytes) (src dst : IpAddr) (isClient : Bool) (r : ParsedIcmp × Bytes),
        seg.length ≤ 65535 → parseIcmp seg src dst isClient = .ok (some r) →
        ∀ (i : Nat) (v : UInt8), i < seg.length → seg[i]? ≠ some v →
          parseIcmp (seg.set i v) src dst isClient = .ok none) ∧
      ∀ (buf : Bytes) (ip : ParsedIp), parseIp buf false true = .ok (some ip) →
        ∀ (i : Nat) (v : UInt8), 0 < i → i < ip.headerLen → buf[i]? ≠ some v →
          parseIp (buf.set i v) false true = .ok none := by
  have hbyte : ∀ {xs : Bytes} {i : Nat} {v : UInt8} (hi : i < xs.length),
      xs[i]? ≠ some v → v ≠ xs[i] := by
    intro xs i v hi hne heq
    exact hne (by rw [List.getElem?_eq_getElem hi, heq])
  refine ⟨?_, ?_, ?_⟩
  · intro seg src dst r h i v hi hne
    obtain ⟨hheader, hlen, pseudo, hpseudo, hsum⟩ := parseUdp_accepted h
    have hbad := Checksum.verifyWithPseudo_set (length_pseudoHeader hpseudo) (by omega) hsum hi
      (hbyte hi hne)
    refine parseUdp_of_bad_sum ?_ ?_ hbad
    · rwa [List.length_set]
    · rwa [List.length_set]
  · intro seg src dst isClient r hlen h i v hi hne
    obtain ⟨hheader, hsum⟩ := parseIcmp_accepted h
    refine parseIcmp_of_bad_sum isClient ?_ (icmpCsumOk_set hlen hsum hi (hbyte hi hne))
    rwa [List.length_set]
  · intro buf ip h i v hfirst hi hne
    exact parseIp_set h hfirst hi hne

/-- A datagram, an echo request and an IPv4 header with a payload of one byte or none. -/
theorem single_byte_corruption_refused_small :
    let host : IpAddr := .v4 (.replicate 4 1)
    let udp : Bytes := [0, 1, 0, 2, 0, 9, 0x9a, 0xd5, 0x61]
    let icmp : Bytes := [8, 0, 0xf6, 0xfa, 1, 2, 0, 3]
    let ip : Bytes :=
      [0x45, 0, 0, 20, 0, 0, 0x40, 0, 0x40, 0x11, 0x36, 0xd6, 1, 1, 1, 1, 1, 1, 1, 1]
    parseUdp (udp.set 8 0x62) host host = .ok none ∧
      parseIcmp (icmp.set 3 0xfb) host host false = .ok none ∧
      parseIp (ip.set 15 0) false true = .ok none := by
  refine ⟨?_, ?_, ?_⟩
  · exact single_byte_corruption_refused.1 _ _ _ (1, 2, [0x61]) (by decide) 8 0x62 (by decide)
      (by decide)
  · exact single_byte_corruption_refused.2.1 _ _ _ false (⟨8, 0x0102, 3⟩, []) (by decide)
      (by decide) 3 0xfb (by decide) (by decide)
  · exact single_byte_corruption_refused.2.2 _
      ⟨.v4 (.replicate 4 1), .v4 (.replicate 4 1), 17, 20, 20⟩ (by decide) 15 0 (by decide)
      (by decide) (by decide)

end Udp2raw
