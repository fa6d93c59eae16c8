import Udp2raw.Packet.Ip

/-!
# FakeTCP segments

The option walk is the source's loop: its stride is a byte of the segment, and
the walk ends at an end-of-list option, a malformed option or the end of the
slice. Parsing a segment aborts exactly when the data offset announces fewer
bytes than the fixed header, since the option slice then ends before it starts.
-/

namespace Udp2raw

open Checked

/-- `TCP_MIN_HEADER`. -/
def tcpMinHeader : Nat := 20

/-- The header fields of a received segment. -/
structure ParsedTcp where
  srcPort : UInt16 := 0
  dstPort : UInt16 := 0
  seq : UInt32 := 0
  ackSeq : UInt32 := 0
  syn : Bool := false
  ack : Bool := false
  psh : Bool := false
  rst : Bool := false
  hasTs : Bool := false
  ts : UInt32 := 0
  tsAck : UInt32 := 0
  headerLen : Nat := 0
  /-- Whether the checksum verified; a failure is reported, not dropped. -/
  csumOk : Bool := false
  deriving DecidableEq, Repr

/-- The `while i < opt.len()` loop of `parse_options`; `fuel` bounds its iterations. -/
def parseOptionsFrom (opt : Bytes) : Nat → Nat → ParsedTcp → Except Panic ParsedTcp
  | 0, _, out => .ok out
  | fuel + 1, i, out =>
    if i < opt.length then do
      let kind ← readAt opt i
      if kind = 0 then return out
      if kind = 1 then return (← parseOptionsFrom opt fuel (i + 1) out)
      if i + 1 ≥ opt.length then return out
      let len ← readAt opt (i + 1)
      if kind = 8 then
        if len ≠ 10 ∨ i + 10 > opt.length then return out
        let ts ← readU32Be (← sliceFrom opt (i + 2))
        let tsAck ← readU32Be (← sliceFrom opt (i + 6))
        parseOptionsFrom opt fuel (i + 10) { out with hasTs := true, ts := ts, tsAck := tsAck }
      else
        if len.toNat ≤ 1 then return out
        parseOptionsFrom opt fuel (i + len.toNat) out
    else .ok out

/-- `parse_options`: the timestamps of an option slice. -/
def parseOptions (opt : Bytes) (out : ParsedTcp) : Except Panic ParsedTcp :=
  parseOptionsFrom opt opt.length 0 { out with hasTs := false, ts := 0 }

/-- The walk indexes inside the slice whatever strides the bytes ask for. -/
theorem parseOptionsFrom_returns (opt : Bytes) (fuel i : Nat) (out : ParsedTcp) :
    Returns (parseOptionsFrom opt fuel i out) fun _ => True := by
  induction fuel generalizing i out with
  | zero => exact returns_ok trivial
  | succ fuel ih =>
    unfold parseOptionsFrom
    refine returns_ite (fun hi => ?_) fun _ => returns_ok trivial
    refine (readAt_returns hi).bind fun kind _ => ?_
    refine returns_ite (fun _ => returns_ok trivial) fun _ => ?_
    refine returns_ite (fun _ => ih _ _) fun _ => ?_
    refine returns_ite (fun _ => returns_ok trivial) fun hi1 => ?_
    refine (readAt_returns (by omega)).bind fun len _ => ?_
    refine returns_ite (fun _ => ?_) fun _ => ?_
    · refine returns_ite (fun _ => returns_ok trivial) fun hts => ?_
      refine (sliceFrom_returns (by omega)).bind fun a ha => ?_
      refine (readU32Be_returns (by omega)).bind fun ts _ => ?_
      refine (sliceFrom_returns (by omega)).bind fun b hb => ?_
      exact (readU32Be_returns (by omega)).bind fun tsAck _ => ih _ _
    · exact returns_ite (fun _ => returns_ok trivial) fun _ => ih _ _

/-- Every stride is at least one, so the length of the slice bounds the walk: more fuel
changes nothing. -/
theorem parseOptionsFrom_fuel (opt : Bytes) (fuel extra i : Nat) (out : ParsedTcp)
    (h : opt.length ≤ fuel + i) :
    parseOptionsFrom opt (fuel + extra) i out = parseOptionsFrom opt fuel i out := by
  induction fuel generalizing i out with
  | zero =>
    have hi : ¬ i < opt.length := by omega
    cases extra with
    | zero => rfl
    | succ extra => simp only [parseOptionsFrom, if_neg hi]
  | succ fuel ih =>
    have hnop := fun o => ih (i + 1) o (by omega)
    have hts := fun o => ih (i + 10) o (by omega)
    rw [Nat.add_right_comm]
    simp only [parseOptionsFrom, hnop, hts]
    refine ite_congr rfl (fun _ => ?_) fun _ => rfl
    refine congrArg _ (funext fun kind => ?_)
    refine ite_congr rfl (fun _ => rfl) fun _ => ite_congr rfl (fun _ => rfl) fun _ => ?_
    refine ite_congr rfl (fun _ => rfl) fun _ => congrArg _ (funext fun len => ?_)
    refine ite_congr rfl (fun _ => rfl) fun _ => ?_
    refine ite_congr rfl (fun _ => rfl) fun hlen => ?_
    exact ih (i + len.toNat) out (by omega)

theorem parseOptions_returns (opt : Bytes) (out : ParsedTcp) :
    Returns (parseOptions opt out) fun _ => True := parseOptionsFrom_returns _ _ _ _

/-- The header length `parse_tcp` computes from byte 12. -/
def tcpHeaderLen (seg : Bytes) : Nat := (seg.getD 12 0 >>> 4).toNat * 4

/-- `parse_tcp`: header fields and payload of a segment. -/
def parseTcp (seg : Bytes) (src dst : IpAddr) : Except Panic (Option (ParsedTcp × Bytes)) := do
  if seg.length < tcpMinHeader then return none
  let hlen := ((← readAt seg 12) >>> 4).toNat * 4
  if hlen = 0 ∨ hlen > 60 ∨ hlen > seg.length then return none
  let pseudo ← pseudoHeader src dst ipprotoTcp seg.length
  let csumOk := Checksum.verifyWithPseudo pseudo seg
  let flags ← readAt seg 13
  let srcPort ← readU16At seg 0
  let dstPort ← readU16At seg 2
  let seq ← readU32Be (← sliceFrom seg 4)
  let ackSeq ← readU32Be (← sliceFrom seg 8)
  let t : ParsedTcp :=
    { srcPort, dstPort, seq, ackSeq
      syn := flags &&& 0x02 != 0, ack := flags &&& 0x10 != 0
      psh := flags &&& 0x08 != 0, rst := flags &&& 0x04 != 0
      headerLen := hlen, csumOk }
  let t ← parseOptions (← slice seg tcpMinHeader hlen) t
  return some (t, ← sliceFrom seg hlen)

/-- The segment passes every check `parse_tcp` makes before it slices the options. -/
def ReachesOptions (seg : Bytes) : Prop :=
  tcpMinHeader ≤ seg.length ∧ tcpHeaderLen seg ≠ 0 ∧ tcpHeaderLen seg ≤ 60 ∧
    tcpHeaderLen seg ≤ seg.length

instance (seg : Bytes) : Decidable (ReachesOptions seg) := by
  unfold ReachesOptions
  infer_instance

variable {seg : Bytes} {dst src : IpAddr}

private theorem readAt_twelve (h : tcpMinHeader ≤ seg.length) :
    readAt seg 12 = .ok (seg.getD 12 0) := by
  have h12 : 12 < seg.length := by simp only [tcpMinHeader] at h; omega
  simp only [readAt_eq_ok h12, List.getD, List.getElem?_eq_getElem h12, Option.getD_some]

/-- A segment that fails an earlier check is refused, not sliced. -/
theorem parseTcp_of_not_reaches (h : ¬ ReachesOptions seg) (src dst : IpAddr) :
    parseTcp seg src dst = .ok none := by
  unfold parseTcp
  by_cases hlen : seg.length < tcpMinHeader
  · rw [if_pos hlen]
    rfl
  · rw [if_neg hlen, readAt_twelve (by omega)]
    have hbad : tcpHeaderLen seg = 0 ∨ tcpHeaderLen seg > 60 ∨ tcpHeaderLen seg > seg.length := by
      simp only [ReachesOptions] at h
      omega
    exact if_pos hbad

/-- With a data offset of at least five words both slices are in order. -/
theorem parseTcp_returns (h : ReachesOptions seg) (h20 : tcpMinHeader ≤ tcpHeaderLen seg)
    (hfam : src.isIpv6 = dst.isIpv6) : Returns (parseTcp seg src dst) fun _ => True := by
  obtain ⟨hlen, hne, h60, hle⟩ := h
  unfold parseTcp
  rw [if_neg (by omega), readAt_twelve hlen]
  refine returns_ite (fun _ => returns_ok trivial) fun _ => ?_
  have hl : 20 ≤ seg.length := hlen
  refine (pseudoHeader_returns hfam _ _).bind fun pseudo _ => ?_
  refine (readAt_returns (by omega)).bind fun flags _ => ?_
  refine (readU16At_returns (by omega)).bind fun srcPort _ => ?_
  refine (readU16At_returns (by omega)).bind fun dstPort _ => ?_
  refine (sliceFrom_returns (by omega)).bind fun a ha => ?_
  refine (readU32Be_returns (by omega)).bind fun seq _ => ?_
  refine (sliceFrom_returns (by omega)).bind fun b hb => ?_
  refine (readU32Be_returns (by omega)).bind fun ackSeq _ => ?_
  refine (slice_returns h20 hle).bind fun opt _ => ?_
  refine (parseOptions_returns _ _).bind fun t _ => ?_
  exact (sliceFrom_returns hle).bind fun data _ => returns_ok trivial

/-- With a data offset of one to four words the option slice is inverted. -/
theorem parseTcp_aborts (h : ReachesOptions seg) (h20 : tcpHeaderLen seg < tcpMinHeader)
    (hfam : src.isIpv6 = dst.isIpv6) :
    parseTcp seg src dst = .error (.sliceOrder tcpMinHeader (tcpHeaderLen seg)) := by
  obtain ⟨hlen, hne, h60, hle⟩ := h
  have hl : 20 ≤ seg.length := hlen
  have hgood : ¬ (tcpHeaderLen seg = 0 ∨ tcpHeaderLen seg > 60 ∨
      tcpHeaderLen seg > seg.length) := by omega
  unfold parseTcp
  rw [if_neg (by omega), readAt_twelve hlen]
  refine (if_neg hgood).trans ?_
  refine (pseudoHeader_returns hfam _ _).bind_error fun pseudo _ => ?_
  refine (readAt_returns (by omega)).bind_error fun flags _ => ?_
  refine (readU16At_returns (by omega)).bind_error fun srcPort _ => ?_
  refine (readU16At_returns (by omega)).bind_error fun dstPort _ => ?_
  refine (sliceFrom_returns (by omega)).bind_error fun a ha => ?_
  refine (readU32Be_returns (by omega)).bind_error fun seq _ => ?_
  refine (sliceFrom_returns (by omega)).bind_error fun b hb => ?_
  refine (readU32Be_returns (by omega)).bind_error fun ackSeq _ => ?_
  have hinv := slice_inverted seg h20
  simp only [tcpHeaderLen] at hinv
  rw [hinv]
  rfl

/-! ## Where the fields come from -/

/-- Options fill in the timestamps and nothing else. -/
theorem parseOptionsFrom_frame {opt : Bytes} {fuel i : Nat} {out t : ParsedTcp}
    (h : parseOptionsFrom opt fuel i out = .ok t) :
    t.srcPort = out.srcPort ∧ t.dstPort = out.dstPort ∧ t.syn = out.syn := by
  induction fuel generalizing i out with
  | zero =>
    cases h
    exact ⟨rfl, rfl, rfl⟩
  | succ fuel ih =>
    have hout : (.ok out : Except Panic ParsedTcp) = .ok t → t.srcPort = out.srcPort ∧
        t.dstPort = out.dstPort ∧ t.syn = out.syn := by
      rintro ⟨⟩
      exact ⟨rfl, rfl, rfl⟩
    unfold parseOptionsFrom at h
    split at h
    · obtain ⟨kind, _, h⟩ := bind_eq_ok.mp h
      split at h
      · exact hout h
      split at h
      · exact ih h
      split at h
      · exact hout h
      obtain ⟨len, _, h⟩ := bind_eq_ok.mp h
      split at h
      · split at h
        · exact hout h
        obtain ⟨a, _, h⟩ := bind_eq_ok.mp h
        obtain ⟨ts, _, h⟩ := bind_eq_ok.mp h
        obtain ⟨b, _, h⟩ := bind_eq_ok.mp h
        obtain ⟨tsAck, _, h⟩ := bind_eq_ok.mp h
        obtain ⟨h1, h2, h3⟩ := ih h
        exact ⟨h1, h2, h3⟩
      · split at h
        · exact hout h
        · exact ih h
    · exact hout h

/-- Where the fields of an accepted segment are read from. -/
theorem parseTcp_fields {data : Bytes} {t : ParsedTcp}
    (h : parseTcp seg src dst = .ok (some (t, data))) :
    tcpMinHeader ≤ seg.length ∧ readU16At seg 0 = .ok t.srcPort ∧
      readU16At seg 2 = .ok t.dstPort ∧
      ∃ flags, readAt seg 13 = .ok flags ∧ t.syn = (flags &&& 0x02 != 0) := by
  unfold parseTcp at h
  split_ifs at h with hlen
  · cases h
  obtain ⟨b, _, h⟩ := bind_eq_ok.mp h
  dsimp only at h
  split_ifs at h
  · cases h
  obtain ⟨pseudo, _, h⟩ := bind_eq_ok.mp h
  obtain ⟨flags, hflags, h⟩ := bind_eq_ok.mp h
  obtain ⟨srcPort, hsrc, h⟩ := bind_eq_ok.mp h
  obtain ⟨dstPort, hdst, h⟩ := bind_eq_ok.mp h
  obtain ⟨seqBytes, _, h⟩ := bind_eq_ok.mp h
  obtain ⟨seq, _, h⟩ := bind_eq_ok.mp h
  obtain ⟨ackBytes, _, h⟩ := bind_eq_ok.mp h
  obtain ⟨ackSeq, _, h⟩ := bind_eq_ok.mp h
  obtain ⟨opt, _, h⟩ := bind_eq_ok.mp h
  obtain ⟨t', ht', h⟩ := bind_eq_ok.mp h
  obtain ⟨data', _, h⟩ := bind_eq_ok.mp h
  cases h
  obtain ⟨h1, h2, h3⟩ := parseOptionsFrom_frame ht'
  refine ⟨Nat.not_lt.mp hlen, ?_, ?_, flags, hflags, h3⟩
  · rw [hsrc, h1]
  · rw [hdst, h2]

end Udp2raw
