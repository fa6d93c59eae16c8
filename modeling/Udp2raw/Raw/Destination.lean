import Udp2raw.Conn
import Udp2raw.Raw.Receive

/-!
# Where a raw connection sends

Sending and receiving change counters, flags and the headers of the other
direction. The destination of a connection is set by its owner alone.
-/

namespace Udp2raw

open Checked

/-- Where packets with these headers go. -/
def PacketInfo.dst (p : PacketInfo) : IpAddr × UInt16 := (p.dstIp, p.dstPort)

/-- The fields of the send headers that neither a send nor a receipt changes. -/
def PacketInfo.envelope (p : PacketInfo) : (IpAddr × UInt16) × (IpAddr × UInt16) × Bool × Bool :=
  ((p.srcIp, p.srcPort), p.dst, p.syn, p.ack)

/-- The envelope of the packets a connection sends, and whether it sends none. -/
def RawInfo.outward (raw : RawInfo) :
    ((IpAddr × UInt16) × (IpAddr × UInt16) × Bool × Bool) × Bool :=
  (raw.sendInfo.envelope, raw.disabled)

theorem RawInfo.dst_of_outward {raw raw' : RawInfo} (h : raw'.outward = raw.outward) :
    raw'.sendInfo.dst = raw.sendInfo.dst := by
  have hdst := congrArg (fun p => p.1.2.1) h
  exact hdst

namespace RawCtx

variable (ctx : RawCtx)

/-- Sending keeps where packets go. -/
@[simp] theorem sendRaw_outward (roll : UInt32) (raw : RawInfo) (payload : Bytes) :
    (ctx.sendRaw roll raw payload).1.outward = raw.outward := by
  unfold sendRaw
  split_ifs
  · rfl
  · rfl
  · cases ctx.rawMode <;> rfl

@[simp] theorem afterSend_outward (roll : UInt32) (raw : RawInfo) :
    (ctx.afterSend roll raw).outward = raw.outward := by
  unfold afterSend
  cases ctx.rawMode with
  | fakeTcp =>
    dsimp only
    split_ifs <;> rfl
  | udp => rfl
  | icmp =>
    dsimp only
    split_ifs <;> rfl

@[simp] theorem afterRecv_outward (raw : RawInfo) (m : RecvMeta) :
    (ctx.afterRecv raw m).outward = raw.outward := by
  unfold afterRecv
  cases ctx.rawMode with
  | fakeTcp =>
    dsimp only
    unfold afterRecvTcp
    dsimp only
    split_ifs <;> rfl
  | udp => rfl
  | icmp =>
    dsimp only
    split_ifs <;> rfl

theorem sendRaw_dst (roll : UInt32) (raw : RawInfo) (payload : Bytes) :
    (ctx.sendRaw roll raw payload).1.sendInfo.dst = raw.sendInfo.dst :=
  RawInfo.dst_of_outward (ctx.sendRaw_outward roll raw payload)

theorem afterRecv_dst (raw : RawInfo) (m : RecvMeta) :
    (ctx.afterRecv raw m).sendInfo.dst = raw.sendInfo.dst :=
  RawInfo.dst_of_outward (ctx.afterRecv_outward raw m)

theorem afterRecv_disabled (raw : RawInfo) (m : RecvMeta) :
    (ctx.afterRecv raw m).disabled = raw.disabled :=
  congrArg Prod.snd (ctx.afterRecv_outward raw m)

theorem recordTcp_sendInfo (raw : RawInfo) (t : ParsedTcp) (n : Nat) :
    (ctx.recordTcp raw t n).sendInfo = raw.sendInfo := by
  unfold recordTcp
  dsimp only
  split <;> rfl

variable {ctx}

/-- `parse_recv` finds this segment in a FakeTCP packet. -/
def TakesTcp (ctx : RawCtx) (buf : Bytes) (t : ParsedTcp) (d : Bytes) : Prop :=
  ∃ seg src dst, ctx.HandsTcp buf seg src dst ∧ parseTcp seg src dst = .ok (some (t, d))

/-- The packet is a TCP reset of the kind that `--max-rst-allowed` counts. -/
def Disables (ctx : RawCtx) (buf : Bytes) : Prop :=
  0 ≤ ctx.maxRstAllowed ∧ ∃ t d, ctx.TakesTcp buf t d ∧ t.rst = true

variable {buf : Bytes} {ll : SockaddrLl} {raw' raw : RawInfo} {data : Option Bytes}

theorem TakesTcp.mode {t : ParsedTcp} {d : Bytes} (h : ctx.TakesTcp buf t d) :
    ctx.rawMode = .fakeTcp := by
  obtain ⟨_, _, _, ⟨hmode, -⟩, -⟩ := h
  exact hmode

/-- What `parse_recv` records, apart from headers that nothing reads before the next packet: the
counters of an accepted FakeTCP segment. -/
theorem parseRecv_cases (h : ctx.parseRecv raw buf ll = .ok (raw', data)) :
    ∃ r, r.ackSeq = raw.recvInfo.ackSeq ∧ r.ackSeqCounter = raw.recvInfo.ackSeqCounter ∧
      ((raw' = { raw with recvInfo := r } ∧ (ctx.rawMode = .fakeTcp → data = none)) ∨
        ∃ t d, ctx.TakesTcp buf t d ∧ t.dstPort = ctx.filterPort ∧
          raw' = ctx.recordTcp { raw with recvInfo := r } t d.length ∧ data = some d) := by
  unfold parseRecv at h
  obtain ⟨r, hip, h⟩ := bind_eq_ok.mp h
  cases r with
  | none =>
    cases h
    exact ⟨_, rfl, rfl, .inl ⟨rfl, fun _ => rfl⟩⟩
  | some ip =>
    dsimp only at h
    obtain ⟨r, hll, hack, hcounter⟩ : ∃ r, (if ctx.lowerLevel then
        { raw with recvInfo := { raw.recvInfo with addrLl := ll } } else raw) =
          { raw with recvInfo := r } ∧ r.ackSeq = raw.recvInfo.ackSeq ∧
            r.ackSeqCounter = raw.recvInfo.ackSeqCounter := by
      split <;> exact ⟨_, rfl, rfl, rfl⟩
    rw [hll] at h
    by_cases hb : (!ctx.bindAccepts ip) = true
    · rw [if_pos hb] at h
      cases h
      exact ⟨r, hack, hcounter, .inl ⟨rfl, fun _ => rfl⟩⟩
    · rw [if_neg hb] at h
      obtain ⟨payload, hpayload, h⟩ := bind_eq_ok.mp h
      cases records_of_parsePayload h with
      | refused =>
        exact ⟨{ r with srcIp := ip.src, dstIp := ip.dst }, hack, hcounter,
          .inl ⟨rfl, fun _ => rfl⟩⟩
      | @tcp t d mode protocol parsed port =>
        have hbind : ctx.bindAccepts ip = true := by simpa using hb
        exact ⟨{ r with srcIp := ip.src, dstIp := ip.dst }, hack, hcounter,
          .inr ⟨t, d, ⟨payload, ip.src, ip.dst, ⟨mode, ip, hip, hbind, protocol, hpayload, rfl,
            rfl⟩, parsed⟩, port, rfl, rfl⟩⟩
      | udp mode =>
        refine ⟨_, ?_, ?_, .inl ⟨rfl, fun htcp => ?_⟩⟩
        · exact hack
        · exact hcounter
        · rw [mode] at htcp
          cases htcp
      | icmp mode =>
        refine ⟨_, ?_, ?_, .inl ⟨rfl, fun htcp => ?_⟩⟩
        · exact hack
        · exact hcounter
        · rw [mode] at htcp
          cases htcp

/-- A segment for the port of the connection is accepted. -/
theorem parseRecv_of_takesTcp {d : Bytes} {t : ParsedTcp} (htakes : ctx.TakesTcp buf t d)
    (hport : t.dstPort = ctx.filterPort) (raw : RawInfo) (ll : SockaddrLl) :
    ∃ after, ctx.parseRecv raw buf ll = .ok (after, some d) := by
  obtain ⟨seg, src, dst, ⟨hm, ip, hip, hb, hp, hseg, rfl, rfl⟩, hparsed⟩ := htakes
  have hpayload : ∀ raw, ctx.parsePayload raw ip seg =
      .ok (ctx.recordTcp raw t d.length, some d) := by
    intro raw
    unfold parsePayload
    rw [hm]
    refine (if_neg (not_not.mpr hp)).trans ?_
    rw [hparsed]
    exact if_neg (not_not.mpr hport)
  simp only [parseRecv, hip, hseg, hb, ok_bind, hpayload, Bool.not_true, Bool.false_eq_true,
    if_false]
  exact ⟨_, rfl⟩

/-- Receiving leaves the headers of the sending direction alone. -/
theorem parseRecv_sendInfo (h : ctx.parseRecv raw buf ll = .ok (raw', data)) :
    raw'.sendInfo = raw.sendInfo := by
  obtain ⟨r, -, -, ⟨rfl, -⟩ | ⟨t, d, -, -, rfl, -⟩⟩ := parseRecv_cases h
  · rfl
  · exact recordTcp_sendInfo ..

/-- Only a reset that counts disables a connection. -/
theorem parseRecv_disabled (h : ctx.parseRecv raw buf ll = .ok (raw', data))
    (hdisabled : raw'.disabled = true) : raw.disabled = true ∨ ctx.Disables buf := by
  obtain ⟨r, -, -, ⟨rfl, -⟩ | ⟨t, d, htakes, -, rfl, -⟩⟩ := parseRecv_cases h
  · exact .inl hdisabled
  · unfold recordTcp at hdisabled
    dsimp only at hdisabled
    split at hdisabled
    · next hrst =>
      rcases Bool.or_eq_true_iff.mp hdisabled with hbefore | hlimit
      · exact .inl hbefore
      · exact .inr ⟨(of_decide_eq_true hlimit).1, t, d, htakes, hrst⟩
    · exact .inl hdisabled

end RawCtx

namespace Conn

@[simp] theorem transmitSafer_outward (ctx : RawCtx) (dropRoll seqRoll : UInt32) (raw : RawInfo)
    (wire : Bytes) : (transmitSafer ctx dropRoll seqRoll raw wire).outward = raw.outward := by
  simp [transmitSafer]

@[simp] theorem sendHandshake_outward (ctx : RawCtx) (encrypt : Bytes → Option Bytes)
    (iv padding : UInt64) (roll : UInt32) (raw : RawInfo) (id1 id2 id3 : UInt32) :
    (sendHandshake ctx encrypt iv padding roll raw id1 id2 id3).1.outward = raw.outward := by
  unfold sendHandshake sendBare
  dsimp only
  split <;> simp

theorem transmitSafer_dst (ctx : RawCtx) (dropRoll seqRoll : UInt32) (raw : RawInfo)
    (wire : Bytes) :
    (transmitSafer ctx dropRoll seqRoll raw wire).sendInfo.dst = raw.sendInfo.dst :=
  RawInfo.dst_of_outward (transmitSafer_outward ..)

theorem sendHandshake_dst (ctx : RawCtx) (encrypt : Bytes → Option Bytes)
    (iv padding : UInt64) (roll : UInt32) (raw : RawInfo) (id1 id2 id3 : UInt32) :
    (sendHandshake ctx encrypt iv padding roll raw id1 id2 id3).1.sendInfo.dst =
      raw.sendInfo.dst :=
  RawInfo.dst_of_outward (sendHandshake_outward ..)

/-- A check of a plaintext leaves the headers of its connection alone, and all timers but the
roller's. -/
theorem acceptSaferOffset_frame {info after : ConnInfo} {plain : Bytes} {hbMode : Int32}
    {now : UInt64} {r : Option (UInt8 × Nat)}
    (h : acceptSaferOffset info plain hbMode now = .ok (r, after)) :
    after.raw = info.raw ∧ after.lastHbSentTime = info.lastHbSentTime ∧
      after.lastHbRecvTime = info.lastHbRecvTime ∧ after.lastStateTime = info.lastStateTime := by
  unfold acceptSaferOffset at h
  cases hids : Wire.parseSaferIds plain with
  | none =>
    rw [hids] at h
    cases h
    exact ⟨rfl, rfl, rfl, rfl⟩
  | some ids =>
    rw [hids] at h
    dsimp only at h
    split_ifs at h
    · cases h
      exact ⟨rfl, rfl, rfl, rfl⟩
    obtain ⟨⟨valid, antiReplay⟩, -, h⟩ := bind_eq_ok.mp h
    dsimp only at h
    split_ifs at h
    · cases h
      exact ⟨rfl, rfl, rfl, rfl⟩
    cases hbody : Wire.parseSaferBody plain with
    | none =>
      rw [hbody] at h
      cases h
      exact ⟨rfl, rfl, rfl, rfl⟩
    | some body =>
      rw [hbody] at h
      cases h
      unfold noteRoller
      dsimp only
      split_ifs <;> exact ⟨rfl, rfl, rfl, rfl⟩

end Conn

end Udp2raw
