import Udp2raw.Client.Handlers
import Udp2raw.Raw.Destination
import Udp2raw.Raw.Filter

/-!
# Packets from elsewhere

The client compares the sender of a packet with its server after `parse_recv`
has filled the headers of the connection. For UDP and ICMP these headers are all
that a packet from elsewhere changes; a FakeTCP segment has been counted by then.
-/

namespace Udp2raw

/-- What of the raw headers later packets are sent with or decided by. -/
structure RawInfo.Undisturbed (raw after : RawInfo) : Prop where
  sendInfo : after.sendInfo = raw.sendInfo
  reservedSendSeq : after.reservedSendSeq = raw.reservedSendSeq
  ackSeq : after.recvInfo.ackSeq = raw.recvInfo.ackSeq
  ackSeqCounter : after.recvInfo.ackSeqCounter = raw.recvInfo.ackSeqCounter
  rstReceived : after.rstReceived = raw.rstReceived
  disabled : after.disabled = raw.disabled

namespace RawCtx

variable {ctx : RawCtx} {raw after : RawInfo} {buf : Bytes} {ll : SockaddrLl}

/-- A segment that is recorded is counted, by one of two fields. -/
theorem recordTcp_counts (raw : RawInfo) (t : ParsedTcp) (n : Nat) :
    ¬ (ctx.recordTcp raw t n).recvInfo.ackSeqCounter = raw.recvInfo.ackSeqCounter ∨
      ¬ (ctx.recordTcp raw t n).recvInfo.ackSeq = raw.recvInfo.ackSeq := by
  have hack : (ctx.recordTcp raw t n).recvInfo.ackSeq = t.ackSeq := by
    unfold recordTcp
    dsimp only
    split <;> rfl
  have hcounter : (ctx.recordTcp raw t n).recvInfo.ackSeqCounter =
      if t.ackSeq = raw.recvInfo.ackSeq then raw.recvInfo.ackSeqCounter + 1 else 0 := by
    unfold recordTcp
    dsimp only
    split <;> rfl
  by_cases h : t.ackSeq = raw.recvInfo.ackSeq
  · left
    rw [hcounter, if_pos h]
    simp
  · right
    rw [hack]
    exact h

/-- The fields are left alone unless a FakeTCP segment is accepted. -/
theorem undisturbed_parseRecv {data : Option Bytes}
    (h : ctx.parseRecv raw buf ll = .ok (after, data)) :
    raw.Undisturbed after ↔ (ctx.rawMode = .fakeTcp → data = none) := by
  obtain ⟨r, hack, hcounter, ⟨rfl, hnone⟩ | ⟨t, d, htakes, -, rfl, rfl⟩⟩ := parseRecv_cases h
  · exact ⟨fun _ => hnone, fun _ => ⟨rfl, rfl, hack, hcounter, rfl, rfl⟩⟩
  · constructor
    · intro hsame
      rcases recordTcp_counts { raw with recvInfo := r } t d.length with hne | hne
      · exact absurd (hsame.ackSeqCounter.trans hcounter.symm) hne
      · exact absurd (hsame.ackSeq.trans hack.symm) hne
    · intro hnone
      cases hnone htakes.mode

end RawCtx

namespace Client

open Program

variable {cfg : ClientCfg} {c : Client} {o : ClientPacketOracle} {wire buf : Bytes}
  {ll : SockaddrLl}

/-- No sender that `peek` sees in the packet is the selected server. -/
def Foreign (cfg : ClientCfg) (c : Client) (wire : Bytes) : Prop :=
  ∀ buf p, clampPacket cfg.fixGro wire = some buf → (c.ctx cfg).peek buf = .ok (some p) →
    (p.srcIp, p.srcPort) ≠ c.info.raw.sendInfo.dst

/-- The handler returns; nothing but received headers changes, and no job is submitted. -/
def Untouched (m : ClientM Unit) (c : Client) : Prop :=
  ∃ d out, m c = .ok ((), d, out) ∧ d = c.withRaw d.info.raw ∧
    c.info.raw.Undisturbed d.info.raw ∧ ∀ job, .submit job ∉ out

/-- A FakeTCP packet with a TCP segment for the port of the connection, or with one whose data
offset is too short. -/
def Counted (cfg : ClientCfg) (c : Client) (wire : Bytes) : Prop :=
  ∃ buf, clampPacket cfg.fixGro wire = some buf ∧ ((c.ctx cfg).ShortDataOffset buf ∨
    ∃ t d, (c.ctx cfg).TakesTcp buf t d ∧ t.dstPort = c.filterPort)

theorem receive_eq {after : RawInfo} {data : Option Bytes}
    (h : (c.ctx cfg).parseRecv c.info.raw buf ll = .ok (after, data)) :
    receive cfg buf ll c = .ok (data, c.withRaw after, []) := by
  unfold receive
  rw [get_bind_apply, h]
  rfl

/-- A raw packet is received and goes to the state's handler. -/
theorem onRawPacket_eq (hclamp : clampPacket cfg.fixGro wire = some buf)
    (hstate : c.state ≠ .idle) :
    onRawPacket cfg o wire ll c = (receive cfg buf ll >>= fun r => match r with
      | none => pure ()
      | some data => match c.state with
        | .idle => pure ()
        | .tcpHandshake | .tcpHandshakeDummy => onTcpHandshake cfg o c.info.raw.sendInfo.dst data
        | .handshake1 => onHandshake1 cfg o c.info.raw.sendInfo.dst data
        | .handshake2 | .ready => onSession c.info.raw.sendInfo.dst data) c := by
  unfold onRawPacket
  rw [hclamp]
  dsimp only
  rw [get_bind_apply, if_neg hstate]
  rfl

/-- A note of a packet that goes no further: what it decrypted to, or that it was unexpected. -/
def IsNote : Effect → Prop
  | .openBare _ | .unexpected => True
  | _ => False

/-- The program only logs notes. -/
def OnlyLogs (m : ClientM Unit) (c : Client) : Prop :=
  ∃ out, m c = .ok ((), c, out) ∧ ∀ e ∈ out, IsNote e

theorem onlyLogs_pure : OnlyLogs (pure ()) c := ⟨[], rfl, by simp⟩

section Sender

variable {dst : IpAddr × UInt16} (hsrc : (c.info.raw.recvInfo.srcIp, c.info.raw.recvInfo.srcPort)
  ≠ dst) (data : Bytes)

include hsrc

/-- A foreign answer to a SYN is logged at most. -/
theorem onTcpHandshake_foreign : OnlyLogs (onTcpHandshake cfg o dst data) c := by
  unfold OnlyLogs onTcpHandshake
  rw [get_bind_apply]
  dsimp only
  split_ifs
  · exact onlyLogs_pure
  · exact onlyLogs_pure

theorem onHandshake1_foreign : OnlyLogs (onHandshake1 cfg o dst data) c := by
  unfold OnlyLogs onHandshake1
  rw [get_bind_apply]
  dsimp only
  split
  · exact onlyLogs_pure
  · cases Conn.openBare cfg.decrypt data with
    | none => exact onlyLogs_pure
    | some plain =>
      dsimp only
      cases Wire.parseBare plain with
      | none => exact ⟨_, rfl, by simp [IsNote]⟩
      | some payload => exact ⟨_, rfl, by simp [IsNote]⟩

theorem onSession_foreign : OnlyLogs (onSession dst data) c := by
  unfold OnlyLogs onSession
  rw [get_bind_apply, if_pos hsrc]
  exact ⟨_, rfl, by simp [IsNote]⟩

end Sender

/-- What becomes of a packet from elsewhere once it is parsed. -/
theorem onRawPacket_foreign (hforeign : c.Foreign cfg wire) (hstate : c.state ≠ .idle)
    (hclamp : clampPacket cfg.fixGro wire = some buf) {after : RawInfo} {data : Option Bytes}
    (h : (c.ctx cfg).parseRecv c.info.raw buf ll = .ok (after, data)) :
    ∃ out, onRawPacket cfg o wire ll c = .ok ((), c.withRaw after, out) ∧
      ∀ e ∈ out, IsNote e := by
  rw [onRawPacket_eq hclamp hstate]
  cases data with
  | none => exact ⟨[], bind_eq_ok.mpr ⟨_, _, _, _, receive_eq h, rfl, rfl⟩, by simp⟩
  | some data =>
    have hsrc : (after.recvInfo.srcIp, after.recvInfo.srcPort) ≠ c.info.raw.sendInfo.dst := by
      obtain ⟨ip, seg, hip, hseg, hsrc, hcarries⟩ := RawCtx.parseRecv_carries h
      obtain ⟨p, hpeek, hpip, hpport, -⟩ :=
        RawCtx.peek_of_carries (parseIp_reads hip).2 hseg hcarries
      rw [hsrc, ← hpip, ← hpport]
      exact hforeign buf p hclamp hpeek
    obtain ⟨out, hrun, hnotes⟩ : OnlyLogs (match c.state with
        | .idle => pure ()
        | .tcpHandshake | .tcpHandshakeDummy => onTcpHandshake cfg o c.info.raw.sendInfo.dst data
        | .handshake1 => onHandshake1 cfg o c.info.raw.sendInfo.dst data
        | .handshake2 | .ready => onSession c.info.raw.sendInfo.dst data)
          (c.withRaw after) := by
      cases c.state with
      | idle => exact onlyLogs_pure
      | tcpHandshake | tcpHandshakeDummy => exact onTcpHandshake_foreign hsrc data
      | handshake1 => exact onHandshake1_foreign hsrc data
      | handshake2 | ready => exact onSession_foreign hsrc data
    exact ⟨out, bind_eq_ok.mpr ⟨_, _, _, _, receive_eq h, hrun, (List.nil_append _).symm⟩,
      hnotes⟩

/-- A packet that is not counted is parsed without being accepted by FakeTCP. -/
theorem parseRecv_of_not_counted (hclamp : clampPacket cfg.fixGro wire = some buf)
    (hcount : ¬ c.Counted cfg wire) (ll : SockaddrLl) :
    ∃ after data, (c.ctx cfg).parseRecv c.info.raw buf ll = .ok (after, data) ∧
      (cfg.ctx.rawMode = .fakeTcp → data = none) := by
  have hshort : ¬ (c.ctx cfg).ShortDataOffset buf := fun h => hcount ⟨buf, hclamp, .inl h⟩
  obtain ⟨⟨after, data⟩, hparse, -⟩ :=
    RawCtx.parseRecv_returns (c.ctx cfg) c.info.raw buf ll hshort
  refine ⟨after, data, hparse, ?_⟩
  obtain ⟨-, -, -, ⟨-, hnone⟩ | ⟨t, d, htakes, hport, -⟩⟩ := RawCtx.parseRecv_cases hparse
  · exact hnone
  · exact absurd ⟨buf, hclamp, .inr ⟨t, d, htakes, hport⟩⟩ hcount

/-- In every state but idle a packet from elsewhere touches nothing of the session, unless it is
a FakeTCP packet with a segment for the client's port, or one with a short data offset. -/
theorem foreign_packet_untouched_iff (hforeign : c.Foreign cfg wire) (hstate : c.state ≠ .idle) :
    Untouched (onRawPacket cfg o wire ll) c ↔ ¬ c.Counted cfg wire := by
  constructor
  · rintro ⟨d, out, hrun, -, hsame, -⟩ ⟨buf, hclamp, hshort | ⟨t, data, htakes, hport⟩⟩
    · obtain ⟨stop, -, habort⟩ := (c.ctx cfg).parseRecv_aborts c.info.raw buf ll hshort
      rw [onRawPacket_eq hclamp hstate] at hrun
      obtain ⟨data, t, first, rest, hreceive, -, -⟩ := bind_eq_ok.mp hrun
      unfold receive at hreceive
      rw [get_bind_apply, habort] at hreceive
      cases hreceive
    · obtain ⟨after, hparse⟩ := RawCtx.parseRecv_of_takesTcp htakes hport c.info.raw ll
      obtain ⟨out', hrun', -⟩ := onRawPacket_foreign (o := o) hforeign hstate hclamp hparse
      rw [hrun'] at hrun
      cases hrun
      cases (RawCtx.undisturbed_parseRecv hparse).mp hsame htakes.mode
  · intro hcount
    cases hclamp : clampPacket cfg.fixGro wire with
    | none =>
      refine ⟨c, [], ?_, rfl, ⟨rfl, rfl, rfl, rfl, rfl, rfl⟩, by simp⟩
      unfold onRawPacket
      rw [hclamp]
      rfl
    | some buf =>
      obtain ⟨after, data, hparse, hnone⟩ := parseRecv_of_not_counted hclamp hcount ll
      obtain ⟨out, hrun, hnotes⟩ := onRawPacket_foreign (o := o) hforeign hstate hclamp hparse
      exact ⟨c.withRaw after, out, hrun, rfl,
        (RawCtx.undisturbed_parseRecv hparse).mpr hnone, fun job hjob => hnotes _ hjob⟩

/-- A client in this mode that tolerates no reset. -/
def strictCfg (rawMode : RawMode) : ClientCfg :=
  { ctx := { rawMode := rawMode, isV6 := false, isClient := true, maxRstAllowed := 0 }
    constId := 7
    decrypt := fun _ => none }

/-- Under way from 2.2.2.2, port 2, to 9.9.9.9, port 4096. -/
def outbound (rawMode : RawMode) : Client :=
  ((start (strictCfg rawMode) false ⟨1, 2, 3, 4⟩ 5 6 (.v4 (.replicate 4 9), 4096) {}).bindSource
    (strictCfg rawMode) (.v4 (.replicate 4 2)) 2).begin (strictCfg rawMode) 100000

/-- An IPv4 packet from 1.1.1.1 to 2.2.2.2. -/
def fromElsewhere (length protocol sumHigh sumLow : UInt8) (transport : Bytes) : Bytes :=
  [0x45, 0, 0, length, 0, 0, 0, 0, 64, protocol, sumHigh, sumLow, 1, 1, 1, 1, 2, 2, 2, 2] ++
    transport

/-- A datagram from port 1 to port 2. -/
def strayDatagram : Bytes := fromElsewhere 28 17 0x74 0xcc [0, 1, 0, 2, 0, 8, 0xf9, 0xd5]

/-- A TCP reset from port 1 to port 2. -/
def strayReset : Bytes :=
  fromElsewhere 40 6 0x74 0xcb [0, 1, 0, 2, 0, 0, 0, 0, 0, 0, 0, 0, 0x50, 0x14, 0, 0, 0, 0, 0, 0]

/-- What a packet at 100001 ms makes the client read. -/
def packetOracle : ClientPacketOracle :=
  { now := 100001
    timer :=
      { now := 100001, disabledId := 1, selectId := 2, endId := 3, encrypt := fun _ => none } }

/-- The sender of a packet that `peek` reads is not the server. -/
theorem foreign_of_peek (buf : Bytes) (p : PeekInfo) (hpeek : (c.ctx cfg).peek buf = .ok (some p))
    (hclamp : clampPacket cfg.fixGro wire = some buf)
    (hp : (p.srcIp, p.srcPort) ≠ c.info.raw.sendInfo.dst) : c.Foreign cfg wire := by
  intro buf' p' hclamp' hpeek'
  rw [hclamp] at hclamp'
  cases hclamp'
  rw [hpeek] at hpeek'
  cases hpeek'
  exact hp

/-- A stray datagram is parsed into the headers of the connection and goes no further. -/
theorem foreign_packet_untouched_iff_udp :
    Untouched (onRawPacket (strictCfg .udp) packetOracle strayDatagram {}) (outbound .udp) ↔
      ¬ (outbound .udp).Counted (strictCfg .udp) strayDatagram :=
  foreign_packet_untouched_iff
    (foreign_of_peek strayDatagram ⟨.v4 (.replicate 4 1), 1, false⟩
      (by decide +kernel) (by decide +kernel) (by decide +kernel))
    (by decide)

/-- A reset from elsewhere disables the connection, so that the next tick ends it. -/
theorem stray_reset_disables :
    (outbound .fakeTcp).state ≠ .idle ∧
    (outbound .fakeTcp).Foreign (strictCfg .fakeTcp) strayReset ∧
    (outbound .fakeTcp).info.raw.disabled = false ∧
    ∃ d out, onRawPacket (strictCfg .fakeTcp) packetOracle strayReset {} (outbound .fakeTcp) =
        .ok ((), d, out) ∧
      d.info.raw.rstReceived = 1 ∧ d.info.raw.disabled = true := by
  have hforeign : (outbound .fakeTcp).Foreign (strictCfg .fakeTcp) strayReset :=
    foreign_of_peek strayReset ⟨.v4 (.replicate 4 1), 1, false⟩
      (by decide +kernel) (by decide +kernel) (by decide +kernel)
  refine ⟨by decide, hforeign, rfl, ?_⟩
  obtain ⟨_, d, out, hrun, hd⟩ := exists_ok (s := outbound .fakeTcp)
    (m := onRawPacket (strictCfg .fakeTcp) packetOracle strayReset {})
    (p := fun _ d _ => d.info.raw.rstReceived == 1 && d.info.raw.disabled)
    (by decide +kernel)
  rw [Bool.and_eq_true, beq_iff_eq] at hd
  exact ⟨d, out, hrun, hd⟩

end Client

end Udp2raw
