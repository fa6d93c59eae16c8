import Udp2raw.Core.Serial
import Udp2raw.Raw.Send

/-!
# The send window of FakeTCP

Sequence modes 3 and 4 pull the send sequence number back to the peer's last
acknowledgement whenever a full segment could leave the window. The three
comparisons of `after_send` together leave only distances inside the window,
whatever acknowledgement was received last.
-/

namespace Udp2raw

open Serial

theorem largerThanU32_eq (a b : UInt32) : largerThanU32 a b = newer a b := rfl

/-- The window that sequence modes 3 and 4 keep to. -/
def RawCtx.windowSize (ctx : RawCtx) : Nat := if ctx.seqMode = 3 then 40960 * 32 else 40960

/-- The window a peer grants with a segment: the header field, which sequence mode 3 scales by the
shift of the SYN segments. -/
def RawCtx.advertised (ctx : RawCtx) (p : TcpSendParams) : Nat :=
  if ctx.seqMode = 3 then p.window.toNat <<< wscaleByte.toNat else p.window.toNat

/-- No segment of a peer advertises less than the window that sending keeps to. -/
theorem RawCtx.windowSize_le_advertised (ctx : RawCtx) (o : SendInputs) (s : PacketInfo) :
    ctx.windowSize ≤ ctx.advertised (tcpParams o s) := by
  have hwindow : 40960 ≤ (tcpParams o s).window.toNat := by
    simp only [tcpParams, receiveWindowLowerBound, receiveWindowRandomRange,
      UInt32.toNat_toUInt16, UInt32.toNat_add, UInt32.toNat_mod, UInt32.reduceToNat]
    omega
  unfold RawCtx.windowSize RawCtx.advertised
  split
  · rw [Nat.shiftLeft_eq]
    exact Nat.mul_le_mul_right 32 hwindow
  · exact hwindow

/-- The window of `after_send` as a 32-bit number. -/
theorem RawCtx.toNat_window (ctx : RawCtx) :
    (if ctx.seqMode = 3 then receiveWindowLowerBound <<< wscale
      else receiveWindowLowerBound).toNat = ctx.windowSize := by
  unfold RawCtx.windowSize
  split <;> rfl

/-- What the first and the last comparison leave: a distance that neither calls for a reset
stays a segment short of the window. -/
theorem ahead_le_of_not_newer {peer seq window : UInt32} (hfit : maxDataLen < window.toNat)
    (hwindow : window.toNat < 2 ^ 31)
    (houtside : newer (seq + UInt32.ofNat maxDataLen) (peer + window) = false)
    (hbehind : newer peer seq = false) : ahead peer seq ≤ window.toNat - maxDataLen := by
  have hlt := ahead_lt peer seq
  have hdist : ahead (peer + window) (seq + UInt32.ofNat maxDataLen) =
      (ahead peer seq + 1800 + (2 ^ 32 - window.toNat)) % 2 ^ 32 := by
    rw [ahead_eq peer, ahead_add, ahead_add, ahead_self, UInt32.toNat_ofNat']
    simp only [maxDataLen]
    omega
  have hback : ahead seq peer = (2 ^ 32 - ahead peer seq) % 2 ^ 32 := by
    rw [ahead_eq peer, ahead_self, Nat.zero_add]
  rw [← Bool.not_eq_true, newer_iff, hdist] at houtside
  rw [← Bool.not_eq_true, newer_iff, hback] at hbehind
  simp only [maxDataLen] at hfit ⊢
  by_contra hfar
  -- the ranges of the two comparisons overlap and cover everything past the window
  rcases Nat.lt_or_ge (ahead peer seq) (2 ^ 31 + 1) with hnear | hwrapped
  · apply houtside
    omega
  · apply hbehind
    rw [Nat.mod_eq_of_lt (by omega)]
    omega

theorem RawCtx.simulateAck_ackSeq (ctx : RawCtx) (raw : RawInfo) (dataLen : UInt32) :
    (ctx.simulateAck raw dataLen).recvInfo.ackSeq = raw.recvInfo.ackSeq := rfl

/-- The send sequence number of `simulateAck` is the peer's acknowledgement, or the end of the
segment if no comparison objects to it. -/
theorem RawCtx.simulateAck_seq (ctx : RawCtx) (raw : RawInfo) (dataLen : UInt32) :
    (ctx.simulateAck raw dataLen).sendInfo.seq = raw.recvInfo.ackSeq ∨
      (ctx.simulateAck raw dataLen).sendInfo.seq = raw.sendInfo.seq + dataLen ∧
        newer (raw.sendInfo.seq + dataLen + UInt32.ofNat maxDataLen)
          (raw.recvInfo.ackSeq + if ctx.seqMode = 3 then receiveWindowLowerBound <<< wscale
            else receiveWindowLowerBound) = false ∧
        newer raw.recvInfo.ackSeq (raw.sendInfo.seq + dataLen) = false := by
  simp only [RawCtx.simulateAck, largerThanU32_eq]
  split_ifs <;> simp_all

/-- The simulated sequence number stays within the window. -/
theorem RawCtx.simulateAck_within (ctx : RawCtx) (raw : RawInfo) (dataLen : UInt32) :
    ahead raw.recvInfo.ackSeq (ctx.simulateAck raw dataLen).sendInfo.seq ≤
      ctx.windowSize - maxDataLen := by
  rcases ctx.simulateAck_seq raw dataLen with hpeer | ⟨hseq, houtside, hbehind⟩
  · rw [hpeer, ahead_self]
    exact Nat.zero_le _
  · have hsize := ctx.toNat_window
    have hbounds : 40960 ≤ ctx.windowSize ∧ ctx.windowSize ≤ 40960 * 32 := by
      unfold RawCtx.windowSize
      split <;> omega
    rw [hseq, ← hsize]
    refine ahead_le_of_not_newer ?_ ?_ houtside hbehind
    · rw [hsize, maxDataLen]
      omega
    · omega

/-- After a data segment in sequence mode 3 or 4, the send sequence number is at most a window
less a segment ahead of the peer's last acknowledgement. A next segment of up to 1800 bytes ends
inside every window the peer advertises. -/
theorem RawCtx.afterSend_within_window (ctx : RawCtx) (roll : UInt32) (raw : RawInfo)
    (hmode : ctx.rawMode = .fakeTcp) (hseqMode : ctx.seqMode = 3 ∨ ctx.seqMode = 4)
    (hsyn : raw.sendInfo.syn = false) (hack : raw.sendInfo.ack = true)
    (hdata : UInt32.ofNat raw.sendInfo.dataLen ≠ 0) :
    let sent := ctx.afterSend roll raw
    sent.recvInfo.ackSeq = raw.recvInfo.ackSeq ∧
      (sent.sendInfo.seq - sent.recvInfo.ackSeq).toNat ≤ ctx.windowSize - 1800 ∧
      ∀ (next : Nat) (o : SendInputs) (peer : PacketInfo), next ≤ maxDataLen →
        (sent.sendInfo.seq - sent.recvInfo.ackSeq).toNat + next ≤
          ctx.advertised (tcpParams o peer) := by
  have hsent : ctx.afterSend roll raw =
      ctx.simulateAck raw (UInt32.ofNat raw.sendInfo.dataLen) := by
    simp only [RawCtx.afterSend, hmode, hsyn, hack]
    rw [if_pos (by simpa using hdata)]
    rcases hseqMode with h | h <;> rw [h] <;> rfl
  have hwithin := ctx.simulateAck_within raw (UInt32.ofNat raw.sendInfo.dataLen)
  have hsize : 40960 ≤ ctx.windowSize := by
    unfold RawCtx.windowSize
    split <;> omega
  dsimp only
  rw [hsent, RawCtx.simulateAck_ackSeq]
  refine ⟨rfl, hwithin, fun next o peer hnext => ?_⟩
  have hadvertised := ctx.windowSize_le_advertised o peer
  simp only [maxDataLen, ahead] at hwithin hnext
  omega

/-- A mode 4 connection 39000 bytes ahead of the peer, just before the numbers wrap. -/
def nearWrap : RawInfo :=
  { sendInfo :=
      { srcIp := .unspecified false, dstIp := .unspecified false, ack := true
        seq := 0xffffff00, dataLen := 400 }
    recvInfo :=
      { srcIp := .unspecified false, dstIp := .unspecified false
        ackSeq := 0xffffff00 - 39000 } }

/-- The next 400 bytes wrap the number and leave the window, so it goes back to the peer's. -/
theorem RawCtx.afterSend_within_window_nearWrap :
    let ctx : RawCtx := { rawMode := .fakeTcp, isV6 := false, isClient := true, seqMode := 4 }
    (ctx.afterSend 0 nearWrap).sendInfo.seq = 0xffffff00 - 39000 ∧
      ((ctx.afterSend 0 nearWrap).sendInfo.seq -
        (ctx.afterSend 0 nearWrap).recvInfo.ackSeq).toNat ≤ ctx.windowSize - 1800 :=
  ⟨by decide, (RawCtx.afterSend_within_window _ 0 nearWrap rfl (.inr rfl) rfl rfl
    (by decide)).2.1⟩

end Udp2raw
