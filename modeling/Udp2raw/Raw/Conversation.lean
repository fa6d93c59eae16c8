import Udp2raw.Core.Transition
import Udp2raw.Raw.Destination
import Udp2raw.Raw.Window

/-!
# Two FakeTCP endpoints

The two ends of a FakeTCP connection, each with its raw state and the packets it
ever handed to the network. The network delivers any of these packets at any
time and any number of times. Between the arrival of a packet and `after_recv`
lies the decryption on a worker, so a header snapshot that has arrived is
accepted at any later time, or never.
-/

namespace Udp2raw

open Checked

/-- What `after_send` does to the numbers in sequence modes 3 and 4. -/
theorem RawCtx.afterSend_numbers {ctx : RawCtx} {raw : RawInfo} (roll : UInt32)
    (hmode : ctx.rawMode = .fakeTcp) (hseqMode : ctx.seqMode = 3 ∨ ctx.seqMode = 4)
    (hsyn : raw.sendInfo.syn = false) (hack : raw.sendInfo.ack = true) :
    (ctx.afterSend roll raw).sendInfo.ackSeq = raw.sendInfo.ackSeq ∧
      (ctx.afterSend roll raw).recvInfo.ackSeq = raw.recvInfo.ackSeq ∧
      ((ctx.afterSend roll raw).sendInfo.seq = raw.sendInfo.seq ∨
        (ctx.afterSend roll raw).sendInfo.seq = raw.recvInfo.ackSeq ∨
        0 < raw.sendInfo.dataLen ∧ (ctx.afterSend roll raw).sendInfo.seq =
          raw.sendInfo.seq + UInt32.ofNat raw.sendInfo.dataLen) := by
  by_cases hdata : UInt32.ofNat raw.sendInfo.dataLen = 0
  · have hsame : ctx.afterSend roll raw = raw := by
      simp only [RawCtx.afterSend, hmode, hsyn, hack, hdata]
      rfl
    rw [hsame]
    exact ⟨rfl, rfl, .inl rfl⟩
  · have hsent : ctx.afterSend roll raw =
        ctx.simulateAck raw (UInt32.ofNat raw.sendInfo.dataLen) := by
      simp only [RawCtx.afterSend, hmode, hsyn, hack]
      rw [if_pos (by simpa using hdata)]
      rcases hseqMode with h | h <;> rw [h] <;> rfl
    have hpos : 0 < raw.sendInfo.dataLen := by
      refine Nat.pos_of_ne_zero fun h => hdata ?_
      rw [h]
      rfl
    rw [hsent]
    refine ⟨rfl, rfl, ?_⟩
    rcases ctx.simulateAck_seq raw (UInt32.ofNat raw.sendInfo.dataLen) with h | ⟨h, -, -⟩
    · exact .inr (.inl h)
    · exact .inr (.inr ⟨hpos, h⟩)

/-- What `after_recv` does to the numbers in sequence modes 3 and 4. -/
theorem RawCtx.afterRecv_numbers {ctx : RawCtx} (raw : RawInfo) (m : RecvMeta)
    (hmode : ctx.rawMode = .fakeTcp) (hseqMode : ctx.seqMode = 3 ∨ ctx.seqMode = 4) :
    (ctx.afterRecv raw m).sendInfo.seq = raw.sendInfo.seq ∧
      (ctx.afterRecv raw m).recvInfo = raw.recvInfo ∧
      ((ctx.afterRecv raw m).sendInfo.ackSeq = raw.sendInfo.ackSeq ∨
        m.seq = raw.sendInfo.ackSeq ∧ 0 < m.dataLen ∧
          (ctx.afterRecv raw m).sendInfo.ackSeq = m.seq + UInt32.ofNat m.dataLen) := by
  have hlate : ¬ ctx.seqMode ≤ 2 := by rcases hseqMode with h | h <;> omega
  obtain ⟨send, hsend, hack, hseq⟩ : ∃ send : PacketInfo,
      (if m.hasTs then { raw.sendInfo with tsAck := m.ts } else raw.sendInfo) = send ∧
        send.ackSeq = raw.sendInfo.ackSeq ∧ send.seq = raw.sendInfo.seq := by
    split <;> exact ⟨_, rfl, rfl, rfl⟩
  simp only [RawCtx.afterRecv, hmode, RawCtx.afterRecvTcp, if_neg hlate, hsend]
  split_ifs with h
  · simp only [Bool.and_eq_true, beq_iff_eq, bne_iff_ne] at h
    exact ⟨hseq, rfl, .inr ⟨h.2.trans hack, Nat.pos_of_ne_zero h.1.2, rfl⟩⟩
  · exact ⟨hseq, rfl, .inl hack⟩

/-- A segment without the RST flag does not disable the connection. -/
theorem RawCtx.parseRecv_disabled_of_rst {ctx : RawCtx} {raw raw' : RawInfo} {buf data : Bytes}
    {ll : SockaddrLl} (hmode : ctx.rawMode = .fakeTcp)
    (h : ctx.parseRecv raw buf ll = .ok (raw', some data)) (hrst : raw'.recvInfo.rst = false) :
    raw'.disabled = raw.disabled := by
  obtain ⟨r, -, -, ⟨-, hnone⟩ | ⟨t, d, -, -, rfl, -⟩⟩ := RawCtx.parseRecv_cases h
  · cases hnone hmode
  · unfold RawCtx.recordTcp at hrst ⊢
    split_ifs at hrst ⊢ with ht
    · exact absurd hrst (by simp [ht])
    · rfl

namespace Conversation

/-- A packet that was handed to the network, with its numbers and the length of its payload.
Packets of the handshake are not `safer` packets. -/
structure Sent where
  packet : Bytes
  seq : UInt32
  ackSeq : UInt32
  len : Nat
  safer : Bool
  deriving DecidableEq, Repr

/-- One end of the connection. What arrived are the header snapshots on their way through the
workers; what was accepted are those that reached `after_recv`. -/
structure End where
  raw : RawInfo
  sent : List Sent
  arrived : List RecvMeta
  accepted : List RecvMeta
  deriving DecidableEq, Repr

/-- What one end can do: send a payload, receive the peer's packet `i`, or accept what packet `i`
brought. -/
inductive Action where
  | send (o : SendInputs) (seqRoll : UInt32) (payload : Bytes)
  | arrive (i : Nat) (ll : SockaddrLl)
  | accept (i : Nat)

/-- `transmit_safer` of a payload that fits an IP packet. -/
def End.transmit (ctx : RawCtx) (o : SendInputs) (seqRoll : UInt32) (payload : Bytes)
    (e : End) : Option End :=
  if ipHeaderLen ctx.isV6 + transportHeaderLen ctx.rawMode e.raw.sendInfo.syn +
      payload.length ≤ 65535 then
    match ctx.sendRawBytes o e.raw payload with
    | .ok (raw, some packet) =>
      let p : Sent :=
        { packet, seq := e.raw.sendInfo.seq, ackSeq := e.raw.sendInfo.ackSeq
          len := payload.length, safer := true }
      some { e with raw := ctx.afterSend seqRoll raw, sent := e.sent ++ [p] }
    -- nothing was queued, but `after_send` runs all the same
    | .ok (raw, none) => some { e with raw := ctx.afterSend seqRoll raw }
    | .error _ => none
  else none

/-- `parse_recv` of a packet. The payload of a handshake packet is not a safer packet, so its
snapshot never gets to `after_recv`. -/
def End.arrive (ctx : RawCtx) (ll : SockaddrLl) (p : Sent) (e : End) : Option End :=
  match ctx.parseRecv e.raw p.packet ll with
  | .ok (raw, some _) =>
    some { e with raw, arrived := if p.safer then e.arrived ++ [.fromRecv raw.recvInfo]
                                  else e.arrived }
  | .ok (raw, none) => some { e with raw }
  | .error _ => none

/-- `after_recv` with a snapshot that has arrived. -/
def End.accept (ctx : RawCtx) (m : RecvMeta) (e : End) : End :=
  { e with raw := ctx.afterRecv e.raw m, accepted := e.accepted ++ [m] }

/-- One step of an end whose peer sent the given packets. -/
def End.step (ctx : RawCtx) (peer : List Sent) (e : End) : Action → Option End
  | .send o seqRoll payload => e.transmit ctx o seqRoll payload
  | .arrive i ll => peer[i]?.bind (End.arrive ctx ll · e)
  | .accept i => e.arrived[i]?.map (End.accept ctx · e)

/-- One step of the pair: one of the two sides acts. -/
def step (ctx : Bool → RawCtx) (s : Bool → End) (a : Bool × Action) : Option (Bool → End) :=
  ((s a.1).step (ctx a.1) (s !a.1).sent a.2).map (Function.update s a.1)

/-- No step forgets a packet that was sent. -/
theorem End.step_sent {ctx : RawCtx} {peer : List Sent} {e e' : End} {a : Action}
    (h : e.step ctx peer a = some e') : e.sent <+: e'.sent := by
  cases a with
  | send o seqRoll payload =>
    simp only [End.step, End.transmit] at h
    split_ifs at h
    split at h
    · cases h
      exact List.prefix_append _ _
    · cases h
      exact List.prefix_rfl
    · cases h
  | arrive i ll =>
    obtain ⟨p, -, h⟩ := Option.bind_eq_some_iff.mp h
    unfold End.arrive at h
    split at h
    · cases h
      exact List.prefix_rfl
    · cases h
      exact List.prefix_rfl
    · cases h
  | accept i =>
    obtain ⟨m, -, rfl⟩ := Option.map_eq_some_iff.mp h
    exact List.prefix_rfl

/-! ## What one end can do -/

/-- A raw connection between the handshake and its end: FakeTCP in sequence mode 3 or 4, sending
acknowledged data segments to the context `rx`. -/
structure Live (tx rx : RawCtx) (raw : RawInfo) : Prop where
  mode : tx.rawMode = .fakeTcp
  seqMode : tx.seqMode = 3 ∨ tx.seqMode = 4
  faces : rx.Faces tx raw.sendInfo
  src : raw.sendInfo.srcIp.isIpv6 = tx.isV6
  dst : raw.sendInfo.dstIp.isIpv6 = tx.isV6
  syn : raw.sendInfo.syn = false
  ack : raw.sendInfo.ack = true
  enabled : raw.disabled = false

/-- Liveness depends on what is sent outwards. -/
theorem Live.of_outward {tx rx : RawCtx} {raw raw' : RawInfo} (h : Live tx rx raw)
    (hout : raw'.outward = raw.outward) : Live tx rx raw' := by
  simp only [RawInfo.outward, PacketInfo.envelope, PacketInfo.dst, Prod.mk.injEq] at hout
  obtain ⟨⟨⟨hsrc, -⟩, ⟨hdst, hport⟩, hsyn, hack⟩, hdisabled⟩ := hout
  exact
    { mode := h.mode, seqMode := h.seqMode
      faces :=
        { mode := h.faces.mode, family := h.faces.family, role := h.faces.role
          port := fun hm => hport ▸ h.faces.port hm
          bind := fun b hb => hdst ▸ h.faces.bind b hb }
      src := hsrc ▸ h.src, dst := hdst ▸ h.dst
      syn := hsyn.trans h.syn, ack := hack.trans h.ack, enabled := hdisabled.trans h.enabled }

/-- The context accepts the packet and finds the recorded numbers in it. -/
def Sent.Genuine (rx : RawCtx) (p : Sent) : Prop :=
  ∃ o s payload, rx.Receives .fakeTcp o s payload p.packet ∧ s.seq = p.seq ∧
    s.ackSeq = p.ackSeq ∧ payload.length = p.len

/-- A genuine packet is received, and what it records. -/
theorem Sent.Genuine.parseRecv {rx : RawCtx} {p : Sent} (h : p.Genuine rx)
    (hmode : rx.rawMode = .fakeTcp) (raw : RawInfo) (ll : SockaddrLl) :
    ∃ raw' data, rx.parseRecv raw p.packet ll = .ok (raw', some data) ∧
      raw'.sendInfo = raw.sendInfo ∧ raw'.disabled = raw.disabled ∧
      raw'.recvInfo.seq = p.seq ∧ raw'.recvInfo.ackSeq = p.ackSeq ∧
      raw'.recvInfo.dataLen = p.len := by
  obtain ⟨o, s, payload, hreceives, hseq, hackSeq, hlen⟩ := h
  obtain ⟨raw', hparse, -, -, hdata, -, -, hs, ha, -, -, -, hrst, -⟩ :=
    hreceives raw ll nofun
  exact ⟨raw', payload, hparse, RawCtx.parseRecv_sendInfo hparse,
    RawCtx.parseRecv_disabled_of_rst hmode hparse hrst, hs.trans hseq, ha.trans hackSeq,
    hdata.trans hlen⟩

/-- Everything a step of a live end can do to it, its peer having sent the given packets. -/
inductive Moves (rx : RawCtx) (peer : List Sent) (e : End) : End → Prop
  | sent {raw : RawInfo} {p : Sent} (outward : raw.outward = e.raw.outward)
      (genuine : p.Genuine rx) (safer : p.safer = true) (seq : p.seq = e.raw.sendInfo.seq)
      (ackSeq : p.ackSeq = e.raw.sendInfo.ackSeq)
      (next : raw.sendInfo.seq = e.raw.sendInfo.seq ∨ raw.sendInfo.seq = e.raw.recvInfo.ackSeq ∨
        0 < p.len ∧ raw.sendInfo.seq = p.seq + UInt32.ofNat p.len)
      (ack : raw.sendInfo.ackSeq = e.raw.sendInfo.ackSeq)
      (heard : raw.recvInfo.ackSeq = e.raw.recvInfo.ackSeq) :
      Moves rx peer e { e with raw, sent := e.sent ++ [p] }
  | arrived {raw : RawInfo} {p : Sent} {m : RecvMeta} (mem : p ∈ peer)
      (outward : raw.outward = e.raw.outward) (sendInfo : raw.sendInfo = e.raw.sendInfo)
      (heard : raw.recvInfo.ackSeq = p.ackSeq) (seq : m.seq = p.seq) (len : m.dataLen = p.len) :
      Moves rx peer e
        { e with raw, arrived := if p.safer then e.arrived ++ [m] else e.arrived }
  | accepted {raw : RawInfo} {m : RecvMeta} (mem : m ∈ e.arrived)
      (outward : raw.outward = e.raw.outward) (seq : raw.sendInfo.seq = e.raw.sendInfo.seq)
      (heard : raw.recvInfo.ackSeq = e.raw.recvInfo.ackSeq)
      (ack : raw.sendInfo.ackSeq = e.raw.sendInfo.ackSeq ∨
        m.seq = e.raw.sendInfo.ackSeq ∧ 0 < m.dataLen ∧
          raw.sendInfo.ackSeq = m.seq + UInt32.ofNat m.dataLen) :
      Moves rx peer e { e with raw, accepted := e.accepted ++ [m] }

section

variable {tx rx : RawCtx} {e e' : End} {peer : List Sent}

/-- A transmission is a move. -/
theorem moves_of_transmit (hlive : Live tx rx e.raw) (hdrop : tx.randomDrop = 0) {o : SendInputs}
    {seqRoll : UInt32} {payload : Bytes} (h : e.transmit tx o seqRoll payload = some e') :
    Moves rx peer e e' := by
  unfold End.transmit at h
  split_ifs at h with hfit
  have hqueued : ¬ tx.Withholds o e.raw := by
    rintro (⟨hne, -⟩ | hoff)
    · exact hne hdrop
    · rw [hlive.enabled] at hoff
      cases hoff
  obtain ⟨protocol, seg, hseg, hlen, -, -⟩ :=
    @RawCtx.acceptsSegment_buildSegment tx rx o _ hlive.faces hlive.src hlive.dst payload (by omega)
  obtain ⟨header, hheader, -⟩ := @parseIp_buildIpHeader _ _ _ hlive.src hlive.dst protocol
    o.ttl o.ipId seg (by omega)
  have hsend := RawCtx.sendRawBytes_queued hqueued hseg hheader
  obtain ⟨raw', packet, hsend', -, -, -, hreceives⟩ :=
    RawCtx.sendRawBytes_receives hlive.faces hlive.src hlive.dst hfit hqueued
  rw [hsend, if_pos hlive.mode] at hsend'
  rw [hsend, if_pos hlive.mode] at h
  cases hsend'
  cases h
  rw [hlive.mode] at hreceives
  obtain ⟨hack, hheard, hnext⟩ := @RawCtx.afterSend_numbers _
    { e.raw with sendInfo := { e.raw.sendInfo with dataLen := payload.length } }
    seqRoll hlive.mode hlive.seqMode hlive.syn hlive.ack
  exact .sent (tx.afterSend_outward seqRoll _)
    ⟨o, _, payload, hreceives, rfl, rfl, rfl⟩ rfl rfl rfl hnext hack hheard

theorem moves_of_arrive (hlive : Live tx rx e.raw) {p : Sent} (hmem : p ∈ peer)
    (hgenuine : p.Genuine tx) {ll : SockaddrLl} (h : e.arrive tx ll p = some e') :
    Moves rx peer e e' := by
  obtain ⟨raw', data, hparse, hsend, hdisabled, hseq, hack, hlen⟩ :=
    hgenuine.parseRecv hlive.mode e.raw ll
  simp only [End.arrive, hparse] at h
  cases h
  have hout : raw'.outward = e.raw.outward := by rw [RawInfo.outward, hsend, hdisabled]; rfl
  exact .arrived hmem hout hsend hack hseq hlen

theorem moves_of_accept (hlive : Live tx rx e.raw) {m : RecvMeta} (hmem : m ∈ e.arrived) :
    Moves rx peer e (e.accept tx m) := by
  obtain ⟨hseq, hrecv, hack⟩ := RawCtx.afterRecv_numbers e.raw m hlive.mode hlive.seqMode
  exact .accepted hmem (tx.afterRecv_outward e.raw m) hseq (by rw [hrecv]) hack

/-- Every action is a move. -/
theorem moves_of_step (hlive : Live tx rx e.raw) (hdrop : tx.randomDrop = 0)
    (hpeer : ∀ p ∈ peer, p.Genuine tx) {a : Action} (h : e.step tx peer a = some e') :
    Moves rx peer e e' := by
  cases a with
  | send o seqRoll payload => exact moves_of_transmit hlive hdrop h
  | arrive i ll =>
    obtain ⟨p, hp, h⟩ := Option.bind_eq_some_iff.mp h
    have hmem := List.mem_of_getElem? hp
    exact moves_of_arrive hlive hmem (hpeer p hmem) h
  | accept i =>
    obtain ⟨m, hm, rfl⟩ := Option.map_eq_some_iff.mp h
    exact moves_of_accept hlive (List.mem_of_getElem? hm)

theorem Moves.live (h : Moves rx peer e e') (hlive : Live tx rx e.raw) : Live tx rx e'.raw := by
  cases h with
  | sent outward => exact hlive.of_outward outward
  | arrived mem outward => exact hlive.of_outward outward
  | accepted mem outward => exact hlive.of_outward outward

/-- Moves send genuine packets. -/
theorem Moves.genuine (h : Moves rx peer e e') (hsent : ∀ p ∈ e.sent, p.Genuine rx) :
    ∀ p ∈ e'.sent, p.Genuine rx := by
  cases h with
  | sent outward genuine =>
    intro q hq
    rcases List.mem_append.mp hq with hq | hq
    · exact hsent q hq
    · rwa [List.mem_singleton.mp hq]
  | arrived => exact hsent
  | accepted => exact hsent

end

end Conversation

end Udp2raw
