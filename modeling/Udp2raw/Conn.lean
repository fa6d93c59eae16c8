import Udp2raw.AntiReplay
import Udp2raw.Raw.Info
import Udp2raw.Wire

/-!
# Per-connection state

What client and server keep for one connection, and the packet helpers both
share. Times are the wrapping 64-bit milliseconds of the source. Clock readings,
random numbers and the ciphers are arguments.
-/

namespace Udp2raw

open Checked

/-- `ConnInfo`. -/
structure ConnInfo where
  raw : RawInfo
  lastStateTime : UInt64 := 0
  /-- The client re-uses this as the retry timer during handshakes. -/
  lastHbSentTime : UInt64 := 0
  lastHbRecvTime : UInt64 := 0
  myId : UInt32 := 0
  oppsiteId : UInt32 := 0
  oppsiteConstId : UInt32 := 0
  myRoller : UInt8 := 0
  oppsiteRoller : UInt8 := 0
  lastOppsiteRollerTime : UInt64 := 0
  antiReplay : AntiReplay

/-- `ConnInfo::new`; the seeds are its random draws. -/
def ConnInfo.new (rawMode : RawMode) (isV6 disableAntiReplay : Bool) (seeds : RawSeeds)
    (random : UInt64) : ConnInfo :=
  { raw := .new rawMode isV6 seeds, antiReplay := .new disableAntiReplay random }

/-- `recover_from`: take over the raw connection and the ids of `other`. The send counter,
the const id and the conversations stay. -/
def ConnInfo.recoverFrom (self other : ConnInfo) : ConnInfo :=
  { self with
    raw := { other.raw with rstReceived := 0, disabled := false }
    lastStateTime := other.lastStateTime
    lastHbRecvTime := other.lastHbRecvTime
    lastHbSentTime := other.lastHbSentTime
    myId := other.myId
    oppsiteId := other.oppsiteId
    antiReplay := self.antiReplay.reInit
    myRoller := 0
    oppsiteRoller := 0
    lastOppsiteRollerTime := 0 }

/-- The sequence number of a safer plaintext. -/
def seqOf (plain : Bytes) : Nat := ((Wire.parseSaferIds plain).map fun ids => ids.seq.toNat).getD 0

namespace Conn

/-- The decrypt half of `parse_bare`: the plaintext of a payload that is not too long. -/
def openBare (decrypt : Bytes → Option Bytes) (data : Bytes) : Option Bytes :=
  if data.length > maxDataLen then none else decrypt data

/-- `send_bare`: the plaintext and the raw state afterwards. A plaintext the cipher refuses
is not sent. -/
def sendBare (ctx : RawCtx) (encrypt : Bytes → Option Bytes) (iv padding : UInt64) (roll : UInt32)
    (raw : RawInfo) (payload : Bytes) : RawInfo × Bytes :=
  let plain := Wire.buildBare iv padding payload
  match encrypt plain with
  | none => (raw, plain)
  | some wire => ((ctx.sendRaw roll raw wire).1, plain)

/-- `send_handshake`: three ids as a bare packet. -/
def sendHandshake (ctx : RawCtx) (encrypt : Bytes → Option Bytes) (iv padding : UInt64)
    (roll : UInt32) (raw : RawInfo) (id1 id2 id3 : UInt32) : RawInfo × Bytes :=
  sendBare ctx encrypt iv padding roll raw (Wire.buildHandshake id1 id2 id3)

/-- The header the next safer packet of a connection gets. -/
def nextHeader (info : ConnInfo) (ptype : UInt8) : Wire.SaferHeader :=
  { myId := info.myId, oppsiteId := info.oppsiteId, seq := info.antiReplay.nextSendSeq
    ptype := ptype, roller := info.myRoller }

/-- `prepare_safer_into`: the plaintext of a safer packet, consuming one sequence number. -/
def prepareSafer (info : ConnInfo) (ptype : UInt8) (payload : Bytes) : Bytes × ConnInfo :=
  (Wire.buildSafer (nextHeader info ptype) payload,
    { info with antiReplay := info.antiReplay.nextSeqForSend.2 })

/-- `prepare_safer_data_into`: a data packet written behind an empty payload. -/
def prepareSaferData (info : ConnInfo) (conv : UInt32) (data : Bytes) : Bytes × ConnInfo :=
  let (out, info) := prepareSafer info typeData []
  (out ++ u32ToBe conv ++ data, info)

/-- `transmit_safer`: send the wire bytes and advance the FakeTCP state. -/
def transmitSafer (ctx : RawCtx) (dropRoll seqRoll : UInt32) (raw : RawInfo) (wire : Bytes) :
    RawInfo :=
  ctx.afterSend seqRoll (ctx.sendRaw dropRoll raw wire).1

/-- The roller bookkeeping of an accepted packet; `now` is the clock. -/
def noteRoller (info : ConnInfo) (ptype roller : UInt8) (hbMode : Int32) (now : UInt64) :
    ConnInfo :=
  let info := if roller ≠ info.oppsiteRoller then
    { info with oppsiteRoller := roller, lastOppsiteRollerTime := now } else info
  if hbMode = 0 ∨ ptype = typeHeartbeat then { info with myRoller := info.myRoller + 1 } else info

/-- `accept_safer_offset`: id check, anti-replay, type and roller. The type and the offset of
the payload, or none; a marked sequence number stays marked when the body is refused. -/
def acceptSaferOffset (info : ConnInfo) (plain : Bytes) (hbMode : Int32) (now : UInt64) :
    Except Panic (Option (UInt8 × Nat) × ConnInfo) := do
  match Wire.parseSaferIds plain with
  | none => return (none, info)
  | some ids =>
    if ids.oppsiteId ≠ info.oppsiteId ∨ ids.myId ≠ info.myId then return (none, info)
    let (valid, antiReplay) ← info.antiReplay.isValid ids.seq.toNat
    let info := { info with antiReplay := antiReplay }
    if !valid then return (none, info)
    match Wire.parseSaferBody plain with
    | none => return (none, info)
    | some (ptype, roller, _) =>
      return (some (ptype, Wire.saferHeaderLen), noteRoller info ptype roller hbMode now)

/-- A data packet is a safer packet whose payload starts with the conversation. -/
theorem prepareSaferData_eq (info : ConnInfo) (conv : UInt32) (data : Bytes) :
    prepareSaferData info conv data =
      prepareSafer info typeData (Wire.buildDataPayload conv data) := by
  simp [prepareSaferData, prepareSafer, Wire.buildSafer, Wire.buildDataPayload]

/-- A prepared packet carries the ids of its connection and the next sequence number. -/
theorem parseSaferIds_prepareSafer (info : ConnInfo) (ptype : UInt8) (payload : Bytes) :
    Wire.parseSaferIds (prepareSafer info ptype payload).1 =
      some { oppsiteId := info.myId, myId := info.oppsiteId, seq := info.antiReplay.nextSendSeq } :=
  Wire.parseSaferIds_buildSafer _ _

/-- Two states of one connection between which neither the ids nor the send counter nor the
const id changed. -/
structure SameSession (a b : ConnInfo) : Prop where
  myId : b.myId = a.myId
  oppsiteId : b.oppsiteId = a.oppsiteId
  oppsiteConstId : b.oppsiteConstId = a.oppsiteConstId
  nextSendSeq : b.antiReplay.nextSendSeq = a.antiReplay.nextSendSeq

/-- Only headers, times and rollers of a connection change. -/
structure SameConn (a b : ConnInfo) : Prop extends Conn.SameSession a b where
  antiReplay : b.antiReplay = a.antiReplay

theorem SameConn.of_eq {a b : ConnInfo} (hm : b.myId = a.myId) (ho : b.oppsiteId = a.oppsiteId)
    (hk : b.oppsiteConstId = a.oppsiteConstId) (ha : b.antiReplay = a.antiReplay) : SameConn a b :=
  ⟨⟨hm, ho, hk, by rw [ha]⟩, ha⟩

theorem SameSession.trans {a b c : ConnInfo} (h : SameSession a b) (h' : SameSession b c) :
    SameSession a c :=
  ⟨h'.myId.trans h.myId, h'.oppsiteId.trans h.oppsiteId,
    h'.oppsiteConstId.trans h.oppsiteConstId, h'.nextSendSeq.trans h.nextSendSeq⟩

theorem SameConn.trans {a b c : ConnInfo} (h : SameConn a b) (h' : SameConn b c) : SameConn a c :=
  ⟨h.toSameSession.trans h'.toSameSession, h'.antiReplay.trans h.antiReplay⟩

theorem noteRoller_same (info : ConnInfo) (ptype roller : UInt8) (hbMode : Int32) (now : UInt64) :
    SameConn info (noteRoller info ptype roller hbMode now) ∧
      (noteRoller info ptype roller hbMode now).raw = info.raw := by
  unfold noteRoller
  dsimp only
  split <;> split <;> exact ⟨.of_eq rfl rfl rfl rfl, rfl⟩

/-- The ids of a plaintext name this connection, sender first. -/
def Addressed (info : ConnInfo) (plain : Bytes) (seq : UInt64) : Prop :=
  Wire.parseSaferIds plain =
    some { oppsiteId := info.oppsiteId, myId := info.myId, seq := seq }

/-- What a check of a plaintext can do: leave everything, or mark the number of a plaintext
addressed to the connection, and then accept it exactly when its body parses. -/
theorem acceptSaferOffset_cases (info : ConnInfo) (plain : Bytes) (hbMode : Int32) (now : UInt64) :
    ∃ r after, acceptSaferOffset info plain hbMode now = .ok (r, after) ∧
      SameSession info after ∧ after.raw = info.raw ∧
      ((r = none ∧ after = info) ∨
        ∃ seq, Addressed info plain seq ∧
          info.antiReplay.isValid seq.toNat = .ok (true, after.antiReplay) ∧
          r = (Wire.parseSaferBody plain).map fun body => (body.1, Wire.saferHeaderLen)) := by
  unfold acceptSaferOffset
  cases hids : Wire.parseSaferIds plain with
  | none => exact ⟨none, info, rfl, ⟨rfl, rfl, rfl, rfl⟩, rfl, .inl ⟨rfl, rfl⟩⟩
  | some ids =>
    dsimp only
    by_cases hne : ids.oppsiteId ≠ info.oppsiteId ∨ ids.myId ≠ info.myId
    · rw [if_pos hne]
      exact ⟨none, info, rfl, ⟨rfl, rfl, rfl, rfl⟩, rfl, .inl ⟨rfl, rfl⟩⟩
    · rw [if_neg hne]
      obtain ⟨hopp, hmy⟩ := not_or.mp hne
      have haddr : Addressed info plain ids.seq := by
        rw [Addressed, hids, ← not_not.mp hopp, ← not_not.mp hmy]
      obtain ⟨v, b, hv, hsend, -, hsame⟩ := info.antiReplay.isValid_returns ids.seq.toNat
      rw [hv]
      cases v with
      | false =>
        refine ⟨none, info, ?_, ⟨rfl, rfl, rfl, rfl⟩, rfl, .inl ⟨rfl, rfl⟩⟩
        rw [hsame rfl]
        rfl
      | true =>
        cases hbody : Wire.parseSaferBody plain with
        | none =>
          exact ⟨none, _, rfl, ⟨rfl, rfl, rfl, hsend⟩, rfl, .inr ⟨ids.seq, haddr, hv, rfl⟩⟩
        | some body =>
          obtain ⟨ptype, roller, payload⟩ := body
          obtain ⟨hs, hraw⟩ :=
            noteRoller_same { info with antiReplay := b } ptype roller hbMode now
          refine ⟨_, _, rfl, ⟨hs.myId, hs.oppsiteId, hs.oppsiteConstId,
            hs.nextSendSeq.trans hsend⟩, hraw, .inr ⟨ids.seq, haddr, ?_, rfl⟩⟩
          rw [hv, hs.antiReplay]

end Conn

end Udp2raw
