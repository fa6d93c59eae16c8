import Udp2raw.Raw.Destination
import Udp2raw.Raw.Filter
import Udp2raw.Server.Runs

/-!
# What handlers make of the connections

Outside the collector no handler moves the collector's cursor or removes a
connection. It writes no timestamp later than what its event read from the clock,
and a connection that waits for its handshake keeps its address, its id and the
envelope of its packets, which point back at its client.
-/

namespace Udp2raw

/-- What an event can bring: clock readings up to `latest`, ids that are `drawn`, and perhaps a
packet that disables connections. -/
structure Supply where
  latest : UInt64
  drawn : UInt32 → Prop
  resets : Prop

namespace ServerConn

/-- No timestamp the collector looks at is later than `b`. -/
def By (b : UInt64) (c : ServerConn) : Prop :=
  c.info.lastHbRecvTime ≤ b ∧ c.info.lastStateTime ≤ b

/-- The packets of the connection go to its client, from where the server listens, and look like
those of an established TCP connection. -/
structure Faces (cfg : ServerCfg) (c : ServerConn) : Prop where
  dst : c.info.raw.sendInfo.dst = c.addr
  srcPort : c.info.raw.sendInfo.srcPort =
    if cfg.ctx.rawMode = .icmp then c.addr.2 else cfg.ctx.filterPort
  flags : cfg.ctx.rawMode = .fakeTcp →
    c.info.raw.sendInfo.syn = false ∧ c.info.raw.sendInfo.ack = true
  bound : ∀ b, cfg.ctx.bindAddr = some b → c.info.raw.sendInfo.srcIp = b
  srcFamily : c.info.raw.sendInfo.srcIp.isIpv6 = cfg.ctx.isV6
  dstFamily : c.info.raw.sendInfo.dstIp.isIpv6 = cfg.ctx.isV6

/-- What a handler makes of a connection. -/
structure Follows (w : Supply) (c d : ServerConn) : Prop where
  hbRecvTime : c.info.lastHbRecvTime ≤ w.latest → d.info.lastHbRecvTime ≤ w.latest
  stateTime : d.info.lastStateTime = c.info.lastStateTime
  waiting : d.state = .handshake1 → c.state = .handshake1 ∧ d.addr = c.addr ∧
    d.info.myId = c.info.myId ∧ d.info.raw.sendInfo.envelope = c.info.raw.sendInfo.envelope
  disabled : d.state = .handshake1 → d.info.raw.disabled = true →
    c.info.raw.disabled = true ∨ w.resets

/-- What a connection is when it is created. -/
structure New (cfg : ServerCfg) (w : Supply) (d : ServerConn) : Prop where
  stamped : d.By w.latest
  faces : d.Faces cfg
  drawn : w.drawn d.info.myId
  disabled : d.info.raw.disabled = true → w.resets

variable {cfg : ServerCfg} {w : Supply} {c d : ServerConn}

theorem Follows.refl (c : ServerConn) : c.Follows w c :=
  ⟨id, rfl, fun h => ⟨h, rfl, rfl, rfl⟩, fun _ => .inl⟩

/-- The state of the connection stays, and so does what its packets look like. -/
theorem Follows.withInfo {info : ConnInfo}
    (hrecv : c.info.lastHbRecvTime ≤ w.latest → info.lastHbRecvTime ≤ w.latest)
    (hstate : info.lastStateTime = c.info.lastStateTime) (hid : info.myId = c.info.myId)
    (hout : info.raw.outward = c.info.raw.outward) : c.Follows w (c.withInfo info) := by
  have henvelope : info.raw.sendInfo.envelope = c.info.raw.sendInfo.envelope :=
    congrArg Prod.fst hout
  have hdisabled : info.raw.disabled = c.info.raw.disabled := congrArg Prod.snd hout
  exact ⟨hrecv, hstate, fun h => ⟨h, rfl, hid, henvelope⟩, fun _ h => .inl (hdisabled ▸ h)⟩

/-- A connection that does not wait any more. -/
theorem Follows.left (hrecv : c.info.lastHbRecvTime ≤ w.latest → d.info.lastHbRecvTime ≤ w.latest)
    (hstate : d.info.lastStateTime = c.info.lastStateTime) (hleft : d.state ≠ .handshake1) :
    c.Follows w d :=
  ⟨hrecv, hstate, fun h => absurd h hleft, fun h => absurd h hleft⟩

end ServerConn

namespace Server

open Program

/-- The collector's own state stays, and every connection is new or follows one that was there. -/
structure Changes (cfg : ServerCfg) (w : Supply) (s t : Server) : Prop where
  clearCursor : t.clearCursor = s.clearCursor
  lastConnClear : t.lastConnClear = s.lastConnClear
  conns : ∀ i d, t.conns.get? i = some d →
    (∃ j c, s.conns.get? j = some c ∧ c.Follows w d) ∨ d.New cfg w

variable {cfg : ServerCfg} {w : Supply} {s : Server}

theorem Changes.of_conns {t : Server} (hcursor : t.clearCursor = s.clearCursor)
    (hlast : t.lastConnClear = s.lastConnClear) (hconns : t.conns = s.conns) :
    Changes cfg w s t := by
  refine ⟨hcursor, hlast, fun i d hd => .inl ⟨i, d, ?_, .refl d⟩⟩
  rw [← hconns]
  exact hd

variable {slot : Nat} {c : ServerConn} {β : Type} {Q : β → Server → Prop} {o : PacketOracle}
  {buf : Bytes}

/-- One connection is replaced. -/
theorem changes_set {t : Server} {d : ServerConn} (hc : s.conns.get? slot = some c)
    (hconns : t.conns = s.conns.set slot d) (hcursor : t.clearCursor = s.clearCursor)
    (hlast : t.lastConnClear = s.lastConnClear) (hd : c.Follows w d) : Changes cfg w s t := by
  refine ⟨hcursor, hlast, fun i e he => ?_⟩
  rw [hconns, Slab.get?_set hc] at he
  split_ifs at he with hi
  · cases he
    exact .inl ⟨slot, c, hc, hd⟩
  · exact .inl ⟨i, e, he, .refl e⟩

/-- The program changes the connections in this way, whether it returns or aborts. -/
abbrev Alters (cfg : ServerCfg) (w : Supply) {α : Type} (s : Server) (m : ServerM α)
    (Q : α → Server → Prop) : Prop :=
  Runs (fun s _ t => Changes cfg w s t) (fun _ => True) s m Q

/-- Reading a slot alters nothing. -/
theorem alters_slot? {f : Option ServerConn → ServerM β}
    (h : Alters cfg w s (f (s.conns.get? slot)) Q) : Alters cfg w s (slot? slot >>= f) Q := by
  by_cases hlt : slot < s.conns.slots.length
  · exact runs_slot? hlt h
  · have habort : (slot? slot : ServerM (Option ServerConn)) s = .error .index := by
      unfold slot?
      rw [get_bind_apply, List.getElem?_eq_none (Nat.not_lt.mp hlt)]
      rfl
    refine Runs.bind (R := fun _ _ => False) ?_ fun _ _ hfalse => hfalse.elim
    unfold Runs
    rw [habort]
    trivial

/-- A connection that is read is there, or the handler stops. -/
theorem alters_conn {f : ServerConn → ServerM β}
    (h : ∀ c, s.conns.get? slot = some c → Alters cfg w s (f c) Q) :
    Alters cfg w s (conn slot >>= f) Q := by
  cases hc : s.conns.get? slot with
  | some c => exact runs_conn hc (h c hc)
  | none =>
    refine Runs.bind (R := fun _ _ => False) ?_ fun _ _ hfalse => hfalse.elim
    refine alters_slot? ?_
    rw [hc]
    exact runs_abort trivial

theorem alters_putConn {d : ServerConn} {out : List Effect} (hc : s.conns.get? slot = some c)
    (hd : c.Follows w d) : Alters cfg w s (putConn slot d out) fun _ _ => True :=
  runs_act (changes_set hc rfl rfl rfl hd) trivial

theorem alters_emit (out : List Effect) {Q : Unit → Server → Prop} (hq : Q () s) :
    Alters cfg w s (emit out) Q :=
  runs_act (.of_conns rfl rfl rfl) hq

/-- Parsing alters nothing. -/
theorem alters_packet {α : Type} {x : Except Checked.Panic α} {f : α → ServerM β}
    (h : ∀ a, x = .ok a → Alters cfg w s (f a) Q) : Alters cfg w s (packet x >>= f) Q := by
  refine Runs.bind (R := fun a t => x = .ok a ∧ t = s) ?_ ?_
  · exact (runs_packet (Q := fun a t => x = .ok a ∧ t = s) fun _ ha => ⟨ha, rfl⟩).allow
      fun _ _ => trivial
  · rintro a t ⟨ha, rfl⟩
    exact h a ha

/-! ## The handlers -/

theorem alters_sendHeartbeat (slot : Nat) :
    Alters cfg w s (sendHeartbeat cfg slot) fun _ _ => True := by
  refine alters_conn fun c hc => ?_
  exact alters_putConn hc (.withInfo id rfl rfl rfl)

theorem alters_refuse (slot : Nat) (k : ServerConn → UInt32) :
    Alters cfg w s (refuse slot k) fun _ _ => True := by
  refine alters_conn fun c hc => ?_
  exact alters_putConn hc (.left id rfl ServerState.noConfusion)

/-- A recovery moves timestamps from one connection to another. -/
theorem changes_recover {ori : Nat} {oc : ServerConn} (hc : s.conns.get? slot = some c)
    (ho : s.conns.get? ori = some oc) (hready : oc.state = .ready) (hne : ori ≠ slot) :
    Changes cfg w s (s.recover slot ori c oc) := by
  have hleft : (oc.takeOver c s.nextGeneration).state ≠ .handshake1 := by
    change oc.state ≠ _
    rw [hready]
    exact ServerState.noConfusion
  refine ⟨rfl, rfl, fun i d hd => .inl ?_⟩
  rw [get?_recover hc ho hne] at hd
  split_ifs at hd
  · cases hd
    exact ⟨slot, c, hc, .left id rfl ServerState.noConfusion⟩
  · cases hd
    exact ⟨slot, c, hc, .left id rfl hleft⟩
  · exact ⟨i, d, hd, .refl d⟩

/-- What a handshake that becomes ready can alter. -/
theorem alters_preReady {now : UInt64} (hnow : now ≤ w.latest) (slot : Nat) (k : UInt32)
    (plain : Bytes) : Alters cfg w s (preReady cfg now slot k plain) fun _ _ => True := by
  refine runs_get_bind ?_
  cases s.byConstId.lookup k with
  | none =>
    refine runs_ite (fun _ => alters_refuse _ _) fun _ => ?_
    refine alters_conn fun c hc => ?_
    refine Runs.bind (R := fun _ _ => True) (runs_act ?_ trivial) fun _ t _ =>
      alters_sendHeartbeat slot
    exact changes_set hc rfl rfl rfl (.left (fun _ => hnow) rfl ServerState.noConfusion)
  | some ori =>
    refine runs_ite (fun _ => alters_emit _ trivial) fun hne => ?_
    refine alters_conn fun oc ho => ?_
    refine runs_ite (fun _ => ?_) fun hready => ?_
    · exact (alters_emit (Q := fun _ _ => True) _ trivial).bind fun _ _ _ => alters_refuse _ _
    refine alters_conn fun c hc => ?_
    refine runs_ite (fun _ => alters_refuse _ _) fun _ => ?_
    refine Runs.bind (R := fun _ _ => True)
      (runs_act (changes_recover hc ho (not_not.mp hready) hne) trivial) fun _ t _ => ?_
    refine (alters_sendHeartbeat ori).bind fun _ u _ => ?_
    refine alters_conn fun d hd => ?_
    exact alters_putConn hd (.withInfo (fun _ => hnow) rfl rfl rfl)

theorem syncSeq_outward (raw : RawInfo) : (syncSeq cfg raw).outward = raw.outward := by
  unfold syncSeq
  cases cfg.ctx.rawMode <;> rfl

/-- What a packet of a handshake can alter. -/
theorem alters_onHandshake1 (ho : o.readyTime ≤ w.latest) (slot : Nat) (plain payload : Bytes) :
    Alters cfg w s (onHandshake1 cfg o slot plain payload) fun _ _ => True := by
  refine alters_conn fun c hc => ?_
  cases Wire.parseHandshake payload with
  | none => exact alters_emit _ trivial
  | some ids =>
    refine runs_ite (fun _ => ?_) fun _ => ?_
    · refine alters_putConn hc (.withInfo id rfl rfl ?_)
      exact (Conn.sendHandshake_outward ..).trans (syncSeq_outward _)
    · refine runs_ite (fun _ => ?_) fun _ => alters_emit _ trivial
      exact Runs.bind (alters_putConn hc (.withInfo id rfl rfl (syncSeq_outward _)))
        fun _ _ _ => alters_preReady ho _ _ _

theorem alters_notReady (slotOpt : Option Nat) :
    Alters cfg w s (notReady slotOpt) fun _ t => t = s := by
  cases slotOpt with
  | none => exact runs_pure rfl
  | some slot =>
    refine alters_slot? ?_
    cases s.conns.get? slot <;> exact runs_pure rfl

/-- What a SYN can alter. -/
theorem alters_onSyn (o : PacketOracle) (buf : Bytes) (ll : SockaddrLl) (slotOpt : Option Nat) :
    Alters cfg w s (onSyn cfg o buf ll slotOpt) fun _ _ => True := by
  refine (alters_notReady slotOpt).bind fun _ t _ => ?_
  refine runs_ite (fun _ => alters_packet fun r _ => ?_) fun _ => runs_pure trivial
  obtain ⟨tmp, data⟩ := r
  cases data with
  | none => exact runs_pure trivial
  | some data =>
    refine runs_ite (fun _ => runs_pure trivial) fun _ => ?_
    refine runs_ite (fun _ => runs_pure trivial) fun _ => ?_
    exact runs_ite (fun _ => alters_emit _ trivial) fun _ => runs_pure trivial

/-- A new connection is one of the changes. -/
theorem changes_addConn (hc : c.New cfg w) : Changes cfg w s (s.addConn c).1 := by
  refine ⟨rfl, rfl, fun i d hd => ?_⟩
  change (s.conns.alloc c).1.get? i = some d at hd
  rw [Slab.get?_alloc] at hd
  split_ifs at hd
  · cases hd
    exact .inr hc
  · exact .inl ⟨i, d, hd, .refl d⟩

/-- The headers a packet from a new address is parsed into. -/
def firstHeaders (cfg : ServerCfg) (o : PacketOracle) (addr : Addr) : RawInfo :=
  let tmp := RawInfo.new cfg.ctx.rawMode cfg.ctx.isV6 o.seeds
  if cfg.ctx.rawMode = .icmp then
    { tmp with sendInfo := { tmp.sendInfo with dstPort := addr.2, srcPort := addr.2 } } else tmp

/-- The answer goes back to where the packet came from. -/
theorem answer_sendInfo (raw : RawInfo) :
    (answer cfg raw).sendInfo.envelope =
      ((raw.recvInfo.dstIp, raw.recvInfo.dstPort), (raw.recvInfo.srcIp, raw.recvInfo.srcPort),
        raw.sendInfo.syn, raw.sendInfo.ack) := by
  unfold answer fillLowerLevel
  dsimp only
  split <;> rfl

theorem answer_disabled (raw : RawInfo) : (answer cfg raw).disabled = raw.disabled := by
  unfold answer fillLowerLevel
  dsimp only
  split <;> rfl

/-- A new connection answers the packet that created it. -/
theorem faces_newConn {data : Bytes} {ll : SockaddrLl} {tmp : RawInfo} {p : PeekInfo}
    (hpeek : cfg.ctx.peek buf = .ok (some p))
    (hparse : cfg.ctx.parseRecv (firstHeaders cfg o (p.srcIp, p.srcPort)) buf ll =
      .ok (tmp, some data)) : (newConn cfg o s tmp (p.srcIp, p.srcPort)).Faces cfg := by
  obtain ⟨hsrc, hdst, hbound, hport⟩ := RawCtx.parseRecv_addresses hparse
  obtain ⟨p', hpeek', hip, hsrcPort, -⟩ := RawCtx.peek_of_parseRecv hparse
  rw [hpeek] at hpeek'
  cases hpeek'
  have henvelope := @answer_sendInfo cfg tmp
  rw [RawCtx.parseRecv_sendInfo hparse] at henvelope
  refine ⟨?_, ?_, fun htcp => ?_, fun b hb => ?_, ?_, ?_⟩
  · rw [hip, hsrcPort]
    exact congrArg (fun e => e.2.1) henvelope
  · refine (congrArg (fun e => e.1.2) henvelope).trans (hport.trans ?_)
    by_cases hicmp : cfg.ctx.rawMode = .icmp
    · rw [if_pos hicmp, if_pos hicmp, firstHeaders, if_pos hicmp]
      rfl
    · rw [if_neg hicmp, if_neg hicmp]
  · have hnew : firstHeaders cfg o (p.srcIp, p.srcPort) =
        RawInfo.new .fakeTcp cfg.ctx.isV6 o.seeds := by
      rw [firstHeaders, htcp, if_neg RawMode.noConfusion]
    rw [hnew] at henvelope
    exact ⟨congrArg (fun e => e.2.2.1) henvelope, congrArg (fun e => e.2.2.2) henvelope⟩
  · exact (congrArg (fun e => e.1.1) henvelope).trans (hbound b hb)
  · exact (congrArg (fun e => e.1.1.isIpv6) henvelope).trans hdst
  · exact (congrArg (fun e => e.2.1.1.isIpv6) henvelope).trans hsrc

/-- What a packet from a new address can alter. -/
theorem alters_onNewAddress (hcreate : o.createTime ≤ w.latest) (hready : o.readyTime ≤ w.latest)
    (hid : w.drawn o.freshId) (hreset : cfg.ctx.Disables buf → w.resets) (ll : SockaddrLl)
    {p : PeekInfo} (hpeek : cfg.ctx.peek buf = .ok (some p)) :
    Alters cfg w s (onNewAddress cfg o buf ll (p.srcIp, p.srcPort)) fun _ _ => True := by
  refine runs_get_bind ?_
  refine runs_ite (fun _ => runs_pure trivial) fun _ => alters_packet fun r hparse => ?_
  obtain ⟨tmp, data⟩ := r
  cases data with
  | none => exact runs_pure trivial
  | some data =>
    refine runs_ite (fun _ => runs_pure trivial) fun _ => ?_
    cases Conn.openBare cfg.decrypt data with
    | none => exact runs_pure trivial
    | some plain =>
      dsimp only
      split
      · exact alters_emit _ trivial
      · refine runs_ite (fun _ => alters_emit _ trivial) fun _ => ?_
        refine Runs.bind (R := fun _ _ => True) (runs_act ?_ trivial) fun _ _ _ =>
          alters_onHandshake1 hready _ _ _
        refine changes_addConn ⟨⟨UInt64.zero_le, hcreate⟩, faces_newConn hpeek hparse, hid, ?_⟩
        intro hdisabled
        rcases RawCtx.parseRecv_disabled hparse ((answer_disabled tmp).symm.trans hdisabled)
          with hbefore | hdisables
        · unfold RawInfo.new at hbefore
          split_ifs at hbefore
        · exact hreset hdisables

/-- What a packet from a known address can alter. -/
theorem alters_onKnownAddress (ho : o.readyTime ≤ w.latest)
    (hreset : cfg.ctx.Disables buf → w.resets) (ll : SockaddrLl) (slot : Nat) :
    Alters cfg w s (onKnownAddress cfg o buf ll slot) fun _ _ => True := by
  refine alters_conn fun c hc => ?_
  cases hstate : c.state with
  | handshake1 =>
    refine alters_packet fun r hparse => ?_
    obtain ⟨raw, data⟩ := r
    have hparsed : c.Follows w (c.withInfo { c.info with raw := raw }) := by
      refine ⟨id, rfl, fun h => ⟨h, rfl, rfl, ?_⟩, fun _ hdisabled => ?_⟩
      · exact congrArg PacketInfo.envelope (RawCtx.parseRecv_sendInfo hparse)
      · exact (RawCtx.parseRecv_disabled hparse hdisabled).imp_right hreset
    refine Runs.bind (alters_putConn hc hparsed) fun _ _ _ => ?_
    cases data with
    | none => exact runs_pure trivial
    | some data =>
      refine runs_ite (fun _ => runs_pure trivial) fun _ => ?_
      cases Conn.openBare cfg.decrypt data with
      | none => exact runs_pure trivial
      | some plain =>
        dsimp only
        cases Wire.parseBare plain with
        | none => exact alters_emit _ trivial
        | some payload => exact alters_onHandshake1 ho _ _ _
  | ready =>
    refine alters_packet fun r _ => ?_
    obtain ⟨raw, data⟩ := r
    have hleft : (c.withInfo { c.info with raw := raw }).state ≠ .handshake1 := by
      change c.state ≠ _
      rw [hstate]
      exact ServerState.noConfusion
    cases data <;> exact alters_putConn hc (.left id rfl hleft)
  | idle => exact runs_pure trivial

/-- What any raw packet can alter. -/
theorem alters_onRawPacket (hcreate : o.createTime ≤ w.latest) (hready : o.readyTime ≤ w.latest)
    (hid : w.drawn o.freshId) {wire : Bytes}
    (hreset : ∀ buf, clampPacket cfg.fixGro wire = some buf → cfg.ctx.Disables buf → w.resets)
    (ll : SockaddrLl) : Alters cfg w s (onRawPacket cfg o wire ll) fun _ _ => True := by
  unfold onRawPacket
  cases hclamp : clampPacket cfg.fixGro wire with
  | none => exact runs_pure trivial
  | some buf =>
    refine alters_packet fun peek hpeek => ?_
    cases peek with
    | none => exact runs_pure trivial
    | some p =>
      refine runs_get_bind ?_
      refine runs_ite (fun _ => alters_onSyn _ _ _ _) fun _ => ?_
      cases s.byAddr.lookup (p.srcIp, p.srcPort) with
      | none => exact alters_onNewAddress hcreate hready hid (hreset buf hclamp) ll hpeek
      | some slot => exact alters_onKnownAddress hready (hreset buf hclamp) ll slot

/-- What relayed data can alter. -/
theorem alters_relayData (now : UInt64) (slot : Nat) (conv : UInt32) (data : Bytes) :
    Alters cfg w s (relayData now slot conv data) fun _ _ => True := by
  refine alters_conn fun c hc => ?_
  cases c.convs.findDataByConv conv with
  | none => exact runs_abort trivial
  | some sidx =>
    refine Runs.bind (alters_putConn hc ?_) fun _ t _ => ?_
    · exact ⟨id, rfl, fun h => ⟨h, rfl, rfl, rfl⟩, fun _ => .inl⟩
    refine runs_get_bind ?_
    split
    · exact runs_abort trivial
    · exact runs_pure trivial
    · exact alters_emit _ trivial

/-- What data can alter. -/
theorem alters_onData (o : PlainOracle) (slot : Nat) (conv : UInt32) (data : Bytes) :
    Alters cfg w s (onData o slot conv data) fun _ _ => True := by
  refine alters_conn fun c hc => ?_
  refine runs_ite (fun _ => alters_relayData _ _ _ _) fun _ => ?_
  refine runs_ite (fun _ => runs_pure trivial) fun _ => ?_
  cases o.sock with
  | failed => exact runs_pure trivial
  | unregistered => exact runs_act (.of_conns rfl rfl rfl) trivial
  | opened =>
    refine Runs.bind (R := fun _ _ => True) (runs_act ?_ trivial) fun _ _ _ =>
      alters_relayData _ _ _ _
    exact changes_set hc rfl rfl rfl ⟨id, rfl, fun h => ⟨h, rfl, rfl, rfl⟩, fun _ => .inl⟩

/-- What a packet of a ready connection can alter. -/
theorem alters_onReadyPacket {o : PlainOracle} (ho : o.now ≤ w.latest) (slot : Nat) (ptype : UInt8)
    (payload : Bytes) :
    Alters cfg w s (onReadyPacket cfg o slot ptype payload) fun _ _ => True := by
  refine alters_conn fun c hc => ?_
  have hseen : Alters cfg w s
      (putConn slot (c.withInfo { c.info with lastHbRecvTime := o.now }) []) fun _ _ => True :=
    alters_putConn hc (.withInfo (fun _ => ho) rfl rfl rfl)
  refine runs_ite (fun _ => hseen) fun _ => ?_
  refine runs_ite (fun _ => runs_pure trivial) fun _ => ?_
  cases Wire.parseDataPayload payload with
  | none => exact runs_pure trivial
  | some p =>
    dsimp only
    split
    · exact hseen.bind fun _ _ _ => alters_onData _ _ _ _
    · exact alters_onData _ _ _ _

/-- A check of a plaintext changes neither times nor headers nor ids. -/
theorem follows_check {info : ConnInfo} {plain : Bytes} {hbMode : Int32} {now : UInt64}
    {r : Option (UInt8 × Nat)}
    (h : Conn.acceptSaferOffset c.info plain hbMode now = .ok (r, info)) :
    c.Follows w (c.withInfo info) := by
  obtain ⟨hraw, -, hrecv, hstate⟩ := Conn.acceptSaferOffset_frame h
  obtain ⟨_, _, hok, hsame, -⟩ := Conn.acceptSaferOffset_cases c.info plain hbMode now
  rw [h] at hok
  cases hok
  refine .withInfo (fun hby => ?_) hstate hsame.myId (congrArg RawInfo.outward hraw)
  rw [hrecv]
  exact hby

/-- What a batch of packets can alter. -/
theorem alters_acceptAll {o : Nat → PlainOracle} (key : JobKey) (plains : List Bytes)
    (ho : ∀ i < plains.length, (o i).now ≤ w.latest) :
    Alters cfg w s (acceptAll cfg o key plains) fun _ _ => True := by
  induction plains generalizing s o with
  | nil => exact runs_pure trivial
  | cons plain rest ih =>
    have hrest : ∀ i < rest.length, (o (i + 1)).now ≤ w.latest := fun i hi =>
      ho (i + 1) (Nat.succ_lt_succ hi)
    refine alters_conn fun c hc => ?_
    refine Runs.bind (R := fun p t => t = s ∧ c.Follows w (c.withInfo p.2)) ?_ ?_
    · refine runs_ofExcept (fun _ _ => trivial) fun p hp => ⟨rfl, ?_⟩
      cases h : Conn.acceptSaferOffset c.info plain cfg.hbMode (o 0).rollerTime with
      | error e =>
        rw [h] at hp
        cases hp
      | ok q =>
        rw [h] at hp
        cases hp
        exact follows_check h
    · rintro ⟨r, info⟩ t ⟨rfl, hfollows⟩
      cases r with
      | none =>
        exact Runs.bind (alters_putConn hc hfollows) fun _ _ _ => ih hrest
      | some p =>
        refine Runs.bind (alters_putConn hc hfollows) fun _ _ _ => ?_
        refine (alters_onReadyPacket (ho 0 (Nat.succ_pos _)) _ _ _).bind fun _ _ _ => ?_
        exact (ih hrest).bind fun _ _ _ => runs_pure trivial

/-- What the end of a job can alter. -/
theorem alters_onDone {o : DoneOracle} {d : Done}
    (ho : ∀ key plains recv, d = .decrypted key plains recv →
      ∀ i < plains.length, (o.plain i).now ≤ w.latest) :
    Alters cfg w s (onDone cfg o d) fun _ _ => True := by
  cases d with
  | encrypted key wire =>
    cases wire with
    | none => exact runs_pure trivial
    | some wire =>
      refine runs_get_bind (runs_ite (fun _ => ?_) fun _ => runs_pure trivial)
      refine alters_conn fun c hc => ?_
      exact alters_putConn hc (.withInfo id rfl rfl (Conn.transmitSafer_outward ..))
  | decrypted key plains recv =>
    refine runs_get_bind (runs_ite (fun _ => ?_) fun _ => runs_pure trivial)
    refine (alters_acceptAll key plains (ho key plains recv rfl)).bind fun _ _ _ => ?_
    refine runs_ite (fun _ => ?_) fun _ => runs_pure trivial
    refine alters_conn fun c hc => ?_
    exact alters_putConn hc (.withInfo id rfl rfl (RawCtx.afterRecv_outward ..))

/-- What a datagram can alter. -/
theorem alters_onSockPacket (slot : Nat) (conv : UInt32) (data : Bytes) :
    Alters cfg w s (onSockPacket slot conv data) fun _ _ => True := by
  refine runs_ite (fun _ => runs_pure trivial) fun _ => alters_slot? ?_
  cases hc : s.conns.get? slot with
  | none => exact runs_pure trivial
  | some c =>
    refine runs_ite (fun _ => alters_emit _ trivial) fun _ => ?_
    exact alters_putConn hc (.withInfo id rfl rfl rfl)

/-- What a readable socket can alter. -/
theorem alters_onSockReadable (sidx : Nat) (datagrams : List Bytes) :
    Alters cfg w s (onSockReadable sidx datagrams) fun _ _ => True := by
  refine runs_get_bind ?_
  split
  · exact runs_abort trivial
  · exact runs_pure trivial
  · exact runs_forEach (fun data _ t _ => alters_onSockPacket _ _ _) trivial

/-- What the timer can alter in a slot. -/
theorem alters_timerSlot (now : UInt64) (slot : Nat) :
    Alters cfg w s (timerSlot cfg now slot) fun _ _ => True := by
  refine alters_slot? ?_
  cases hc : s.conns.get? slot with
  | none => exact runs_pure trivial
  | some c =>
    refine runs_ite (fun _ => runs_pure trivial) fun _ => runs_get_bind ?_
    refine runs_ite (fun _ => runs_abort trivial) fun _ => ?_
    refine Runs.bind (R := fun _ _ => True) (runs_act ?_ trivial) fun _ t _ => ?_
    · exact changes_set hc rfl rfl rfl ⟨id, rfl, fun h => ⟨h, rfl, rfl, rfl⟩, fun _ => .inl⟩
    refine alters_conn fun d hd => runs_ite (fun _ => runs_pure trivial) fun _ => ?_
    refine (alters_sendHeartbeat slot).bind fun _ u _ => ?_
    refine alters_conn fun e he => ?_
    exact alters_putConn he (.withInfo id rfl rfl rfl)

theorem alters_timerSlots (now : UInt64) : Alters cfg w s (timerSlots cfg now) fun _ _ => True := by
  refine runs_get_bind ?_
  exact runs_forEach (fun slot _ t _ => alters_timerSlot now slot) trivial

end Server

end Udp2raw
