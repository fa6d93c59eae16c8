import Udp2raw.Attempt.Course
import Udp2raw.Client.Foreign

/-!
# Moves of the timer machine

Between two calls of `on_timer` a packet can advance the handshake; everything else
leaves the attempt where it is. Every handler but the one of the operator's
commands is made of such moves and of calls of `on_timer`, wherever it makes them.
What is known of these is asked of each handler in terms of the state it starts in.
-/

namespace Udp2raw

open Program

namespace Client

/-- What moves the attempt of a client. -/
inductive Cause where
  /-- A call of `on_timer`. -/
  | tick (o : TimerOracle)
  /-- A packet that the handshake was waiting for. -/
  | answer

/-- One move of the timer machine; `P` is what is known of the causes. -/
inductive Move (cfg : ClientCfg) (P : Client → Cause → Prop) :
    Client → List Effect → Client → Prop where
  | tick {c d : Client} {out : List Effect} (o : TimerOracle) (known : P c (.tick o))
      (run : onTimer cfg o c = .ok ((), d, out)) : Move cfg P c out d
  | answer {c d : Client} {out : List Effect} (known : P c .answer)
      (state : c.state.handshaking = true) (next : d.state = .handshake1 ∨ d.state = .handshake2)
      (kept : Kept cfg c d) (quiet : ∀ e ∈ out, e.Calm) : Move cfg P c out d
  | calm {c d : Client} {out : List Effect} (calm : Calm cfg c d) (quiet : ∀ e ∈ out, e.Calm) :
      Move cfg P c out d

/-- A handler is made of moves with known causes. -/
abbrev Moves (cfg : ClientCfg) (P : Client → Cause → Prop) {α : Type} (c : Client) (m : ClientM α)
    (Q : α → Client → Prop) : Prop :=
  Runs (Move cfg P) (fun _ => True) c m Q

variable {cfg : ClientCfg} {P : Client → Cause → Prop} {c d : Client}

theorem moves_calm {f : Client → Client} {out : List Effect} (calm : Calm cfg c (f c))
    (quiet : ∀ e ∈ out, e.Calm) {Q : Unit → Client → Prop} (hq : Q () (f c)) :
    Moves cfg P c (act f out) Q :=
  runs_act (.calm calm quiet) hq

theorem moves_emit {out : List Effect} (quiet : ∀ e ∈ out, e.Calm) :
    Moves cfg P c (emit out) fun _ _ => True :=
  moves_calm (.refl c) quiet trivial

/-- The timer makes moves. -/
theorem moves_onTimer {o : TimerOracle} (known : P c (.tick o)) :
    Moves cfg P c (onTimer cfg o) fun _ _ => True := by
  have hgoes : Goes cfg (fun _ => True) (fun _ => False) c (onTimer cfg o) fun _ _ => True :=
    goes_onTimer (fun _ => trivial) (fun _ _ _ _ => trivial) (fun _ _ => trivial)
      fun _ _ _ => trivial
  cases hrun : onTimer cfg o c with
  | error e => exact (hgoes.error hrun).elim
  | ok r =>
    obtain ⟨_, d, out⟩ := r
    unfold Moves Runs
    rw [hrun]
    exact ⟨.single (.tick o known hrun), trivial⟩

theorem moves_convFor (now : UInt64) (newConv : UInt32) (peer : IpAddr × UInt16) :
    Moves cfg P c (convFor now newConv peer) fun _ _ => True := by
  refine runs_get_bind ?_
  cases c.convs.findConvByData peer with
  | some conv => exact runs_pure trivial
  | none =>
    refine runs_ite (fun _ => runs_pure trivial) fun _ => ?_
    exact (moves_calm (.of_eq rfl rfl rfl rfl rfl fun _ => rfl) (by simp)
      (Q := fun _ _ => True) trivial).bind fun _ _ _ => runs_pure trivial

theorem moves_onUdpPacket (now : UInt64) (newConv : UInt32) (data : Bytes)
    (peer : IpAddr × UInt16) :
    Moves cfg P c (onUdpPacket now newConv data peer) fun _ _ => True := by
  refine runs_ite (fun _ => runs_pure trivial) fun _ => ?_
  refine (moves_convFor now newConv peer).bind fun known d _ => ?_
  cases known with
  | none => exact runs_pure trivial
  | some conv =>
    refine (moves_calm (.of_eq rfl rfl rfl rfl rfl fun _ => rfl) (by simp)
      (Q := fun _ _ => True) trivial).bind fun _ e _ => runs_get_bind ?_
    refine runs_ite (fun _ => ?_) fun _ => runs_pure trivial
    rw [Conn.prepareSaferData_eq]
    exact moves_calm (.of_eq rfl rfl rfl rfl rfl fun _ => rfl) (by simp [handIn, Effect.Calm])
      trivial

/-- A parsed packet only changes the headers of the receiving direction, and may disable the
connection of a client that is not idle. -/
theorem moves_receive (hs : c.state ≠ .idle) (buf : Bytes) (ll : SockaddrLl) :
    Moves cfg P c (receive cfg buf ll) fun _ d => d.state = c.state ∧
      d.untried cfg = c.untried cfg ∧
      (d.info.raw.disabled = true → c.info.raw.disabled = true ∨ (c.ctx cfg).Disables buf) := by
  refine runs_get_bind ?_
  refine Runs.bind ((runs_packet (Q := fun r d =>
    d = c ∧ (c.ctx cfg).parseRecv c.info.raw buf ll = .ok r) fun _ h => ⟨rfl, h⟩).allow
      fun _ _ => trivial) ?_
  rintro ⟨raw, data⟩ d ⟨rfl, hparse⟩
  have hdst := congrArg PacketInfo.dst (RawCtx.parseRecv_sendInfo hparse)
  exact (moves_calm (.of_eq rfl hdst rfl rfl rfl fun h => absurd h hs) (by simp)
    (Q := fun _ e => e = d.withRaw raw) rfl).bind fun _ _ h => runs_pure <| by
      rw [h]
      exact ⟨rfl, rfl, RawCtx.parseRecv_disabled hparse⟩

section Answers

/-! The handshake advances and `on_timer` runs: from a client that has tried, and with what is
known of a tick there. -/

variable {o : ClientPacketOracle} (answer : P c .answer)
  (tick : ∀ d : Client, d.state ≠ .idle → d.untried cfg = false →
    d.info.raw.disabled = c.info.raw.disabled → P d (.tick o.timer))

include answer tick

/-- Entering the next handshake is a move. -/
theorem moves_enter {f : Client → Client} {out : List Effect} (hs : c.state.handshaking = true)
    (next : (f c).state = .handshake1 ∨ (f c).state = .handshake2)
    (later : firstState cfg ≠ (f c).state) (hremote : (f c).remote = c.remote)
    (hdst : (f c).info.raw.sendInfo.dst = c.info.raw.sendInfo.dst)
    (hdisabled : (f c).info.raw.disabled = c.info.raw.disabled) (quiet : ∀ e ∈ out, e.Calm) :
    Moves cfg P c (enter cfg o f out) fun _ _ => True := by
  have hopening : (f c).state.opening = true → c.state.opening = true := by
    rcases next with next | next <;> rw [next] <;> exact nofun
  refine (runs_act (.answer answer hs next (.of_dst hremote hdst hopening) quiet)
    (Q := fun _ d => d.state = (f c).state ∧ d.info.raw = (f c).info.raw) ⟨rfl, rfl⟩).bind
      fun _ d hd => moves_onTimer (tick d ?_ ?_ ?_)
  · rw [hd.1]
    rcases next with next | next <;> rw [next] <;> decide
  · rw [untried, hd.1, beq_eq_false_iff_ne.mpr later.symm]
    rfl
  · rw [hd.2]
    exact hdisabled

theorem moves_onTcpHandshake (hmode : cfg.ctx.rawMode = .fakeTcp)
    (hs : c.state = .tcpHandshake ∨ c.state = .tcpHandshakeDummy) (dst : IpAddr × UInt16)
    (data : Bytes) : Moves cfg P c (onTcpHandshake cfg o dst data) fun _ _ => True := by
  have hhand : c.state.handshaking = true := by
    rcases hs with hs | hs <;> rw [hs] <;> rfl
  have hlater : firstState cfg ≠ .handshake1 := by
    unfold firstState
    rw [hmode]
    cases cfg.easyFaketcp <;> simp
  refine runs_get_bind ?_
  dsimp only
  refine runs_ite (fun _ => runs_pure trivial) fun _ => ?_
  refine runs_ite (fun _ => runs_pure trivial) fun _ => ?_
  refine runs_ite (fun _ => ?_) fun _ => runs_pure trivial
  refine runs_ite (fun _ => ?_) fun _ => ?_
  · refine runs_ite (fun _ => runs_pure trivial) fun _ => ?_
    exact moves_enter answer tick hhand (.inl rfl) hlater rfl rfl rfl (by simp)
  · exact moves_enter answer tick hhand (.inl rfl) hlater rfl rfl rfl (by simp)

theorem moves_onHandshake1 (hs : c.state = .handshake1) (dst : IpAddr × UInt16) (data : Bytes) :
    Moves cfg P c (onHandshake1 cfg o dst data) fun _ _ => True := by
  have opened : ∀ plain, Moves cfg P c (emit [.openBare plain]) fun _ _ => True := fun plain =>
    moves_emit (by simp [Effect.Calm])
  refine runs_get_bind ?_
  dsimp only
  refine runs_ite (fun _ => runs_pure trivial) fun _ => ?_
  cases Conn.openBare cfg.decrypt data with
  | none => exact runs_pure trivial
  | some plain =>
    dsimp only
    cases Wire.parseBare plain with
    | none => exact opened plain
    | some payload =>
      dsimp only
      refine runs_ite (fun _ => opened plain) fun _ => ?_
      cases Wire.parseHandshake payload with
      | none => exact opened plain
      | some ids =>
        dsimp only
        refine runs_ite (fun _ => opened plain) fun _ => ?_
        refine runs_ite (fun _ => opened plain) fun _ => ?_
        exact moves_enter answer tick (by rw [hs]; rfl) (.inr rfl) firstState_ne_handshake2
          rfl rfl rfl (by simp [Effect.Calm])

end Answers

theorem moves_onSession (dst : IpAddr × UInt16) (data : Bytes) :
    Moves cfg P c (onSession dst data) fun _ _ => True := by
  refine runs_get_bind ?_
  dsimp only
  exact runs_ite (fun _ => moves_emit (by simp [Effect.Calm])) fun _ =>
    moves_emit (by simp [Effect.Calm])

/-- A packet from elsewhere leaves the attempt where it is. -/
theorem moves_onRawPacket_foreign {wire : Bytes} (hs : c.state ≠ .idle)
    (hforeign : c.Foreign cfg wire) (o : ClientPacketOracle) (ll : SockaddrLl) :
    Moves cfg P c (onRawPacket cfg o wire ll) fun _ _ => True := by
  cases hrun : onRawPacket cfg o wire ll c with
  | error e =>
    unfold Moves Runs
    rw [hrun]
    trivial
  | ok r =>
    obtain ⟨_, d, out⟩ := r
    unfold Moves Runs
    rw [hrun]
    refine ⟨.single ?_, trivial⟩
    cases hclamp : clampPacket cfg.fixGro wire with
    | none =>
      unfold onRawPacket at hrun
      rw [hclamp] at hrun
      cases hrun
      exact .calm (.refl c) (by simp)
    | some buf =>
      have hreceive := hrun
      rw [onRawPacket_eq hclamp hs] at hreceive
      obtain ⟨data, e, first, rest, hreceive, -, -⟩ := bind_eq_ok.mp hreceive
      obtain ⟨after, hparse⟩ : ∃ after,
          (c.ctx cfg).parseRecv c.info.raw buf ll = .ok (after, data) := by
        unfold receive at hreceive
        rw [get_bind_apply] at hreceive
        cases hparse : (c.ctx cfg).parseRecv c.info.raw buf ll with
        | error stop =>
          rw [hparse] at hreceive
          cases hreceive
        | ok r =>
          rw [hparse] at hreceive
          cases hreceive
          exact ⟨_, rfl⟩
      obtain ⟨out', hrun', hnotes⟩ := onRawPacket_foreign (o := o) hforeign hs hclamp hparse
      rw [hrun'] at hrun
      cases hrun
      have hdst := congrArg PacketInfo.dst (RawCtx.parseRecv_sendInfo hparse)
      refine .calm (.of_eq rfl hdst rfl rfl rfl fun h => absurd h hs) fun e he => ?_
      have hnote := hnotes e he
      cases e <;> trivial

/-- A packet from elsewhere, or one of which it is known what it may advance. -/
theorem moves_onRawPacket {o : ClientPacketOracle} {wire : Bytes}
    (hmode : c.state.opening = true → cfg.ctx.rawMode = .fakeTcp)
    (known : c.Foreign cfg wire ∨ ∀ d : Client, d.untried cfg = c.untried cfg → P d .answer)
    (tick : ∀ d : Client, d.state ≠ .idle → d.untried cfg = false →
      (d.info.raw.disabled = true → c.info.raw.disabled = true ∨
        ∃ buf, clampPacket cfg.fixGro wire = some buf ∧ (c.ctx cfg).Disables buf) →
      P d (.tick o.timer)) (ll : SockaddrLl) :
    Moves cfg P c (onRawPacket cfg o wire ll) fun _ _ => True := by
  by_cases hidle : c.state = .idle
  · unfold onRawPacket
    cases clampPacket cfg.fixGro wire with
    | none => exact runs_pure trivial
    | some buf =>
      exact runs_get_bind (runs_ite (fun _ => runs_pure trivial) fun h => absurd hidle h)
  obtain hforeign | answer := known
  · exact moves_onRawPacket_foreign hidle hforeign o ll
  unfold onRawPacket
  cases hclamp : clampPacket cfg.fixGro wire with
  | none => exact runs_pure trivial
  | some buf =>
    refine runs_get_bind (runs_ite (fun _ => runs_pure trivial) fun _ => ?_)
    refine (moves_receive hidle buf ll).bind fun data d hd => ?_
    obtain ⟨hstate, hsame, hdisables⟩ := hd
    have htick : ∀ e : Client, e.state ≠ .idle → e.untried cfg = false →
        e.info.raw.disabled = d.info.raw.disabled → P e (.tick o.timer) :=
      fun e hs hu hdis => tick e hs hu fun h =>
        (hdisables (hdis ▸ h)).imp_right fun h => ⟨buf, hclamp, h⟩
    cases data with
    | none => exact runs_pure trivial
    | some data =>
      dsimp only
      cases hs : c.state with
      | idle => exact absurd hs hidle
      | tcpHandshake =>
        exact moves_onTcpHandshake (answer d hsame) htick (hmode (by rw [hs]; rfl))
          (.inl (hstate.trans hs)) _ data
      | tcpHandshakeDummy =>
        exact moves_onTcpHandshake (answer d hsame) htick (hmode (by rw [hs]; rfl))
          (.inr (hstate.trans hs)) _ data
      | handshake1 => exact moves_onHandshake1 (answer d hsame) htick (hstate.trans hs) _ data
      | handshake2 => exact moves_onSession _ data
      | ready => exact moves_onSession _ data

/-- A client that waits for its first packet becomes ready. -/
theorem calm_becomeReady (hs : c.state = .handshake2) (now : UInt64) :
    Calm cfg c (c.becomeReady now) where
  toKept := .of_dst rfl rfl nofun
  fresh := by
    rw [fresh_eq_false (c := c) (by simp [hs]) (hs ▸ firstState_ne_handshake2.symm)]
    exact fresh_eq_false (by simp [becomeReady]) firstState_ne_ready.symm
  idle h := by cases h

theorem moves_authenticate {o : ClientPlainOracle}
    (tick : ∀ d : Client, d.state = .ready → P d (.tick o.timer)) (plain : Bytes) :
    Moves cfg P c (authenticate cfg o plain) fun _ _ => True := by
  refine runs_get_bind (runs_ite (fun hs => ?_) fun _ => runs_pure trivial)
  refine (moves_calm (calm_becomeReady hs _) (by simp [Effect.Calm])
    (Q := fun _ d => d.state = .ready) rfl).bind fun _ d hd => ?_
  exact moves_onTimer (tick d hd)

theorem moves_heard {now : UInt64} {out : List Effect} (quiet : ∀ e ∈ out, e.Calm) :
    Moves cfg P c (heard now out) fun _ _ => True :=
  moves_calm (.of_eq rfl rfl rfl rfl rfl fun _ => rfl) quiet trivial

theorem moves_relayData (o : ClientPlainOracle) (conv : UInt32) (data : Bytes) :
    Moves cfg P c (relayData o conv data) fun _ _ => True := by
  refine runs_get_bind (runs_ite (fun _ => runs_pure trivial) fun _ => ?_)
  refine (moves_calm (.of_eq rfl rfl rfl rfl rfl fun _ => rfl) (by simp [Effect.Calm])
    (Q := fun _ _ => True) trivial).bind fun _ d _ => runs_get_bind ?_
  cases d.convs.findDataByConv conv with
  | none => exact runs_abort trivial
  | some peer => exact moves_emit (by simp [Effect.Calm])

/-- An accepted packet makes moves. -/
theorem moves_onSaferPacket {o : ClientPlainOracle}
    (tick : ∀ d : Client, d.state = .ready → P d (.tick o.timer)) (plain : Bytes) (ptype : UInt8)
    (payload : Bytes) :
    Moves cfg P c (onSaferPacket cfg o plain ptype payload) fun _ _ => True := by
  refine (moves_authenticate tick plain).bind fun _ d _ => ?_
  refine runs_ite (fun _ => moves_heard (by simp [Effect.Calm])) fun _ => ?_
  refine runs_ite (fun _ => ?_) fun _ => runs_pure trivial
  cases Wire.parseDataPayload payload with
  | none => exact runs_pure trivial
  | some r =>
    obtain ⟨conv, data⟩ := r
    dsimp only
    refine runs_ite (fun _ => ?_) fun _ => moves_relayData o conv data
    exact (moves_heard (by simp)).bind fun _ _ _ => moves_relayData o conv data

/-- A batch makes moves. -/
theorem moves_acceptAll {o : Nat → ClientPlainOracle}
    (tick : ∀ i (d : Client), d.state = .ready → P d (.tick (o i).timer)) (key : JobKey)
    (plains : List Bytes) : Moves cfg P c (acceptAll cfg o key plains) fun _ _ => True := by
  induction plains generalizing c o with
  | nil => exact runs_pure trivial
  | cons plain rest ih =>
    refine runs_get_bind ?_
    obtain ⟨r, after, hr, -⟩ :=
      Conn.acceptSaferOffset_cases c.info plain cfg.hbMode (o 0).rollerTime
    obtain ⟨hraw, hsent, -⟩ := Conn.acceptSaferOffset_frame hr
    have hcalm : Calm cfg c (c.withInfo after) :=
      .of_eq rfl (congrArg (·.sendInfo.dst) hraw) rfl rfl hsent fun _ =>
        congrArg (·.disabled) hraw
    rw [hr]
    refine runs_ok_bind rfl ?_
    cases r with
    | none =>
      exact (moves_calm hcalm (by simp [Effect.Calm]) (Q := fun _ _ => True)
        trivial).bind fun _ _ _ => ih fun i => tick (i + 1)
    | some accepted =>
      obtain ⟨ptype, off⟩ := accepted
      refine (moves_calm hcalm (by simp [Effect.Calm]) (Q := fun _ _ => True)
        trivial).bind fun _ _ _ => ?_
      refine (moves_onSaferPacket (tick 0) plain ptype _).bind fun _ _ _ => ?_
      exact (ih fun i => tick (i + 1)).bind fun _ _ _ => runs_pure trivial

/-- The end of a job makes moves. -/
theorem moves_onDone {o : ClientDoneOracle}
    (tick : ∀ i (d : Client), d.state = .ready → P d (.tick (o.plain i).timer)) (done : Done) :
    Moves cfg P c (onDone cfg o done) fun _ _ => True := by
  match done with
  | .encrypted _ none => exact runs_pure trivial
  | .encrypted key (some wire) =>
    refine runs_get_bind (runs_ite (fun h => ?_) fun _ => runs_pure trivial)
    exact moves_calm (.of_eq rfl (Conn.transmitSafer_dst ..) rfl rfl rfl fun hidle => by
      simp [hidle] at h) (by simp [Effect.Calm]) trivial
  | .decrypted key plains recv =>
    refine runs_get_bind (runs_ite (fun _ => ?_) fun _ => runs_pure trivial)
    refine (moves_acceptAll tick key plains).bind fun any d _ => ?_
    refine runs_ite (fun _ => runs_get_bind ?_) fun _ => runs_pure trivial
    exact moves_calm (.of_eq rfl (RawCtx.afterRecv_dst ..) rfl rfl rfl fun _ =>
      RawCtx.afterRecv_disabled ..) (by simp [Effect.Calm]) trivial

end Client

end Udp2raw
