import Udp2raw.Client.Steps

/-!
# Handlers of the client are made of steps

Each handler is cut into steps once. `onTimer` can end the incarnation wherever
it is called; the last section says when it does not.
-/

namespace Udp2raw

/-- The timer reading of a plaintext that makes the client ready does not end the session. -/
def ClientPlainOracle.Calm (o : ClientPlainOracle) : Prop :=
  o.timer.probationDue = false ∧ o.timer.now - o.activityNow ≤ clientConnTimeoutMs

/-- The first plaintext of a batch that a connection accepts. -/
def Conn.firstAccepted (hbMode : Int32) (info : ConnInfo) (o : Nat → ClientPlainOracle) :
    List Bytes → Option Nat
  | [] => none
  | plain :: rest =>
    match acceptSaferOffset info plain hbMode (o 0).rollerTime with
    | .ok (none, info) => (firstAccepted hbMode info (fun i => o (i + 1)) rest).map (· + 1)
    | .ok (some _, _) => some 0
    | .error _ => none

/-- The client keeps its incarnation through a batch that makes it ready: the plaintext that is
accepted first finds the raw connection enabled, and its timer reading is calm. -/
def ClientEvent.Stays (cfg : ClientCfg) (c : Client) : ClientEvent → Prop
  | .done o (.decrypted key plains _) => key.generation = c.generation → c.state = .handshake2 →
      ∀ i ∈ Conn.firstAccepted cfg.hbMode c.info o.plain plains,
        c.info.raw.disabled = false ∧ (o.plain i).Calm
  | _ => True

instance (o : ClientPlainOracle) : Decidable o.Calm :=
  inferInstanceAs (Decidable (_ ∧ _))

instance (cfg : ClientCfg) (c : Client) : (ev : ClientEvent) → Decidable (ev.Stays cfg c)
  | .done o (.decrypted key plains _) =>
    inferInstanceAs (Decidable (key.generation = c.generation → c.state = .handshake2 →
      ∀ i ∈ Conn.firstAccepted cfg.hbMode c.info o.plain plains,
        c.info.raw.disabled = false ∧ (o.plain i).Calm))
  | .done _ (.encrypted ..) | .raw .. | .udp .. | .timer _ | .fifo .. => isTrue trivial

namespace Client

open Program Conn

/-- Handlers are cut into steps and abort only in the parsers. -/
abbrev Does (cfg : ClientCfg) (G : JobKey → Client → Prop) (cause : Option Done) {α : Type}
    (c : Client) (m : ClientM α) (Q : α → Client → Prop) : Prop :=
  Runs (Step cfg G cause) Fault.FromPacket c m Q

variable {cfg : ClientCfg} {G : JobKey → Client → Prop} {cause : Option Done} {c : Client}

theorem Same.of_eq {d : Client} (hm : d.info.myId = c.info.myId)
    (ho : d.info.oppsiteId = c.info.oppsiteId) (hk : d.info.oppsiteConstId = c.info.oppsiteConstId)
    (ha : d.info.antiReplay = c.info.antiReplay) (hs : d.state = c.state)
    (hg : d.generation = c.generation) : Same c d :=
  ⟨.of_eq hm ho hk ha, hs, hg⟩

variable {out : List Effect} {f : Client → Client}

/-- A change that keeps state, incarnation and session is one step. -/
theorem does_quiet (same : Same c (f c)) (inert : ∀ e ∈ out, e.Inert) {Q : Unit → Client → Prop}
    (hq : Q () (f c)) : Does cfg G cause c (act f out) Q :=
  runs_act (.quiet same inert) hq

theorem Same.refl (c : Client) : Same c c := .of_eq rfl rfl rfl rfl rfl rfl

theorem does_emit (inert : ∀ e ∈ out, e.Inert) {Q : Unit → Client → Prop} (hq : Q () c) :
    Does cfg G cause c (emit out) Q :=
  does_quiet (.refl c) inert hq

theorem does_goIdle (reason : CycleReason) (id : UInt32) :
    Does cfg G cause c (goIdle reason id) fun _ _ => True := by
  refine runs_get_bind ?_
  exact runs_act (.toIdle reason id) trivial

theorem does_select (hs : c.state = .idle) (o : TimerOracle) :
    Does cfg G cause c (select cfg o) fun _ d => d.state = .idle := by
  refine runs_get_bind (runs_ite (fun _ => runs_pure hs) fun _ => ?_)
  refine runs_act (.select _ _ _ hs) ?_
  unfold selectEndpoint
  cases o.switchTo <;> exact hs

/-- A quiet change followed by an answer. -/
theorem does_quiet_pure (same : Same c (f c)) (inert : ∀ e ∈ out, e.Inert) {α : Type} {a : α}
    {Q : α → Client → Prop} (hq : Q a (f c)) : Does cfg G cause c (do act f out; pure a) Q :=
  (does_quiet same inert (Q := fun _ d => Q a d) hq).bind fun _ _ h => runs_pure h

theorem does_refreshLowerLevel (hs : c.state = .idle) (o : TimerOracle) :
    Does cfg G cause c (refreshLowerLevel cfg o) fun _ d => d.state = .idle := by
  refine runs_get_bind (runs_ite (fun _ => runs_pure hs) fun _ => ?_)
  split
  · exact does_quiet_pure (.of_eq rfl rfl rfl rfl rfl rfl) (by simp) hs
  · exact runs_pure hs

theorem firstState_early : (firstState cfg).Early := by
  unfold firstState ClientState.Early
  cases cfg.ctx.rawMode <;> cases cfg.easyFaketcp <;> simp

theorem early_of_idle (hs : c.state = .idle) : c.state.Early := by
  simp [ClientState.Early, hs]

theorem connectCall_inert (c : Client) : ∀ e ∈ c.connectCall cfg, e.Inert := by
  unfold connectCall
  split <;> simp [Effect.Inert]

/-- An attempt is set up in steps. -/
theorem does_setUp (hs : c.state = .idle) (o : TimerOracle) :
    Does cfg G cause c (setUp cfg o) fun _ _ => True := by
  have wait : ∀ d : Client, Does cfg G cause d (postpone o.now) fun _ _ => True := fun d =>
    does_quiet_pure (.of_eq rfl rfl rfl rfl rfl rfl) (by simp) trivial
  have stop : ∀ d : Client, Does cfg G cause d giveUp fun _ _ => True := fun d =>
    does_quiet_pure (.of_eq rfl rfl rfl rfl rfl rfl) (by simp) trivial
  refine runs_get_bind (runs_ite (fun _ => runs_pure trivial) fun _ => ?_)
  refine runs_ite (fun _ => wait c) fun _ => ?_
  refine (does_refreshLowerLevel hs o).bind fun ready d hd => ?_
  refine runs_ite (fun _ => wait d) fun _ => ?_
  cases cfg.sourceIp.or o.srcAddr with
  | none => exact wait d
  | some srcIp =>
    dsimp only
    cases cfg.sourcePort.or o.newPort with
    | none =>
      exact (does_quiet (.of_eq rfl rfl rfl rfl rfl rfl) (by simp)
        (Q := fun _ _ => True) trivial).bind fun _ _ _ => stop _
    | some port =>
      refine (does_quiet (.of_eq rfl rfl rfl rfl rfl rfl) (by simp)
        (Q := fun _ e => e.state = .idle) hd).bind fun _ e he => ?_
      refine runs_ite (fun _ => stop e) fun _ => runs_ite (fun _ => wait e) fun _ => ?_
      refine runs_get_bind (Runs.bind (runs_act (.advance (.of_eq rfl rfl rfl rfl)
        (early_of_idle he) firstState_early rfl (connectCall_inert e))
        (Q := fun _ _ => True) trivial) fun _ _ _ => runs_pure trivial)

theorem does_attempt (o : TimerOracle) : Does cfg G cause c (attempt cfg o) fun _ _ => True := by
  refine runs_get_bind (runs_ite (fun hs => ?_) fun _ => runs_pure trivial)
  exact (does_select hs o).bind fun _ _ hd => does_setUp hd o

theorem does_retrySyn (o : TimerOracle) :
    Does cfg G cause c (retrySyn cfg o) fun _ d => Same c d := by
  have same : ∀ raw, Same c { c with info := { c.info with
      raw := ((c.ctx cfg).sendRaw o.ackRoll raw []).1, lastHbSentTime := o.now } } := fun raw =>
    .of_eq rfl rfl rfl rfl rfl rfl
  refine runs_get_bind (runs_ite (fun _ => ?_) fun _ => runs_pure (.refl c))
  exact does_quiet (same _) (by simp [Effect.Inert]) (same _)

/-- Sending a handshake packet only changes headers and the retry timer. -/
theorem does_sendHandshake {o : TimerOracle} {raw : RawInfo} {id2 : UInt32} (hstep : ∀ d, Same c d →
      Step cfg G cause c (out ++ [.sealBare (c.handshakePlain cfg o.iv o.padding id2)]) d) :
    Does cfg G cause c (sendHandshake cfg o raw id2 out) fun _ d => Same c d := by
  refine runs_get_bind ?_
  have same : ∀ raw, Same c { c with info := { c.info with
      raw := afterHandshake cfg raw, lastHbSentTime := o.now } } := fun raw =>
    .of_eq rfl rfl rfl rfl rfl rfl
  unfold Conn.sendHandshake Conn.sendBare
  dsimp only
  split <;>
  · refine Runs.bind (runs_act (hstep c (.refl c)) (Q := fun _ d => d = c) rfl) ?_
    rintro _ d rfl
    refine does_quiet (same _) ?_ (same _)
    split <;> simp [Effect.Inert]

theorem does_retryHello (hs : c.state = .handshake1) (o : TimerOracle) :
    Does cfg G cause c (retryHello cfg o) fun _ d => Same c d := by
  refine runs_get_bind (runs_ite (fun _ => ?_) fun _ => runs_pure (.refl c))
  refine runs_ite (fun _ => runs_ite (fun _ => ?_) fun _ => ?_) fun _ => ?_
  · exact does_sendHandshake fun d hd => .hello hd (by simp) hs
  · exact does_sendHandshake fun d hd => .hello hd (by simp [Effect.Inert]) hs
  · exact does_sendHandshake fun d hd => .hello hd (by simp) hs

theorem does_retryConfirm (hs : c.state = .handshake2) (o : TimerOracle) :
    Does cfg G cause c (retryConfirm cfg o) fun _ d => Same c d := by
  refine runs_get_bind (runs_ite (fun _ => ?_) fun _ => runs_pure (.refl c))
  refine runs_ite (fun _ => ?_) fun _ => ?_
  · exact does_sendHandshake fun d hd => .confirm hd hs
  · exact does_sendHandshake fun d hd => .confirm hd hs

theorem does_sendHeartbeat (hs : c.state = .ready) (now : UInt64) :
    Does cfg G cause c (sendHeartbeat cfg now) fun _ d =>
      d.state = .ready ∧ d.generation = c.generation ∧ d.info.myId = c.info.myId ∧
        d.info.oppsiteId = c.info.oppsiteId := by
  refine runs_get_bind ?_
  exact runs_act (.prepare hs (.inl rfl) (.of_eq rfl rfl rfl rfl)) ⟨hs, rfl, rfl, rfl⟩

theorem does_orTimeout (o : TimerOracle) {retry : ClientM Unit}
    (h : Does cfg G cause c retry fun _ d => Same c d) :
    Does cfg G cause c (orTimeout o retry) fun _ _ => True := by
  refine runs_get_bind (runs_ite (fun _ => does_goIdle _ _) fun _ => ?_)
  exact h.mono fun _ _ _ => trivial

theorem does_timerReady (hs : c.state = .ready) (o : TimerOracle) :
    Does cfg G cause c (timerReady cfg o) fun _ _ => True := by
  refine (does_quiet (.of_eq rfl rfl rfl rfl rfl rfl) (by simp)
    (Q := fun _ d => d.state = .ready) hs).bind fun _ d hd => runs_get_bind ?_
  refine runs_ite (fun _ => does_goIdle _ _) fun _ => ?_
  refine runs_ite (fun _ => does_goIdle _ _) fun _ => ?_
  refine runs_ite (fun _ => does_goIdle _ _) fun _ => ?_
  refine runs_ite (fun _ => runs_pure trivial) fun _ => ?_
  exact (does_sendHeartbeat hd o.now).mono fun _ _ _ => trivial

theorem does_timerState (o : TimerOracle) :
    Does cfg G cause c (timerState cfg o) fun _ _ => True := by
  refine runs_get_bind ?_
  cases hs : c.state with
  | idle => exact runs_pure trivial
  | tcpHandshake => exact does_orTimeout o (does_retrySyn o)
  | tcpHandshakeDummy => exact does_orTimeout o (runs_pure (.refl c))
  | handshake1 => exact does_orTimeout o (does_retryHello hs o)
  | handshake2 => exact does_orTimeout o (does_retryConfirm hs o)
  | ready => exact does_timerReady hs o

theorem does_endDisabled (o : TimerOracle) :
    Does cfg G cause c (endDisabled o) fun _ _ => True := by
  refine runs_get_bind (runs_ite (fun _ => does_goIdle _ _) fun _ => runs_pure trivial)

theorem same_maintain (c : Client) (now : UInt64) : Same c (c.maintain now) :=
  .of_eq rfl rfl rfl rfl rfl rfl

/-- The timer is handled in steps. -/
theorem does_onTimer (o : TimerOracle) : Does cfg G cause c (onTimer cfg o) fun _ _ => True := by
  refine (does_quiet (same_maintain c o.now) (by simp) (Q := fun _ _ => True) trivial).bind
    fun _ d _ => ?_
  refine (does_endDisabled o).bind fun _ d _ => (does_attempt o).bind fun goOn d _ => ?_
  refine runs_ite (fun _ => runs_get_bind ?_) fun _ => runs_pure trivial
  exact runs_ite (fun _ => does_goIdle _ _) fun _ => does_timerState o

theorem does_convFor (now : UInt64) (newConv : UInt32) (peer : IpAddr × UInt16) :
    Does cfg G cause c (convFor now newConv peer) fun _ d => Same c d := by
  refine runs_get_bind ?_
  cases c.convs.findConvByData peer with
  | some conv => exact runs_pure (.refl c)
  | none =>
    refine runs_ite (fun _ => runs_pure (.refl c)) fun _ => ?_
    exact does_quiet_pure (.of_eq rfl rfl rfl rfl rfl rfl) (by simp)
      (.of_eq rfl rfl rfl rfl rfl rfl)

/-- A datagram is handled in steps. -/
theorem does_onUdpPacket (now : UInt64) (newConv : UInt32) (data : Bytes) (peer : IpAddr × UInt16) :
    Does cfg G cause c (onUdpPacket now newConv data peer) fun _ _ => True := by
  refine runs_ite (fun _ => runs_pure trivial) fun _ => ?_
  refine (does_convFor now newConv peer).bind fun known d _ => ?_
  cases known with
  | none => exact runs_pure trivial
  | some conv =>
    refine (does_quiet (.of_eq rfl rfl rfl rfl rfl rfl) (by simp)
      (Q := fun _ _ => True) trivial).bind fun _ e _ => runs_get_bind ?_
    refine runs_ite (fun hs => ?_) fun _ => runs_pure trivial
    rw [prepareSaferData_eq]
    exact runs_act (.prepare hs (.inr rfl) (.of_eq rfl rfl rfl rfl)) trivial

theorem does_receive (buf : Bytes) (ll : SockaddrLl) :
    Does cfg G cause c (receive cfg buf ll) fun _ d => Same c d := by
  refine runs_get_bind ?_
  refine Runs.bind (runs_packet (Q := fun _ d => d = c) fun _ _ => rfl) ?_
  rintro ⟨raw, data⟩ d rfl
  exact does_quiet_pure (.of_eq rfl rfl rfl rfl rfl rfl) (by simp)
    (.of_eq rfl rfl rfl rfl rfl rfl)

/-- The client after entering a handshake state. -/
theorem does_enter {o : ClientPacketOracle} (hstep : ∀ d, Same (f c) d → Step cfg G cause c out d) :
    Does cfg G cause c (enter cfg o f out) fun _ _ => True := by
  refine Runs.bind (runs_act (hstep _ (.of_eq rfl rfl rfl rfl rfl rfl))
    (Q := fun _ _ => True) trivial) fun _ _ _ => ?_
  exact does_onTimer o.timer

/-- The answer to a SYN is handled in steps. -/
theorem does_onTcpHandshake (hs : c.state = .tcpHandshake ∨ c.state = .tcpHandshakeDummy)
    (o : ClientPacketOracle) (dst : IpAddr × UInt16) (data : Bytes) :
    Does cfg G cause c (onTcpHandshake cfg o dst data) fun _ _ => True := by
  have early : c.state.Early := by rcases hs with hs | hs <;> simp [ClientState.Early, hs]
  have next : ∀ {e d : Client}, Same e d → SameConn c.info e.info → e.state = .handshake1 →
      e.generation = c.generation → Step cfg G cause c [] d := by
    intro e d hd hsame hstate hgen
    refine .advance (hsame.trans hd.toSameConn) early ?_ (hd.generation.trans hgen) (by simp)
    simp [ClientState.Early, hd.state, hstate]
  refine runs_get_bind (runs_ite (fun _ => runs_pure trivial) fun _ => ?_)
  refine runs_ite (fun _ => runs_pure trivial) fun _ => ?_
  refine runs_ite (fun _ => ?_) fun _ => runs_pure trivial
  refine runs_ite (fun _ => runs_ite (fun _ => runs_pure trivial) fun _ => ?_) fun _ => ?_
  · exact does_enter fun d hd => next hd (.of_eq rfl rfl rfl rfl) rfl rfl
  · exact does_enter fun d hd => next hd (.of_eq rfl rfl rfl rfl) rfl rfl

theorem does_onHandshake1 (hs : c.state = .handshake1) (o : ClientPacketOracle)
    (dst : IpAddr × UInt16) (data : Bytes) :
    Does cfg G cause c (onHandshake1 cfg o dst data) fun _ _ => True := by
  have skip : ∀ plain, Does cfg G cause c (emit [.openBare plain]) fun _ _ => True := fun plain =>
    does_emit (by simp [Effect.Inert]) trivial
  refine runs_get_bind (runs_ite (fun _ => runs_pure trivial) fun _ => ?_)
  cases Conn.openBare cfg.decrypt data with
  | none => exact runs_pure trivial
  | some plain =>
    dsimp only
    cases hp : Wire.parseBare plain with
    | none => exact skip plain
    | some payload =>
      refine runs_ite (fun _ => skip plain) fun _ => ?_
      cases hh : Wire.parseHandshake payload with
      | none => exact skip plain
      | some ids =>
        obtain ⟨id, me, k⟩ := ids
        refine runs_ite (fun _ => skip plain) fun hme => ?_
        refine runs_ite (fun _ => skip plain) fun _ => ?_
        have named : handshakeOf plain = some (id, c.info.myId, k) := by
          simp [handshakeOf, hp, hh, not_not.mp hme]
        exact does_enter fun d hd =>
          .meet hs named hd.toSameConn hd.state hd.generation

theorem does_onSession (hs : c.state = .handshake2 ∨ c.state = .ready) (dst : IpAddr × UInt16)
    (data : Bytes) : Does cfg G cause c (onSession dst data) fun _ _ => True := by
  refine runs_get_bind (runs_ite (fun _ => does_emit (by simp [Effect.Inert]) trivial) fun _ => ?_)
  exact runs_act (.receive data _ hs) trivial

/-- A raw packet is handled in steps. -/
theorem does_onRawPacket (o : ClientPacketOracle) (buf : Bytes) (ll : SockaddrLl) :
    Does cfg G cause c (onRawPacket cfg o buf ll) fun _ _ => True := by
  unfold onRawPacket
  cases clampPacket cfg.fixGro buf with
  | none => exact runs_pure trivial
  | some buf =>
    refine runs_get_bind (runs_ite (fun _ => runs_pure trivial) fun _ => ?_)
    refine (does_receive buf ll).bind fun data d hd => ?_
    cases data with
    | none => exact runs_pure trivial
    | some data =>
      have hst := hd.state
      cases hs : c.state with
      | idle => exact runs_pure trivial
      | tcpHandshake => exact does_onTcpHandshake (.inl (hst.trans hs)) o _ data
      | tcpHandshakeDummy => exact does_onTcpHandshake (.inr (hst.trans hs)) o _ data
      | handshake1 => exact does_onHandshake1 (hst.trans hs) o _ data
      | handshake2 => exact does_onSession (.inl (hst.trans hs)) _ data
      | ready => exact does_onSession (.inr (hst.trans hs)) _ data

theorem does_relayData (o : ClientPlainOracle) (conv : UInt32) (data : Bytes) :
    Does cfg G cause c (relayData o conv data) fun _ d => Same c d := by
  refine runs_get_bind (runs_ite (fun _ => runs_pure (.refl c)) fun hused => ?_)
  refine Runs.bind (does_quiet (.of_eq rfl rfl rfl rfl rfl rfl) (by simp [Effect.Inert])
    (Q := fun _ d => d = { c with convs := c.convs.updateActiveTime conv o.convTime }) rfl) ?_
  rintro _ d rfl
  refine runs_get_bind ?_
  have hfind : ((c.convs.updateActiveTime conv o.convTime).findDataByConv conv).isSome := by
    rw [ConvManager.findDataByConv_updateActiveTime]
    simpa [ConvManager.isConvUsed, ConvManager.findDataByConv,
      Option.isSome_iff_ne_none] using hused
  obtain ⟨peer, hpeer⟩ := Option.isSome_iff_exists.mp hfind
  dsimp only
  rw [hpeer]
  exact does_emit (by simp [Effect.Inert]) (.of_eq rfl rfl rfl rfl rfl rfl)

/-- An accepted packet keeps what quiet changes keep, if `on_timer` does. -/
theorem does_onSaferPacket {J : Client → Prop} (hJ : ∀ c d, Same c d → J c → J d)
    {o : ClientPlainOracle} {plain : Bytes} {seq : UInt64} (addressed : Addressed c.info plain seq)
    (body : (Wire.parseSaferBody plain).isSome) {key : JobKey} {batch : List Bytes}
    {recv : RecvMeta} (because : cause = some (.decrypted key batch recv)) (mem : plain ∈ batch)
    (hc : c.state ≠ .handshake2 → J c) (htimer : c.state = .handshake2 →
      Does cfg G cause (c.becomeReady o.activityNow) (onTimer cfg o.timer) fun _ => J)
    (ptype : UInt8) (payload : Bytes) :
    Does cfg G cause c (onSaferPacket cfg o plain ptype payload) fun _ => J := by
  have hheard : ∀ {out : List Effect} {d : Client}, (∀ e ∈ out, e.Inert) → J d →
      Does cfg G cause d (heard o.now out) fun _ => J := fun {out d} inert hd =>
    does_quiet (.of_eq rfl rfl rfl rfl rfl rfl) inert (hJ d _ (.of_eq rfl rfl rfl rfl rfl rfl) hd)
  have hauth : Does cfg G cause c (authenticate cfg o plain) fun _ => J := by
    refine runs_get_bind (runs_ite (fun hs => ?_) fun hs => runs_pure (hc hs))
    refine Runs.bind (runs_act (.authenticate hs addressed body (.of_eq rfl rfl rfl rfl) rfl rfl
      because mem) (Q := fun _ d => d = c.becomeReady o.activityNow) rfl) ?_
    rintro _ d rfl
    exact htimer hs
  refine hauth.bind fun _ d hd => ?_
  refine runs_ite (fun _ => hheard (by simp [Effect.Inert]) hd) fun _ => ?_
  refine runs_ite (fun _ => ?_) fun _ => runs_pure hd
  cases Wire.parseDataPayload payload with
  | none => exact runs_pure hd
  | some p =>
    obtain ⟨conv, data⟩ := p
    have relay : ∀ e, J e → Does cfg G cause e (relayData o conv data) fun _ => J := fun e he =>
      (does_relayData o conv data).mono fun _ f hf => hJ e f hf he
    refine runs_ite (fun _ => ?_) fun _ => relay d hd
    exact (hheard (by simp) hd).bind fun _ e he => relay e he

/-- What a batch keeps: `J` holds when the plaintexts that are left are checked, and `K` once one
was accepted. -/
structure Carries (cfg : ClientCfg) (G : JobKey → Client → Prop) (cause : Option Done)
    (key : JobKey) (J : (Nat → ClientPlainOracle) → List Bytes → Client → Prop)
    (K : Client → Prop) : Prop where
  same : ∀ c d, Same c d → K c → K d
  loop : ∀ o plains c, K c → J o plains c
  reject : ∀ o plain rest c info,
    acceptSaferOffset c.info plain cfg.hbMode (o 0).rollerTime = .ok (none, info) →
    info.raw = c.info.raw → J o (plain :: rest) c →
    J (fun i => o (i + 1)) rest (c.withInfo info)
  ready : ∀ o plains c info, J o plains c → c.state ≠ .handshake2 → K (c.withInfo info)
  timer : ∀ o plain rest c info p,
    acceptSaferOffset c.info plain cfg.hbMode (o 0).rollerTime = .ok (some p, info) →
    info.raw = c.info.raw → J o (plain :: rest) c → c.state = .handshake2 →
    Does cfg G cause ((c.withInfo info).becomeReady (o 0).activityNow) (onTimer cfg (o 0).timer)
      fun _ => K
  guard : ∀ o plains c, J o plains c → G key c

/-- A batch is handled in steps. -/
theorem does_acceptAll {key : JobKey} {J : (Nat → ClientPlainOracle) → List Bytes → Client → Prop}
    {K : Client → Prop} (h : Carries cfg G cause key J K) {batch : List Bytes} {recv : RecvMeta}
    (because : cause = some (.decrypted key batch recv)) (o : Nat → ClientPlainOracle)
    (plains : List Bytes) (hsub : ∀ p ∈ plains, p ∈ batch) (hc : J o plains c) :
    Does cfg G cause c (acceptAll cfg o key plains) fun _ d => G key d := by
  induction plains generalizing c o with
  | nil => exact runs_pure (h.guard o [] c hc)
  | cons plain rest ih =>
    obtain ⟨r, info, hr, hsame, hraw, hcases⟩ :=
      acceptSaferOffset_cases c.info plain cfg.hbMode (o 0).rollerTime
    have mem : plain ∈ batch := hsub plain List.mem_cons_self
    have hstep : Step cfg G cause c _ (c.withInfo info) :=
      .check (h.guard o _ c hc) hr because mem
    have hrest : ∀ d, J (fun i => o (i + 1)) rest d →
        Does cfg G cause d (acceptAll cfg (fun i => o (i + 1)) key rest) fun _ d => G key d :=
      fun d => ih (fun i => o (i + 1)) fun p hp => hsub p (List.mem_cons_of_mem _ hp)
    refine runs_get_bind ?_
    rw [hr]
    refine runs_ok_bind rfl ?_
    cases r with
    | none =>
      exact (runs_act hstep (Q := fun _ d => J _ rest d)
        (h.reject o plain rest c info hr hraw hc)).bind fun _ d hd => hrest d hd
    | some p =>
      obtain ⟨ptype, off⟩ := p
      obtain ⟨hnone, -⟩ | ⟨seq, haddr, -, hbody⟩ := hcases
      · cases hnone
      have addressed : Addressed info plain seq := by
        rw [Addressed, hsame.myId, hsame.oppsiteId]
        exact haddr
      have body : (Wire.parseSaferBody plain).isSome := by
        cases hb : Wire.parseSaferBody plain with
        | none => rw [hb] at hbody; cases hbody
        | some b => rfl
      refine Runs.bind (runs_act hstep (Q := fun _ d => d = c.withInfo info) rfl) ?_
      rintro _ d rfl
      refine (does_onSaferPacket h.same addressed body because mem (h.ready o _ c info hc)
        (h.timer o plain rest c info _ hr hraw hc) ptype (plain.drop off)).bind
          fun _ d hd => ?_
      exact (hrest d (h.loop _ rest d hd)).bind fun _ e he => runs_pure he

/-- The completions a client is shown are applied to it while they name its incarnation. -/
theorem does_onDone (o : ClientDoneOracle) (d : Done)
    (hbatch : ∀ key plains recv, d = .decrypted key plains recv →
      key.generation = c.generation → (c.state = .handshake2 ∨ c.state = .ready) →
      ∃ J K, Carries cfg G (some d) key J K ∧ J o.plain plains c) :
    Does cfg G (some d) c (onDone cfg o d) fun _ _ => True := by
  cases d with
  | encrypted key wire =>
    cases wire with
    | none => exact runs_pure trivial
    | some wire =>
      refine runs_get_bind (runs_ite (fun h => ?_) fun _ => runs_pure trivial)
      exact runs_act (.transmit wire _ h.2 h.1 rfl) trivial
  | decrypted key plains recv =>
    refine runs_get_bind (runs_ite (fun h => ?_) fun _ => runs_pure trivial)
    obtain ⟨J, K, hJ, hc⟩ := hbatch key plains recv rfl h.1 h.2
    refine (does_acceptAll hJ rfl o.plain plains (fun _ => id) hc).bind fun any d hd => ?_
    refine runs_ite (fun _ => runs_get_bind ?_) fun _ => runs_pure trivial
    exact runs_act (.afterRecv _ hd rfl) trivial

theorem does_onFifo (id : UInt32) (command : FifoCommand) :
    Does cfg G cause c (onFifo id command) fun _ _ => True := by
  match command with
  | .reconnect =>
    refine (does_emit (by simp [Effect.Inert]) (Q := fun _ _ => True) trivial).bind
      fun _ d _ => ?_
    exact does_goIdle _ _
  | .rollback true => exact does_goIdle _ _
  | .rollback false => exact runs_pure trivial
  | .promote => exact runs_pure trivial

/-- Every event is cut into steps, if the completions among them are. -/
theorem does_handle_of (ev : ClientEvent)
    (hdone : ∀ o d, ev = .done o d → Does cfg G (some d) c (onDone cfg o d) fun _ _ => True) :
    Does cfg G ev.cause c (ev.handle cfg) fun _ _ => True := by
  cases ev with
  | raw o buf ll => exact does_onRawPacket o buf ll
  | done o d => exact hdone o d rfl
  | udp now newConv data peer => exact does_onUdpPacket now newConv data peer
  | timer o => exact does_onTimer o
  | fifo command id => exact does_onFifo id command

/-- Every event is cut into steps; nothing is known of the keys of completions. -/
theorem does_handle (ev : ClientEvent) :
    Does cfg (fun _ _ => True) ev.cause c (ev.handle cfg) fun _ _ => True := by
  refine does_handle_of ev fun o d _ => does_onDone o d fun key plains recv _ _ _ => ?_
  refine ⟨fun _ _ _ => True, fun _ => True, ?_, trivial⟩
  exact ⟨fun _ _ _ _ => trivial, fun _ _ _ _ => trivial, fun _ _ _ _ _ _ _ _ => trivial,
    fun _ _ _ _ _ _ => trivial, fun _ _ _ _ _ _ _ _ _ _ => does_onTimer _,
    fun _ _ _ _ => trivial⟩

/-- `on_timer` keeps the incarnation and the ids of a client that has just become ready, unless
its raw connection was disabled, its endpoint is to be rolled back or the clock ran on. -/
theorem does_onTimer_calm {o : ClientPlainOracle} (calm : o.Calm)
    (enabled : c.info.raw.disabled = false) :
    Does cfg G cause (c.becomeReady o.activityNow) (onTimer cfg o.timer) fun _ d =>
      d.state = .ready ∧ d.generation = c.generation ∧ d.info.myId = c.info.myId ∧
        d.info.oppsiteId = c.info.oppsiteId := by
  refine Runs.bind (does_quiet (same_maintain _ _) (by simp)
    (Q := fun _ d => d = (c.becomeReady o.activityNow).maintain o.timer.now) rfl) ?_
  rintro _ d rfl
  generalize hd : (c.becomeReady o.activityNow).maintain o.timer.now = d
  have hs : d.state = .ready := by rw [← hd]; rfl
  have hg : d.generation = c.generation := by rw [← hd]; rfl
  have hmy : d.info.myId = c.info.myId := by rw [← hd]; rfl
  have hopp : d.info.oppsiteId = c.info.oppsiteId := by rw [← hd]; rfl
  have hraw : d.info.raw.disabled = false := by rw [← hd]; exact enabled
  have hrecv : d.info.lastHbRecvTime = o.activityNow := by rw [← hd]; rfl
  have hroll : d.info.lastOppsiteRollerTime = o.activityNow := by rw [← hd]; rfl
  have hdis : Does cfg G cause d (endDisabled o.timer) fun _ e => e = d := by
    refine runs_get_bind ?_
    rw [hraw]
    exact runs_pure rfl
  have hatt : Does cfg G cause d (attempt cfg o.timer) fun goOn e => goOn = true ∧ e = d := by
    refine runs_get_bind ?_
    rw [hs]
    exact runs_pure ⟨rfl, rfl⟩
  refine hdis.bind ?_
  rintro _ e rfl
  refine hatt.bind ?_
  rintro _ f ⟨rfl, rfl⟩
  refine runs_ite (fun _ => runs_get_bind ?_) fun h => absurd rfl h
  rw [hs]
  refine runs_ite (fun h => by simp [ClientState.handshaking] at h) fun _ => ?_
  refine runs_get_bind ?_
  rw [hs]
  refine Runs.bind (does_quiet (.of_eq rfl rfl rfl rfl rfl rfl) (by simp)
    (Q := fun _ e => e = { f with failTimeCounter := 0 }) rfl) ?_
  rintro _ e rfl
  refine runs_get_bind ?_
  rw [calm.1]
  dsimp only
  rw [hrecv, hroll]
  refine runs_ite (fun h => by cases h) fun _ => ?_
  refine runs_ite (fun h => absurd h (UInt64.not_lt.mpr calm.2)) fun _ => ?_
  have huplink : o.timer.now - o.activityNow ≤ clientConnUplinkTimeoutMs :=
    UInt64.le_trans calm.2 (by decide)
  refine runs_ite (fun h => absurd h (UInt64.not_lt.mpr huplink)) fun _ => ?_
  refine runs_ite (fun _ => runs_pure ⟨hs, hg, hmy, hopp⟩) fun _ => ?_
  refine (does_sendHeartbeat (c := { f with failTimeCounter := 0 }) hs o.timer.now).mono ?_
  rintro _ e ⟨he, heg, hemy, heopp⟩
  exact ⟨he, heg.trans hg, hemy.trans hmy, heopp.trans hopp⟩

/-- Every event that stays is cut into steps that apply completions to their incarnation. -/
theorem does_handle_current {ev : ClientEvent} (stays : ev.Stays cfg c) :
    Does cfg (fun key c => key.generation = c.generation) ev.cause c (ev.handle cfg)
      fun _ _ => True := by
  refine does_handle_of ev ?_
  rintro o d rfl
  refine does_onDone o d ?_
  rintro key plains recv rfl hkey hstate
  -- until a plaintext is accepted the first one that will be is known; after that the client is
  -- ready
  refine ⟨fun o plains d => key.generation = d.generation ∧
      (d.state = .ready ∨ d.state = .handshake2 ∧
        ∀ i ∈ firstAccepted cfg.hbMode d.info o plains,
          d.info.raw.disabled = false ∧ (o i).Calm),
    fun d => d.state = .ready ∧ d.generation = key.generation, ?_, hkey,
    hstate.elim (fun h => .inr ⟨h, stays hkey h⟩) .inl⟩
  constructor
  case same => exact fun c d h hc => ⟨h.state.trans hc.1, h.generation.trans hc.2⟩
  case loop => exact fun _ _ c hc => ⟨hc.2.symm, .inl hc.1⟩
  case reject =>
    intro o plain rest c info hr hraw hc
    refine ⟨hc.1, hc.2.imp id fun h => ⟨h.1, fun i hi => ?_⟩⟩
    have hfirst : i + 1 ∈ firstAccepted cfg.hbMode c.info o (plain :: rest) := by
      rw [firstAccepted, hr]
      exact Option.mem_map_of_mem _ hi
    obtain ⟨henabled, hcalm⟩ := h.2 _ hfirst
    exact ⟨hraw ▸ henabled, hcalm⟩
  case ready =>
    exact fun _ _ c _ hc hs => ⟨hc.2.resolve_right fun h => hs h.1, hc.1.symm⟩
  case timer =>
    intro o plain rest c info p hr hraw hc hs
    have hfirst : 0 ∈ firstAccepted cfg.hbMode c.info o (plain :: rest) := by
      rw [firstAccepted, hr]
      rfl
    obtain ⟨henabled, hcalm⟩ := (hc.2.resolve_left (by rw [hs]; decide)).2 0 hfirst
    exact (does_onTimer_calm (c := c.withInfo info) hcalm (hraw ▸ henabled)).mono fun _ d hd =>
      ⟨hd.1, hd.2.1.trans hc.1.symm⟩
  case guard => exact fun _ _ c hc => hc.1

end Client

end Udp2raw
