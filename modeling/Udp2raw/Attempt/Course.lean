import Udp2raw.Client.Handlers
import Udp2raw.Raw.Destination

/-!
# The course of an attempt

An attempt begins with the selection of an endpoint, waits for its prerequisites,
starts, and tries a handshake until it is given up. Each part of `on_timer` is cut
into the steps below. The relation has a parameter for what is known of a client
that is sent back to `Idle`, or whose retry timer is set without a packet.
-/

namespace Udp2raw

open Program

/-- Packets with these headers go to the endpoint. In ICMP mode the port is an identifier of the
client's own. -/
def ClientCfg.Towards (cfg : ClientCfg) (dst : IpAddr × UInt16) (info : PacketInfo) : Prop :=
  info.dstIp = dst.1 ∧ (cfg.ctx.rawMode ≠ .icmp → info.dstPort = dst.2)

instance (cfg : ClientCfg) (dst : IpAddr × UInt16) (info : PacketInfo) :
    Decidable (cfg.Towards dst info) :=
  inferInstanceAs (Decidable (_ ∧ _))

theorem ClientCfg.Towards.of_dst {cfg : ClientCfg} {dst : IpAddr × UInt16} {a b : PacketInfo}
    (h : b.dst = a.dst) (ha : cfg.Towards dst a) : cfg.Towards dst b :=
  ⟨(congrArg Prod.fst h).trans ha.1, fun hmode => (congrArg Prod.snd h).trans (ha.2 hmode)⟩

/-- The effect neither selects an endpoint nor calls `on_cycle`. -/
def Effect.Calm : Effect → Prop
  | .selected _ | .endpoint (.onCycle ..) => False
  | _ => True

/-- The client waits for a TCP SYN-ACK. -/
def ClientState.opening : ClientState → Bool
  | .tcpHandshake | .tcpHandshakeDummy => true
  | .idle | .handshake1 | .handshake2 | .ready => false

/-- Every handshake message is encrypted. -/
def TimerOracle.Seals (o : TimerOracle) : Prop :=
  ∀ iv padding id1 id2 id3,
    (o.encrypt (Wire.buildBare iv padding (Wire.buildHandshake id1 id2 id3))).isSome = true

namespace Client

variable (cfg : ClientCfg)

/-- The attempt has started and its first packet is still due: the retry timer of its first state
is not set, and there was no socket to connect. -/
def untried (c : Client) : Bool :=
  c.state == firstState cfg && c.info.lastHbSentTime == 0 && !hasSocket cfg

/-- An endpoint is selected, and nothing was tried with it yet. -/
def fresh (c : Client) : Bool :=
  c.state == .idle && c.attemptEndpointSelected || c.untried cfg

/-- The endpoint in use and the destination of packets stay, and no TCP handshake begins. -/
structure Kept (c d : Client) : Prop where
  remote : d.remote = c.remote
  opening : d.state.opening = true → c.state.opening = true
  towards : ∀ dst, cfg.Towards dst c.info.raw.sendInfo → cfg.Towards dst d.info.raw.sendInfo

/-- The attempt is where it was. -/
structure Calm (c d : Client) : Prop extends Kept cfg c d where
  fresh : d.fresh cfg = c.fresh cfg
  idle : d.state = .idle → c.state = .idle ∧ d.info.raw.disabled = c.info.raw.disabled

/-- One step of an attempt. -/
inductive Course (G : Client → Prop) : Client → List Effect → Client → Prop where
  | calm {c d : Client} {out : List Effect} (calm : Calm cfg c d) (quiet : ∀ e ∈ out, e.Calm) :
      Course G c out d
  | toIdle {c : Client} (reason : CycleReason) (id : UInt32) (may : G c) :
      Course G c [.endpoint .onSessionEnded, .newId id, .incarnation (c.toIdle reason id).key]
        (c.toIdle reason id)
  | select {c : Client} (id : UInt32) (switchTo : Option (IpAddr × UInt16)) (now : UInt64)
      (state : c.state = .idle) (unselected : c.attemptEndpointSelected = false) :
      Course G c
        [.newId id, .incarnation (c.selectEndpoint cfg id switchTo).key,
          .endpoint (.onCycle now c.cycleReason),
          .selected (c.selectEndpoint cfg id switchTo).remote]
        (c.selectEndpoint cfg id switchTo)
  | begin {c : Client} (now : UInt64) (state : c.state = .idle)
      (selected : c.attemptEndpointSelected = true) :
      Course G c (c.connectCall cfg) (c.begin cfg now)
  /-- The retry timer is set; a first packet is a SYN or a handshake message. -/
  | send {c d : Client} {out : List Effect} {info : PacketInfo} (kept : Kept cfg c d)
      (state : d.state ≠ .idle) (dst : info.dst = c.info.raw.sendInfo.dst)
      (handed : c.fresh cfg = true → .sendBare info ∈ out ∨ .sendEmpty info ∈ out ∧ info.syn = true)
      (quiet : ∀ e ∈ out, e.Calm) : Course G c out d
  /-- The retry timer is set for a handshake message that was not encrypted. -/
  | unsent {c d : Client} (kept : Kept cfg c d) (state : c.state ≠ .idle) (next : d.state ≠ .idle)
      (may : G c) : Course G c [] d

variable {cfg : ClientCfg} {G : Client → Prop} {Allowed : Fault → Prop} {c d : Client}
  {o : TimerOracle}

theorem firstState_ne_idle : firstState cfg ≠ .idle := by
  unfold firstState
  cases cfg.ctx.rawMode <;> cases cfg.easyFaketcp <;> simp

theorem firstState_ne_ready : firstState cfg ≠ .ready := by
  unfold firstState
  cases cfg.ctx.rawMode <;> cases cfg.easyFaketcp <;> simp

theorem firstState_ne_handshake2 : firstState cfg ≠ .handshake2 := by
  unfold firstState
  cases cfg.ctx.rawMode <;> cases cfg.easyFaketcp <;> simp

theorem Kept.of_dst (hremote : d.remote = c.remote)
    (hdst : d.info.raw.sendInfo.dst = c.info.raw.sendInfo.dst)
    (hopening : d.state.opening = true → c.state.opening = true) : Kept cfg c d :=
  ⟨hremote, hopening, fun _ h => h.of_dst hdst⟩

/-- A change to nothing the attempt depends on. -/
theorem Calm.of_eq (hremote : d.remote = c.remote)
    (hdst : d.info.raw.sendInfo.dst = c.info.raw.sendInfo.dst) (hstate : d.state = c.state)
    (hselected : d.attemptEndpointSelected = c.attemptEndpointSelected)
    (hsent : d.info.lastHbSentTime = c.info.lastHbSentTime)
    (hdisabled : c.state = .idle → d.info.raw.disabled = c.info.raw.disabled) : Calm cfg c d where
  toKept := .of_dst hremote hdst fun h => hstate ▸ h
  fresh := by rw [Client.fresh, Client.fresh, untried, untried, hstate, hselected, hsent]
  idle h := ⟨hstate ▸ h, hdisabled (hstate ▸ h)⟩

theorem Calm.refl (c : Client) : Calm cfg c c := .of_eq rfl rfl rfl rfl rfl fun _ => rfl

/-- Outside `Idle` and the first state of an attempt something was tried. -/
theorem fresh_eq_false (hidle : c.state ≠ .idle) (hfirst : c.state ≠ firstState cfg) :
    c.fresh cfg = false := by
  simp [fresh, untried, hidle, hfirst]

/-- A client that has started an attempt with nothing tried has not set its retry timer. -/
theorem untried_of_fresh (hidle : c.state ≠ .idle) (h : c.fresh cfg = true) :
    c.untried cfg = true := by
  simpa [fresh, hidle] using h

theorem lastHbSentTime_of_untried (h : c.untried cfg = true) : c.info.lastHbSentTime = 0 := by
  simp only [untried, Bool.and_eq_true, beq_iff_eq] at h
  exact h.1.2

/-- `on_timer` is made of steps of the attempt. -/
abbrev Goes (cfg : ClientCfg) (G : Client → Prop) (Allowed : Fault → Prop) {α : Type} (c : Client)
    (m : ClientM α) (Q : α → Client → Prop) : Prop :=
  Runs (Course cfg G) Allowed c m Q

theorem goes_calm {f : Client → Client} {out : List Effect} (calm : Calm cfg c (f c))
    (quiet : ∀ e ∈ out, e.Calm) {Q : Unit → Client → Prop} (hq : Q () (f c)) :
    Goes cfg G Allowed c (act f out) Q :=
  runs_act (.calm calm quiet) hq

theorem goes_goIdle {reason : CycleReason} {id : UInt32} (may : G c) :
    Goes cfg G Allowed c (goIdle reason id) fun _ d => d.state = .idle :=
  runs_get_bind (runs_act (.toIdle reason id may) rfl)

/-- A disabled connection ends; another stays as it is. -/
theorem goes_endDisabled (may : c.info.raw.disabled = true → G c) :
    Goes cfg G Allowed c (endDisabled o) fun _ d =>
      (c.info.raw.disabled = false ∧ d = c) ∨ (c.info.raw.disabled = true ∧ d.state = .idle) := by
  refine runs_get_bind (runs_ite (fun h => ?_) fun h => runs_pure (.inl ⟨by simpa using h, rfl⟩))
  exact (goes_goIdle (may h)).mono fun _ _ hidle => .inr ⟨h, hidle⟩

/-- The selection leaves an idle client with an endpoint. -/
theorem goes_select (hs : c.state = .idle) :
    Goes cfg G Allowed c (select cfg o) fun _ d =>
      d.state = .idle ∧ d.attemptEndpointSelected = true := by
  refine runs_get_bind (runs_ite (fun h => runs_pure ⟨hs, h⟩) fun h => ?_)
  refine runs_act (.select _ _ _ hs (by simpa using h)) ?_
  unfold selectEndpoint
  cases o.switchTo <;> exact ⟨hs, rfl⟩

/-- What the setup changes before it starts the attempt. -/
theorem calm_bindSource (srcIp : IpAddr) (port : UInt16) :
    Calm cfg c (c.bindSource cfg srcIp port) where
  remote := rfl
  opening h := h
  towards dst h := by
    refine ⟨?_, fun hmode => ?_⟩
    · refine Eq.trans ?_ h.1
      unfold bindSource
      dsimp only [withRaw]
      split <;> rfl
    · refine Eq.trans ?_ (h.2 hmode)
      unfold bindSource
      dsimp only [withRaw]
      rw [if_neg hmode]
  fresh := rfl
  idle h := ⟨h, rfl⟩

/-- An idle client with an endpoint waits, or starts its attempt once the kernel is ready. -/
theorem goes_setUp (hs : c.state = .idle) (hsel : c.attemptEndpointSelected = true) :
    Goes cfg G Allowed c (setUp cfg o) fun go d =>
      go = true → o.resourcesReady = true ∧ d.info.lastStateTime = o.now := by
  have wait : ∀ d : Client, Goes cfg G Allowed d (postpone o.now) fun go d =>
      go = true → o.resourcesReady = true ∧ d.info.lastStateTime = o.now := fun d =>
    (goes_calm (.of_eq rfl rfl rfl rfl rfl fun _ => rfl) (by simp) (Q := fun _ _ => True)
      trivial).bind fun _ _ _ => runs_pure nofun
  have stop : ∀ d : Client, Goes cfg G Allowed d giveUp fun go d =>
      go = true → o.resourcesReady = true ∧ d.info.lastStateTime = o.now := fun d =>
    (goes_calm (.of_eq rfl rfl rfl rfl rfl fun _ => rfl) (by simp) (Q := fun _ _ => True)
      trivial).bind fun _ _ _ => runs_pure nofun
  have refresh : Goes cfg G Allowed c (refreshLowerLevel cfg o) fun _ d =>
      d.state = .idle ∧ d.attemptEndpointSelected = true := by
    refine runs_get_bind (runs_ite (fun _ => runs_pure ⟨hs, hsel⟩) fun _ => ?_)
    split
    · exact (goes_calm (.of_eq rfl rfl rfl rfl rfl fun _ => rfl) (by simp)
        (Q := fun _ d => d.state = .idle ∧ d.attemptEndpointSelected = true) ⟨hs, hsel⟩).bind
          fun _ _ h => runs_pure h
    · exact runs_pure ⟨hs, hsel⟩
  refine runs_get_bind (runs_ite (fun _ => runs_pure nofun) fun _ => ?_)
  refine runs_ite (fun _ => wait c) fun hready => ?_
  refine refresh.bind fun ready d hd => ?_
  refine runs_ite (fun _ => wait d) fun _ => ?_
  cases cfg.sourceIp.or o.srcAddr with
  | none => exact wait d
  | some srcIp =>
    dsimp only
    cases cfg.sourcePort.or o.newPort with
    | none =>
      exact (goes_calm (.of_eq rfl rfl rfl rfl rfl fun _ => rfl) (by simp)
        (Q := fun _ _ => True) trivial).bind fun _ _ _ => stop _
    | some port =>
      refine (goes_calm (calm_bindSource srcIp port) (by simp)
        (Q := fun _ e => e.state = .idle ∧ e.attemptEndpointSelected = true) hd).bind
          fun _ e he => ?_
      refine runs_ite (fun _ => stop e) fun _ => runs_ite (fun _ => wait e) fun _ => ?_
      refine runs_get_bind (Runs.bind (runs_act (.begin o.now he.1 he.2)
        (Q := fun _ d => d.info.lastStateTime = o.now) rfl) fun _ _ htime => ?_)
      exact runs_pure fun _ => ⟨by simpa using hready, htime⟩

/-- Only an idle client is changed before the part for the states of the handshake. -/
theorem goes_attempt : Goes cfg G Allowed c (attempt cfg o) fun go d => go = true →
    (c.state ≠ .idle ∧ d = c) ∨
      (c.state = .idle ∧ o.resourcesReady = true ∧ d.info.lastStateTime = o.now) := by
  refine runs_get_bind (runs_ite (fun hs => ?_) fun hs => runs_pure fun _ => .inl ⟨hs, rfl⟩)
  refine (goes_select hs).bind fun _ _ hd => (goes_setUp hd.1 hd.2).mono fun go d hbegun hgo => ?_
  exact .inr ⟨hs, hbegun hgo⟩

/-- A first SYN is a SYN. -/
theorem goes_retrySyn (hs : c.state = .tcpHandshake) :
    Goes cfg G Allowed c (retrySyn cfg o) fun _ _ => True := by
  refine runs_get_bind (runs_ite (fun _ => ?_) fun _ => runs_pure trivial)
  have hidle : c.state ≠ .idle := by simp [hs]
  have hdst : ∀ first, (synHeaders o first c.info.raw).sendInfo.dst = c.info.raw.sendInfo.dst := by
    intro first
    cases first <;> rfl
  refine runs_act (.send (.of_dst rfl ?_ id) hidle (hdst _)
    (fun h => .inr ⟨List.mem_singleton_self _, ?_⟩) (by simp [Effect.Calm])) trivial
  · exact (RawCtx.sendRaw_dst ..).trans (hdst _)
  · rw [lastHbSentTime_of_untried (untried_of_fresh hidle h)]
    rfl

/-- What a handshake seals. -/
theorem sealed_sendHandshake (ctx : RawCtx) (encrypt : Bytes → Option Bytes) (iv padding : UInt64)
    (roll : UInt32) (raw : RawInfo) (id1 id2 id3 : UInt32) :
    (Conn.sendHandshake ctx encrypt iv padding roll raw id1 id2 id3).2 =
      Wire.buildBare iv padding (Wire.buildHandshake id1 id2 id3) := by
  unfold Conn.sendHandshake Conn.sendBare
  dsimp only
  split <;> rfl

theorem afterHandshake_dst (raw : RawInfo) :
    (afterHandshake cfg raw).sendInfo.dst = raw.sendInfo.dst := by
  unfold afterHandshake
  cases cfg.ctx.rawMode <;> rfl

/-- A handshake message is handed to `send_raw` if it can be encrypted. -/
theorem goes_sendHandshake {raw : RawInfo} {id2 : UInt32} {out : List Effect}
    (hidle : c.state ≠ .idle) (hdst : raw.sendInfo.dst = c.info.raw.sendInfo.dst)
    (quiet : ∀ e ∈ out, e.Calm) (may : ¬ o.Seals → G c) :
    Goes cfg G Allowed c (sendHandshake cfg o raw id2 out) fun _ _ => True := by
  refine runs_get_bind ?_
  dsimp only
  generalize hsent : Conn.sendHandshake (c.ctx cfg) o.encrypt o.iv o.padding o.roll raw
    c.info.myId id2 cfg.constId = r
  have hkept : Kept cfg c { c with info := { c.info with
      raw := afterHandshake cfg r.1, lastHbSentTime := o.now } } := by
    refine .of_dst rfl ?_ id
    rw [← hdst, ← hsent]
    exact (afterHandshake_dst _).trans (Conn.sendHandshake_dst ..)
  have hseal : ∀ e ∈ out ++ [.sealBare r.2], e.Calm := by
    intro e he
    rcases List.mem_append.mp he with he | he
    · exact quiet e he
    · rw [List.mem_singleton.mp he]
      trivial
  refine (goes_calm (.refl c) hseal (Q := fun _ d => d = c) rfl).bind ?_
  rintro _ d rfl
  by_cases hencrypted : (o.encrypt r.2).isSome = true
  · rw [if_pos hencrypted]
    refine runs_act (.send hkept hidle hdst (fun _ => .inl (List.mem_singleton_self _)) ?_) trivial
    simp [Effect.Calm]
  · rw [if_neg hencrypted]
    refine runs_act (.unsent hkept hidle hidle (may fun h => hencrypted ?_)) trivial
    rw [← hsent, sealed_sendHandshake]
    exact h ..

theorem helloHeaders_dst (first : Bool) (raw : RawInfo) :
    (helloHeaders first raw).sendInfo.dst = raw.sendInfo.dst := by
  cases first <;> rfl

theorem confirmHeaders_dst (first : Bool) (raw : RawInfo) :
    (confirmHeaders first raw).sendInfo.dst = raw.sendInfo.dst := by
  cases first <;> rfl

/-- What repeating the hello can do. -/
theorem goes_retryHello (hs : c.state = .handshake1) (may : ¬ o.Seals → G c) :
    Goes cfg G Allowed c (retryHello cfg o) fun _ _ => True := by
  have hidle : c.state ≠ .idle := by simp [hs]
  refine runs_get_bind (runs_ite (fun _ => ?_) fun _ => runs_pure trivial)
  refine runs_ite (fun _ => runs_ite (fun _ => ?_) fun _ => ?_) fun _ => ?_
  · exact goes_sendHandshake hidle (helloHeaders_dst ..) (by simp) may
  · refine goes_sendHandshake hidle ?_ (by simp [Effect.Calm]) may
    exact (RawCtx.sendRaw_dst ..).trans (helloHeaders_dst ..)
  · exact goes_sendHandshake hidle rfl (by simp) may

theorem goes_retryConfirm (hs : c.state = .handshake2) (may : ¬ o.Seals → G c) :
    Goes cfg G Allowed c (retryConfirm cfg o) fun _ _ => True := by
  have hidle : c.state ≠ .idle := by simp [hs]
  refine runs_get_bind (runs_ite (fun _ => ?_) fun _ => runs_pure trivial)
  refine runs_ite (fun _ => ?_) fun _ => ?_
  · exact goes_sendHandshake hidle (confirmHeaders_dst ..) (by simp) may
  · exact goes_sendHandshake hidle rfl (by simp) may

/-- A ready client sends heartbeats or loses its session. -/
theorem goes_timerReady (hs : c.state = .ready) (may : ∀ d : Client, d.state = .ready → G d) :
    Goes cfg G Allowed c (timerReady cfg o) fun _ _ => True := by
  have lose : ∀ {d : Client} (reason : CycleReason), d.state = .ready →
      Goes cfg G Allowed d (goIdle reason o.endId) fun _ _ => True := fun reason hd =>
    (goes_goIdle (may _ hd)).mono fun _ _ _ => trivial
  refine (goes_calm (.of_eq rfl rfl rfl rfl rfl fun _ => rfl) (by simp)
    (Q := fun _ d => d.state = .ready) hs).bind fun _ d hd => runs_get_bind ?_
  refine runs_ite (fun _ => lose _ hd) fun _ => runs_ite (fun _ => lose _ hd) fun _ => ?_
  refine runs_ite (fun _ => lose _ hd) fun _ => runs_ite (fun _ => runs_pure trivial) fun _ => ?_
  have hready : ∀ info : ConnInfo, (d.withInfo info).fresh cfg = d.fresh cfg := fun info => by
    have hfirst : d.state ≠ firstState cfg := fun h => firstState_ne_ready (h.symm.trans hd)
    rw [fresh_eq_false (by simp [hd]) hfirst]
    exact fresh_eq_false (c := d.withInfo info) (by simp [withInfo, hd]) hfirst
  refine runs_get_bind (goes_calm ⟨.of_dst rfl rfl id, hready _, fun h => ?_⟩ ?_ trivial)
  · exact ⟨h, rfl⟩
  · simp [handIn, Effect.Calm]

/-- A handshake is given up after its timeout, or goes on. -/
theorem goes_orTimeout {retry : ClientM Unit}
    (may : o.now - c.info.lastStateTime > clientHandshakeTimeoutMs → G c)
    (h : Goes cfg G Allowed c retry fun _ _ => True) :
    Goes cfg G Allowed c (orTimeout o retry) fun _ _ => True := by
  refine runs_get_bind (runs_ite (fun hlate => ?_) fun _ => h)
  exact (goes_goIdle (may hlate)).mono fun _ _ _ => trivial

/-- What the timer can do in any state. -/
theorem goes_timerState (late : c.state.handshaking = true →
      o.now - c.info.lastStateTime > clientHandshakeTimeoutMs → G c)
    (ready : ∀ d : Client, d.state = .ready → G d)
    (unsealed : c.state.handshaking = true → ¬ o.Seals → G c) :
    Goes cfg G Allowed c (timerState cfg o) fun _ _ => True := by
  refine runs_get_bind ?_
  cases hs : c.state with
  | idle => exact runs_pure trivial
  | tcpHandshake => exact goes_orTimeout (late (by rw [hs]; rfl)) (goes_retrySyn hs)
  | tcpHandshakeDummy => exact goes_orTimeout (late (by rw [hs]; rfl)) (runs_pure trivial)
  | handshake1 =>
    exact goes_orTimeout (late (by rw [hs]; rfl))
      (goes_retryHello hs (unsealed (by rw [hs]; rfl)))
  | handshake2 =>
    exact goes_orTimeout (late (by rw [hs]; rfl))
      (goes_retryConfirm hs (unsealed (by rw [hs]; rfl)))
  | ready => exact goes_timerReady hs ready

/-- What a tick at `c` finds behind the start of an attempt: the attempt that was under way, or
one that it starts itself when the kernel is ready. -/
def Finds (o : TimerOracle) (c d : Client) : Prop :=
  (c.state ≠ .idle ∧ c.info.raw.disabled = false ∧ d = c.maintain o.now) ∨
  ((c.state = .idle ∨ c.info.raw.disabled = true) ∧ o.resourcesReady = true ∧
    d.info.lastStateTime = o.now)

/-- `on_timer` is made of steps of the attempt. What ends an attempt is a disabled connection, an
expired round, a handshake that took too long, or the loss of a session. -/
theorem goes_onTimer (disabled : c.info.raw.disabled = true → G (c.maintain o.now))
    (ended : ∀ d, Finds o c d → d.state.handshaking = true →
      o.roundExpired = true ∨ o.now - d.info.lastStateTime > clientHandshakeTimeoutMs → G d)
    (ready : ∀ d : Client, d.state = .ready → G d)
    (unsealed : ∀ d : Client, d.state.handshaking = true → ¬ o.Seals → G d) :
    Goes cfg G Allowed c (onTimer cfg o) fun _ _ => True := by
  refine Runs.bind (goes_calm (.of_eq rfl rfl rfl rfl rfl fun _ => rfl) (by simp)
    (Q := fun _ d => d = c.maintain o.now) rfl) ?_
  rintro _ d rfl
  refine (goes_endDisabled disabled).bind fun _ d hd => goes_attempt.bind fun go e he => ?_
  refine runs_ite (fun hgo => runs_get_bind ?_) fun _ => runs_pure trivial
  have hfinds : Finds o c e := by
    obtain ⟨hidle, rfl⟩ | ⟨hidle, hready⟩ := he hgo
    · obtain ⟨henabled, rfl⟩ | ⟨-, hdidle⟩ := hd
      · exact .inl ⟨hidle, henabled, rfl⟩
      · exact absurd hdidle hidle
    · obtain ⟨-, rfl⟩ | ⟨hdisabled, -⟩ := hd
      · exact .inr ⟨.inl hidle, hready⟩
      · exact .inr ⟨.inr hdisabled, hready⟩
  refine runs_ite (fun h => ?_) fun _ => ?_
  · obtain ⟨hs, hexpired⟩ := Bool.and_eq_true_iff.mp h
    exact (goes_goIdle (ended e hfinds hs (.inl hexpired))).mono fun _ _ _ => trivial
  · exact goes_timerState (fun hs hlate => ended e hfinds hs (.inr hlate)) ready
      fun hs => unsealed e hs

end Client

end Udp2raw
