import Udp2raw.Attempt.Moves
import Udp2raw.Crypto.Engine
import Udp2raw.Endpoint.Runs
import Udp2raw.Generation.Safety

/-!
# Failed attempts were tried

What `on_cycle` hears as a failed attempt should have been one: a handshake packet
was handed to `send_raw`, or the easy-faketcp socket was connected, after the
endpoint was selected. That is so unless an attempt is given up while its first
packet is still due. The deadline of the controller's round can do this, since it
runs on while the attempt waits for its prerequisites.
-/

namespace Udp2raw

open Program

/-- The effect is part of a handshake with the endpoint: a SYN or a handshake message for it is
handed to `send_raw`, or the easy-faketcp socket is connected to it. -/
def Effect.tries (cfg : ClientCfg) (dst : IpAddr × UInt16) : Effect → Bool
  | .sendEmpty info => info.syn && decide (cfg.Towards dst info)
  | .sendBare info => decide (cfg.Towards dst info)
  | .connect peer => decide (peer = dst)
  | _ => false

/-- The effect is a call of `on_cycle` that reports a failed attempt. -/
def Effect.reportsFailure : Effect → Bool
  | .endpoint (.onCycle _ .attemptFailed) => true
  | _ => false

/-- `Q` holds of the endpoint that was selected last and of the effects since then, if one was
selected. -/
def SinceSelected (Q : IpAddr × UInt16 → List Effect → Prop) (log : List Effect) : Prop :=
  ∀ before dst since, log = before ++ .selected dst :: since →
    (∀ other, .selected other ∉ since) → Q dst since

/-- A handshake with the endpoint was tried. -/
def Tried (cfg : ClientCfg) (dst : IpAddr × UInt16) (since : List Effect) : Prop :=
  ∃ e ∈ since, e.tries cfg dst = true

/-- Every failure that follows the selection of an endpoint is reported after a handshake with
that endpoint was tried. -/
def FailuresTried (cfg : ClientCfg) (log : List Effect) : Prop :=
  History.Each (fun before e => e.reportsFailure = true → SinceSelected (Tried cfg) before) log

/-- The tick encrypts as the engine of some mode, key and machine does. -/
def TimerOracle.UsesEngine (o : TimerOracle) : Prop :=
  ∃ (prim : Primitives) (cpuHasAes : Bool) (mode : CipherMode) (auth : AuthMode)
    (cfbLegacy : Bool) (keys : Keys) (backend : AesBackend) (nonce : FixedBytes 24),
    ∀ p : Bytes, p.length ≤ maxDataLen →
      (Crypto.withBackend prim.hashes cpuHasAes mode auth cfbLegacy keys backend).encryptVec prim
        nonce p = .ok (o.encrypt p)

/-- A handshake message is long enough for every mode and far from too long. -/
theorem TimerOracle.UsesEngine.seals {o : TimerOracle} (h : o.UsesEngine) : o.Seals := by
  intro iv padding id1 id2 id3
  obtain ⟨prim, cpu, mode, auth, legacy, keys, backend, nonce, henc⟩ := h
  have hlen : (Wire.buildBare iv padding (Wire.buildHandshake id1 id2 id3)).length = 29 := by
    simp [Wire.buildBare, Wire.buildHandshake]
  have hok : ¬ Refused mode auth 29 := by
    unfold Refused cipherInputLen maxDataLen
    split <;> omega
  obtain ⟨wire, hwire, -⟩ :=
    Crypto.roundtrip prim cpu cpu mode auth legacy keys backend backend nonce (hlen ▸ hok)
  rw [henc _ (by rw [hlen]; decide)] at hwire
  rw [Except.ok.inj hwire]
  rfl

/-- An attempt that the tick starts does not end in the same tick with nothing tried: the
controller's round has not expired, or there is a socket to connect. -/
def TimerOracle.Unexpired (cfg : ClientCfg) (o : TimerOracle) : Prop :=
  o.resourcesReady = true → Client.hasSocket cfg = true ∨ o.roundExpired = false

/-! ## Logs that grow -/

theorem eq_append_cons_of_not_mem {α : Type} {log out a b : List α} {x : α}
    (h : log ++ out = a ++ x :: b) (hx : x ∉ out) : ∃ b', log = a ++ x :: b' ∧ b = b' ++ out := by
  rcases List.append_eq_append_iff.mp h with ⟨m, rfl, rfl⟩ | ⟨m, rfl, hm⟩
  · simp at hx
  · cases m with
    | nil =>
      rw [List.nil_append] at hm
      simp [← hm] at hx
    | cons y m =>
      obtain ⟨rfl, rfl⟩ := List.cons.inj hm
      exact ⟨m, rfl, rfl⟩

variable {log out : List Effect} {cfg : ClientCfg}

/-- The selected endpoint stays the last one as long as no other is selected. -/
theorem SinceSelected.append {Q R : IpAddr × UInt16 → List Effect → Prop} (h : SinceSelected Q log)
    (hout : ∀ dst, .selected dst ∉ out) (hqr : ∀ dst since, Q dst since → R dst (since ++ out)) :
    SinceSelected R (log ++ out) := by
  intro before dst since heq hlast
  obtain ⟨earlier, rfl, rfl⟩ := eq_append_cons_of_not_mem heq (hout dst)
  refine hqr dst earlier (h before dst earlier rfl fun other hother => ?_)
  exact hlast other (List.mem_append_left _ hother)

/-- A selection starts anew. -/
theorem SinceSelected.selected {Q : IpAddr × UInt16 → List Effect → Prop} {dst : IpAddr × UInt16}
    (log : List Effect) (h : Q dst []) : SinceSelected Q (log ++ [.selected dst]) := by
  intro before other since heq hlast
  rcases List.eq_nil_or_concat since with rfl | ⟨init, e, rfl⟩
  · obtain ⟨-, hsel⟩ := List.append_inj' heq rfl
    cases hsel
    exact h
  · have hend : log ++ [.selected dst] = (before ++ .selected other :: init) ++ [e] := by
      simpa using heq
    obtain ⟨-, hsel⟩ := List.append_inj' hend rfl
    cases hsel
    exact absurd (by simp) (hlast dst)

theorem Tried.append {dst : IpAddr × UInt16} {since : List Effect} (h : Tried cfg dst since)
    (out : List Effect) : Tried cfg dst (since ++ out) := by
  obtain ⟨e, he, htries⟩ := h
  exact ⟨e, List.mem_append_left _ he, htries⟩

theorem Effect.Calm.not_selected (quiet : ∀ e ∈ out, e.Calm) (dst : IpAddr × UInt16) :
    .selected dst ∉ out := fun h => quiet _ h

theorem Effect.Calm.not_reportsFailure {e : Effect} (h : e.Calm) : e.reportsFailure ≠ true := by
  unfold reportsFailure
  split
  · exact h.elim
  · exact Bool.false_ne_true

/-- Calm effects report nothing. -/
theorem FailuresTried.append_calm (h : FailuresTried cfg log) (quiet : ∀ e ∈ out, e.Calm) :
    FailuresTried cfg (log ++ out) :=
  History.Each.append h (History.eachFrom_of_forall (fun e he _ hreport =>
    absurd hreport (quiet e he).not_reportsFailure) log)

namespace Client

variable {cfg : ClientCfg} {c d : Client} {out log : List Effect}

/-! ## What the attempt in progress stands for -/

/-- The client's packets go to the endpoint in use, and only in FakeTCP mode it waits for a
SYN-ACK. -/
structure Aimed (cfg : ClientCfg) (c : Client) : Prop where
  towards : cfg.Towards c.remote c.info.raw.sendInfo
  opening : c.state.opening = true → cfg.ctx.rawMode = .fakeTcp

/-- Nothing is lost if the client is sent to `Idle`: a handshake was tried, or the connection of
an idle client is disabled, which a selection rules out. -/
def MayEnd (cfg : ClientCfg) (c : Client) : Prop :=
  c.fresh cfg = true → c.state = .idle ∧ c.info.raw.disabled = true

/-- How a client stands to the endpoint selected last: either nothing was tried yet, and then an
idle client is not disabled, or a handshake was. -/
structure Stands (cfg : ClientCfg) (c : Client) (dst : IpAddr × UInt16) (since : List Effect) :
    Prop where
  remote : c.remote = dst
  enabled : c.fresh cfg = true → c.state = .idle → c.info.raw.disabled = false
  tried : c.fresh cfg = false → Tried cfg dst since

/-- The log up to now is as it should be, and the client as the log says. -/
structure Tracked (cfg : ClientCfg) (log : List Effect) (c : Client) : Prop where
  aimed : c.Aimed cfg
  reported : FailuresTried cfg log
  stands : SinceSelected (Stands cfg c) log

theorem Kept.aimed (h : Kept cfg c d) (hc : c.Aimed cfg) : d.Aimed cfg := by
  refine ⟨?_, fun hopening => hc.opening (h.opening hopening)⟩
  rw [h.remote]
  exact h.towards _ hc.towards

theorem aimed_selectEndpoint (hc : c.Aimed cfg) (id : UInt32)
    (switchTo : Option (IpAddr × UInt16)) : (c.selectEndpoint cfg id switchTo).Aimed cfg := by
  cases switchTo with
  | none => exact ⟨hc.towards, hc.opening⟩
  | some dst => exact ⟨⟨rfl, fun _ => rfl⟩, hc.opening⟩

theorem aimed_begin (hc : c.Aimed cfg) (now : UInt64) : (c.begin cfg now).Aimed cfg := by
  refine ⟨hc.towards, fun hopening => ?_⟩
  have hopening : (firstState cfg).opening = true := hopening
  unfold firstState at hopening
  split at hopening
  · cases hopening
  · cases hopening
  · assumption

/-- Packets always go to the endpoint in use. -/
theorem Course.aimed {G : Client → Prop} (h : Course cfg G c out d) (hc : c.Aimed cfg) :
    d.Aimed cfg := by
  cases h with
  | calm calm => exact calm.toKept.aimed hc
  | toIdle => exact ⟨hc.towards, nofun⟩
  | select => exact aimed_selectEndpoint hc _ _
  | begin => exact aimed_begin hc _
  | send kept => exact kept.aimed hc
  | unsent kept => exact kept.aimed hc

variable {dst : IpAddr × UInt16} {since : List Effect}

/-- A client that may be sent to `Idle` has tried a handshake. -/
theorem Stands.tried_of_mayEnd (h : Stands cfg c dst since) (may : c.MayEnd cfg) :
    Tried cfg dst since := by
  refine h.tried ?_
  by_contra hfresh
  have hfresh : c.fresh cfg = true := by simpa using hfresh
  obtain ⟨hidle, hdisabled⟩ := may hfresh
  cases (h.enabled hfresh hidle).symm.trans hdisabled

/-- Calm steps keep how a client stands. -/
theorem Stands.calm (h : Stands cfg c dst since) (calm : Calm cfg c d) (out : List Effect) :
    Stands cfg d dst (since ++ out) where
  remote := calm.remote.trans h.remote
  enabled hfresh hidle := by
    obtain ⟨hc, hdisabled⟩ := calm.idle hidle
    exact hdisabled.trans (h.enabled (calm.fresh ▸ hfresh) hc)
  tried hfresh := (h.tried (calm.fresh ▸ hfresh)).append out

/-- Once a handshake was tried it does not matter where the client goes, as long as it keeps its
endpoint and an idle client has none selected. -/
theorem Stands.of_tried (hremote : d.remote = dst)
    (hidle : d.state = .idle → d.attemptEndpointSelected = false) (h : Tried cfg dst since) :
    Stands cfg d dst since where
  remote := hremote
  enabled hfresh hs := by
    have hne : firstState cfg ≠ .idle := firstState_ne_idle
    simp [fresh, untried, hs, hidle hs, hne.symm] at hfresh
  tried _ := h

theorem Tracked.calm (h : Tracked cfg log c) (calm : Calm cfg c d) (quiet : ∀ e ∈ out, e.Calm) :
    Tracked cfg (log ++ out) d where
  aimed := calm.toKept.aimed h.aimed
  reported := h.reported.append_calm quiet
  stands := h.stands.append (Effect.Calm.not_selected quiet) fun _ _ hs => hs.calm calm out

/-- A client that has tried goes on. -/
theorem Tracked.advance (h : Tracked cfg log c) (may : c.MayEnd cfg) (kept : Kept cfg c d)
    (hidle : d.state = .idle → d.attemptEndpointSelected = false) (quiet : ∀ e ∈ out, e.Calm) :
    Tracked cfg (log ++ out) d where
  aimed := kept.aimed h.aimed
  reported := h.reported.append_calm quiet
  stands := h.stands.append (Effect.Calm.not_selected quiet) fun _ _ hs =>
    .of_tried (kept.remote.trans hs.remote) hidle ((hs.tried_of_mayEnd may).append out)

/-- Whatever the controller hears at a selection, something was tried before. -/
theorem Tracked.select (h : Tracked cfg log c) (id : UInt32) (switchTo : Option (IpAddr × UInt16))
    (now : UInt64) (hs : c.state = .idle) (unselected : c.attemptEndpointSelected = false) :
    Tracked cfg (log ++ [.newId id, .incarnation (c.selectEndpoint cfg id switchTo).key,
      .endpoint (.onCycle now c.cycleReason),
      .selected (c.selectEndpoint cfg id switchTo).remote]) (c.selectEndpoint cfg id switchTo) := by
  let key := (c.selectEndpoint cfg id switchTo).key
  have hfresh : c.fresh cfg = false := by
    have hne : firstState cfg ≠ .idle := firstState_ne_idle
    simp [fresh, untried, hs, unselected, hne.symm]
  have hquiet : ∀ e ∈ [.newId id, .incarnation key], Effect.Calm e := by simp [Effect.Calm]
  have htried : SinceSelected (Tried cfg) (log ++ [.newId id, .incarnation key]) :=
    h.stands.append (Effect.Calm.not_selected hquiet) fun _ _ hstands =>
      (hstands.tried hfresh).append _
  have hreported : FailuresTried cfg (log ++ [.newId id, .incarnation key] ++
      [.endpoint (.onCycle now c.cycleReason),
        .selected (c.selectEndpoint cfg id switchTo).remote]) := by
    refine (h.reported.append_calm hquiet).append ⟨fun _ => htried, ?_, trivial⟩
    intro hreport
    cases hreport
  refine ⟨aimed_selectEndpoint h.aimed id switchTo, by simpa using hreported, ?_⟩
  have hstands : Stands cfg (c.selectEndpoint cfg id switchTo)
      (c.selectEndpoint cfg id switchTo).remote [] := by
    refine ⟨rfl, fun _ _ => ?_, fun hf => ?_⟩
    · cases switchTo <;> rfl
    · cases switchTo <;> simp [fresh, selectEndpoint, withRaw, hs] at hf
  have hselected := SinceSelected.selected
    (log ++ [.newId id, .incarnation key, .endpoint (.onCycle now c.cycleReason)]) hstands
  rwa [List.append_assoc] at hselected

/-- An attempt that starts has its first packet due, unless it connected a socket. -/
theorem Tracked.begin (h : Tracked cfg log c) (now : UInt64) :
    Tracked cfg (log ++ c.connectCall cfg) (c.begin cfg now) := by
  have hquiet : ∀ e ∈ c.connectCall cfg, e.Calm := by
    unfold connectCall
    split <;> simp [Effect.Calm]
  refine ⟨aimed_begin h.aimed now, h.reported.append_calm hquiet, ?_⟩
  refine h.stands.append (Effect.Calm.not_selected hquiet) fun dst since hstands => ?_
  refine ⟨hstands.remote, fun _ hidle => absurd hidle firstState_ne_idle, fun hfresh => ?_⟩
  have hsocket : hasSocket cfg = true := by
    simpa [fresh, untried, Client.begin, firstState_ne_idle] using hfresh
  refine ⟨.connect c.remote, ?_, decide_eq_true hstands.remote⟩
  rw [connectCall, if_pos hsocket]
  simp

/-- The packet that sets the retry timer for the first time is a try. -/
theorem Tracked.send (h : Tracked cfg log c) {info : PacketInfo} (kept : Kept cfg c d)
    (hidle : d.state ≠ .idle) (hdst : info.dst = c.info.raw.sendInfo.dst)
    (handed : c.fresh cfg = true → .sendBare info ∈ out ∨ .sendEmpty info ∈ out ∧ info.syn = true)
    (quiet : ∀ e ∈ out, e.Calm) : Tracked cfg (log ++ out) d := by
  refine ⟨kept.aimed h.aimed, h.reported.append_calm quiet, ?_⟩
  refine h.stands.append (Effect.Calm.not_selected quiet) fun dst since hstands => ?_
  refine .of_tried (kept.remote.trans hstands.remote) (fun hs => absurd hs hidle) ?_
  have haim : cfg.Towards dst info := hstands.remote ▸ h.aimed.towards.of_dst hdst
  cases hfresh : c.fresh cfg with
  | false => exact (hstands.tried hfresh).append out
  | true =>
    rcases handed hfresh with hmem | ⟨hmem, hsyn⟩
    · exact ⟨_, List.mem_append_right _ hmem, decide_eq_true haim⟩
    · refine ⟨_, List.mem_append_right _ hmem, ?_⟩
      rw [Effect.tries, hsyn, decide_eq_true haim]
      rfl

/-- Every step of an attempt that is not given up too early keeps track. -/
theorem Course.tracked (h : Course cfg (MayEnd cfg) c out d) (hc : Tracked cfg log c) :
    Tracked cfg (log ++ out) d := by
  cases h with
  | calm calm quiet => exact hc.calm calm quiet
  | toIdle reason id may =>
    exact hc.advance may (.of_dst rfl rfl nofun) (fun _ => rfl) (by simp [Effect.Calm])
  | select id switchTo now state unselected => exact hc.select id switchTo now state unselected
  | begin now => exact hc.begin now
  | send kept state dst handed quiet => exact hc.send kept state dst handed quiet
  | unsent kept state next may =>
    exact hc.advance may kept (fun hidle => absurd hidle next) (by simp)

/-! ## Attempts that are not given up too early -/

/-- The tick ends no attempt whose first packet is due: it finds the connection enabled, the
controller's round not expired and the handshake timeout not reached. One that finds no attempt
starts none in an expired round. -/
def PromptTick (cfg : ClientCfg) (c : Client) (o : TimerOracle) : Prop :=
  (c.untried cfg = true → c.info.raw.disabled = false ∧ o.roundExpired = false ∧
    o.now - c.info.lastStateTime ≤ clientHandshakeTimeoutMs) ∧
  (c.state = .idle ∨ c.info.raw.disabled = true → o.Unexpired cfg)

instance (cfg : ClientCfg) (o : TimerOracle) : Decidable (o.Unexpired cfg) :=
  inferInstanceAs (Decidable (_ → _))

instance (cfg : ClientCfg) (c : Client) (o : TimerOracle) : Decidable (c.PromptTick cfg o) :=
  inferInstanceAs (Decidable (_ ∧ _))

/-- What a prompt event knows of its moves. -/
def Known (cfg : ClientCfg) (c : Client) : Cause → Prop
  | .tick o => o.UsesEngine ∧ c.PromptTick cfg o
  | .answer => c.untried cfg = false

/-- A client in a handshake that nothing holds up may end it. -/
theorem mayEnd_of_handshaking (hs : c.state.handshaking = true) (h : c.untried cfg = false) :
    c.MayEnd cfg := by
  intro hfresh
  have hidle : c.state ≠ .idle := by
    intro hidle
    simp [hidle, ClientState.handshaking] at hs
  cases h.symm.trans (untried_of_fresh hidle hfresh)

theorem mayEnd_of_ready (hs : c.state = .ready) : c.MayEnd cfg := by
  intro hfresh
  have hfirst : c.state ≠ firstState cfg := fun h => firstState_ne_ready (h.symm.trans hs)
  cases (fresh_eq_false (by simp [hs]) hfirst).symm.trans hfresh

/-- A prompt tick ends no attempt too early. -/
theorem goes_of_prompt {o : TimerOracle} (real : o.UsesEngine) (prompt : c.PromptTick cfg o) :
    Goes cfg (MayEnd cfg) (fun _ => False) c (onTimer cfg o) fun _ _ => True := by
  refine goes_onTimer (fun hdisabled hfresh => ?_) (fun d hfinds hs hover => ?_)
    (fun _ hs => mayEnd_of_ready hs) fun _ _ h => absurd real.seals h
  · by_cases hidle : c.state = .idle
    · exact ⟨hidle, hdisabled⟩
    · cases (prompt.1 (untried_of_fresh hidle hfresh)).1.symm.trans hdisabled
  · refine mayEnd_of_handshaking hs ?_
    by_contra huntried
    have huntried : d.untried cfg = true := by simpa using huntried
    obtain ⟨-, -, rfl⟩ | ⟨hnew, hready, htime⟩ := hfinds
    · obtain ⟨-, hround, htime⟩ := prompt.1 huntried
      obtain hexpired | hlate := hover
      · cases hround.symm.trans hexpired
      · exact absurd hlate (UInt64.not_lt.mpr htime)
    · obtain hexpired | hlate := hover
      · obtain hsocket | hround := prompt.2 hnew hready
        · simp [untried, hsocket] at huntried
        · cases hround.symm.trans hexpired
      · rw [htime, UInt64.sub_self] at hlate
        exact absurd hlate (by decide)

/-- Every move keeps track. -/
theorem Move.tracked (h : Move cfg (Known cfg) c out d) (hc : Tracked cfg log c) :
    Tracked cfg (log ++ out) d := by
  cases h with
  | tick o known run =>
    obtain ⟨hsteps, -⟩ := (goes_of_prompt known.1 known.2).ok run
    exact hsteps.history (fun _ _ _ _ hstep => hstep.tracked) hc
  | answer known state next kept quiet =>
    refine hc.advance (mayEnd_of_handshaking state known) kept (fun hidle => ?_) quiet
    rcases next with next | next <;> cases next.symm.trans hidle
  | calm calm quiet => exact hc.calm calm quiet

end Client

/-! ## Prompt events -/

namespace ClientEvent

open Client

/-- When an event at the client `c` ends no attempt too early, and answers none: every tick that it
is or makes is prompt, and a packet that arrives while the first packet of an attempt is due is
from elsewhere. A batch makes a tick behind `on_authenticated`, which closes the round. Commands of
the operator are not such events. -/
def Prompt (cfg : ClientCfg) (c : Client) : ClientEvent → Prop
  | .timer o => o.UsesEngine ∧ c.PromptTick cfg o
  | .raw o wire _ => o.timer.UsesEngine ∧ (c.untried cfg = true → c.Foreign cfg wire) ∧
      ((c.info.raw.disabled = true ∨
        ∃ buf, clampPacket cfg.fixGro wire = some buf ∧ (c.ctx cfg).Disables buf) →
        o.timer.Unexpired cfg)
  | .done o _ => ∀ i, (o.plain i).timer.UsesEngine ∧ (o.plain i).timer.Unexpired cfg
  | .udp .. => True
  | .fifo .. => False

variable {cfg : ClientCfg} {c d : Client} {out log : List Effect} {ev : ClientEvent}

/-- A prompt event is made of prompt moves. -/
theorem moves_of_prompt (hc : c.Aimed cfg) (h : ev.Prompt cfg c) :
    Moves cfg (Known cfg) c (ev.handle cfg) fun _ _ => True := by
  cases ev with
  | raw o wire ll =>
    obtain ⟨hengine, hearly, hunexpired⟩ := h
    refine moves_onRawPacket hc.opening ?_ (fun d hs hu hdis => ⟨hengine, ?_, ?_⟩) ll
    · cases hu : c.untried cfg with
      | true => exact .inl (hearly hu)
      | false => exact .inr fun d hd => hd
    · intro huntried
      cases hu.symm.trans huntried
    · rintro (hidle | hdisabled)
      · exact absurd hidle hs
      · exact hunexpired (hdis hdisabled)
  | done o done =>
    refine moves_onDone (fun i d hd => ⟨(h i).1, fun huntried => ?_, fun _ => (h i).2⟩) done
    have hfresh : d.fresh cfg = true := by rw [fresh, huntried, Bool.or_true]
    cases (fresh_eq_false (by simp [hd]) (hd ▸ firstState_ne_ready.symm)).symm.trans hfresh
  | udp now newConv data peer => exact moves_onUdpPacket now newConv data peer
  | timer o => exact moves_onTimer h
  | fifo command id => exact h.elim

/-- Every event but a command of the operator is made of moves. -/
theorem moves_handle (hc : c.Aimed cfg) (h : ∀ command id, ev ≠ .fifo command id) :
    Moves cfg (fun _ _ => True) c (ev.handle cfg) fun _ _ => True := by
  cases ev with
  | raw o buf ll =>
    exact moves_onRawPacket hc.opening (.inr fun _ _ => trivial) (fun _ _ _ _ => trivial) ll
  | done o d => exact moves_onDone (fun _ _ _ => trivial) d
  | udp now newConv data peer => exact moves_onUdpPacket now newConv data peer
  | timer o => exact moves_onTimer trivial
  | fifo command id => exact absurd rfl (h command id)

end ClientEvent

/-! ## Runs -/

namespace Client

variable {cfg : ClientCfg} {c d : Client} {out log : List Effect}

/-- Every move keeps the aim. -/
theorem Move.aimed {P : Client → Cause → Prop} (h : Move cfg P c out d) (hc : c.Aimed cfg) :
    d.Aimed cfg := by
  cases h with
  | tick o known run =>
    have hgoes : Goes cfg (fun _ => True) (fun _ => False) c (onTimer cfg o) fun _ _ => True :=
      goes_onTimer (fun _ => trivial) (fun _ _ _ _ => trivial) (fun _ _ => trivial)
        fun _ _ _ => trivial
    obtain ⟨hsteps, -⟩ := hgoes.ok run
    exact hsteps.invariant (fun _ _ _ hstep => hstep.aimed) hc
  | answer known state next kept quiet => exact kept.aimed hc
  | calm calm quiet => exact calm.toKept.aimed hc

theorem aimed_handle {ev : ClientEvent} (h : ev.handle cfg c = .ok ((), d, out))
    (hc : c.Aimed cfg) : d.Aimed cfg := by
  by_cases hfifo : ∃ command id, ev = .fifo command id
  · obtain ⟨command, id, rfl⟩ := hfifo
    match command with
    | .reconnect | .rollback true =>
      cases h
      exact ⟨hc.towards, nofun⟩
    | .rollback false | .promote =>
      cases h
      exact hc
  · obtain ⟨hsteps, -⟩ :=
      (ClientEvent.moves_handle hc fun command id heq => hfifo ⟨command, id, heq⟩).ok h
    exact hsteps.invariant (fun _ _ _ hstep => hstep.aimed) hc

/-- Every run keeps the aim. -/
theorem aimed_run {evs : List ClientEvent}
    (h : forEach (ClientEvent.handle cfg) evs c = .ok ((), d, out)) (hc : c.Aimed cfg) :
    d.Aimed cfg := by
  induction evs generalizing c out with
  | nil =>
    cases h
    exact hc
  | cons ev evs ih =>
    obtain ⟨_, e, first, rest, hev, hrest, rfl⟩ := bind_eq_ok.mp h
    exact ih hrest (aimed_handle hev hc)

/-- The client after an event. -/
def after (cfg : ClientCfg) (c : Client) (ev : ClientEvent) : Client :=
  match ev.handle cfg c with
  | .ok (_, d, _) => d
  | .error _ => c

/-- Every event is prompt at the client it meets. -/
def PromptRun (cfg : ClientCfg) (c : Client) : List ClientEvent → Prop
  | [] => True
  | ev :: evs => ev.Prompt cfg c ∧ PromptRun cfg (c.after cfg ev) evs

/-- A prompt run keeps track. -/
theorem Tracked.run {evs : List ClientEvent} {before : List Effect} (hc : Tracked cfg before c)
    (prompt : PromptRun cfg c evs) (h : forEach (ClientEvent.handle cfg) evs c = .ok ((), d, log)) :
    Tracked cfg (before ++ log) d := by
  induction evs generalizing c before log with
  | nil =>
    cases h
    rwa [List.append_nil]
  | cons ev evs ih =>
    obtain ⟨_, e, first, rest, hev, hrest, rfl⟩ := bind_eq_ok.mp h
    obtain ⟨hsteps, -⟩ := (ClientEvent.moves_of_prompt hc.aimed prompt.1).ok hev
    have hafter : c.after cfg ev = e := by rw [after, hev]
    rw [← List.append_assoc]
    exact ih (hsteps.history (fun _ _ _ _ hmove => hmove.tracked) hc) (hafter ▸ prompt.2) hrest

end Client

/-- From every state that any events lead to: in every following sequence of packets, completions,
datagrams and ticks that are prompt, every failure that is reported for a selected endpoint was
preceded, since the selection, by a handshake packet for that endpoint or by the connection of the
easy-faketcp socket. -/
theorem failures_tried {disableAntiReplay : Bool} {seeds : RawSeeds} {random : UInt64} {id : UInt32}
    {remote : IpAddr × UInt16} {ll : SockaddrLl} {earlier evs : List ClientEvent} {c d : Client}
    {before : List Effect} (reached : forEach (ClientEvent.handle cfg) earlier
      (.start cfg disableAntiReplay seeds random id remote ll) = .ok ((), c, before))
    (prompt : c.PromptRun cfg evs)
    (run : forEach (ClientEvent.handle cfg) evs c = .ok ((), d, log)) : FailuresTried cfg log := by
  have haimed : c.Aimed cfg := Client.aimed_run reached ⟨⟨rfl, fun _ => rfl⟩, nofun⟩
  have hc : Client.Tracked cfg [] c := by
    refine ⟨haimed, trivial, fun before dst since heq _ => ?_⟩
    simp at heq
  exact (hc.run prompt run).reported

/-- Encrypting by doing nothing is what the engine without cipher and authentication does. -/
theorem tick_usesEngine (now : UInt64) (id : UInt32) : (tick now id).UsesEngine := by
  refine ⟨default, false, .none, .none, false, .derive (default : Primitives).hashes [] true,
    .auto, .replicate 24 0, ?_⟩
  intro p hp
  rw [Crypto.encryptVec, if_neg (by omega)]
  exact congrArg (fun q => Except.ok (some q)) (List.append_nil p)

/-- A tick that starts no attempt in an expired round. -/
theorem tick_unexpired (now : UInt64) (id : UInt32) : (tick now id).Unexpired tcpCfg :=
  fun _ => .inr rfl

/-- A SYN, its answer, and a handshake that is not answered for five seconds. -/
def unanswered : List ClientEvent :=
  [.timer (tick 2000 6), .raw ⟨2001, tick 2001 10⟩ synAckPacket {}, .timer (tick 8000 20),
    .timer (tick 8400 30)]

/-- The next attempt reports the failure. -/
theorem failures_tried_unanswered :
    firstClient.PromptRun tcpCfg unanswered ∧
    ∃ d log, forEach (ClientEvent.handle tcpCfg) unanswered firstClient = .ok ((), d, log) ∧
      (∃ e ∈ log, e.reportsFailure = true) ∧ FailuresTried tcpCfg log := by
  have hprompt : firstClient.PromptRun tcpCfg unanswered := by
    refine ⟨⟨tick_usesEngine _ _, by decide +kernel⟩, ⟨tick_usesEngine _ _, fun h => ?_,
      fun _ => tick_unexpired _ _⟩, ⟨tick_usesEngine _ _, by decide +kernel⟩,
      ⟨tick_usesEngine _ _, by decide +kernel⟩, trivial⟩
    exact absurd h (by decide +kernel)
  have hrun : ((forEach (ClientEvent.handle tcpCfg) unanswered firstClient).toOption.any fun r =>
      r.2.2.any Effect.reportsFailure) = true := by decide +kernel
  obtain ⟨_, d, log, hlog, hreport⟩ :=
    exists_ok (p := fun _ _ log => log.any Effect.reportsFailure) hrun
  have hreached : forEach (ClientEvent.handle tcpCfg) [] firstClient =
      .ok ((), firstClient, []) := rfl
  exact ⟨hprompt, d, log, hlog, by simpa using hreport, failures_tried hreached hprompt hlog⟩

/-- A client of `x:443`, which resolved to `9.9.9.9`. -/
def namedClient : Client := .start tcpCfg false ⟨1, 2, 3, 4⟩ 70 6 (.v4 (.replicate 4 9), 443) {}

/-- From the selection of `9.9.9.9` to the report that it failed. -/
def untriedFailure : List Effect :=
  [.endpoint .onSessionEnded, .newId 22, .incarnation ⟨0, 3⟩, .newId 31, .incarnation ⟨0, 4⟩]

/-- The route to `9.9.9.9` is missing for half a minute. When it is there the controller's round,
which began with its start, has expired: the attempt starts, is given up in the same tick, and is
reported as failed by the next, with no packet sent. -/
theorem failure_reported_untried :
    ∃ ctrl, Controller.bootstrap (.hostname [120] 443) Controller.cachedOpts
        Controller.firstBoot = .ok ctrl ∧
      ctrl.current = namedClient.remote ∧
      (ctrl.onCycle 2000 1002 .startup (Controller.answering 2000 none)).1 = none ∧
      ∃ d log, forEach (ClientEvent.handle tcpCfg)
        [.timer { tick 2000 6 with resourcesReady := false },
          .timer { tick 33000 20 with roundExpired := (ctrl.onCycle 2000 1002 .startup
            (Controller.answering 2000 none)).2.1.roundExpired 33000 },
          .timer (tick 33400 30)] namedClient = .ok ((), d, log) ∧
        ¬ FailuresTried tcpCfg log := by
  let before : List Effect :=
    [.newId 7, .incarnation ⟨0, 2⟩, .endpoint (.onCycle 2000 .startup)]
  let selected : Effect := .selected namedClient.remote
  let report : Effect := .endpoint (.onCycle 33400 .attemptFailed)
  have hboot : (Controller.bootstrap (.hostname [120] 443) Controller.cachedOpts
      Controller.firstBoot).toOption.any (fun ctrl =>
        let cycled := ctrl.onCycle 2000 1002 .startup (Controller.answering 2000 none)
        decide (ctrl.current = namedClient.remote ∧ cycled.1 = none ∧
          cycled.2.1.roundExpired 33000 = true)) = true := by decide +kernel
  have hrun : ((forEach (ClientEvent.handle tcpCfg)
      [.timer { tick 2000 6 with resourcesReady := false },
        .timer { tick 33000 20 with roundExpired := true },
        .timer (tick 33400 30)] namedClient).toOption.any fun r =>
          r.2.2.take 10 = before ++ selected :: untriedFailure ++ [report]) = true := by
    decide +kernel
  cases hctrl : Controller.bootstrap (.hostname [120] 443) Controller.cachedOpts
      Controller.firstBoot with
  | error e => simp [hctrl, Except.toOption] at hboot
  | ok ctrl =>
    rw [hctrl] at hboot
    obtain ⟨hcurrent, hstay, hexpired⟩ := of_decide_eq_true hboot
    obtain ⟨_, d, log, hlog, htake⟩ := exists_ok (p := fun _ _ log =>
      log.take 10 = before ++ selected :: untriedFailure ++ [report]) hrun
    refine ⟨ctrl, rfl, hcurrent, hstay, d, log, by rw [hexpired]; exact hlog, fun htried => ?_⟩
    rw [← List.take_append_drop 10 log, of_decide_eq_true htake, List.append_assoc] at htried
    obtain ⟨e, he, htries⟩ := htried.at rfl before namedClient.remote untriedFailure rfl
      (by simp [untriedFailure])
    have hnone : ∀ e ∈ untriedFailure, e.tries tcpCfg namedClient.remote = false := by decide
    cases (hnone e he).symm.trans htries

end Udp2raw
