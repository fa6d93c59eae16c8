import Udp2raw.Generation.Safety
import Udp2raw.Session.Client
import Udp2raw.Session.Delivery
import Udp2raw.Session.Server

/-!
# A client and a server over a hostile network

The network delivers to either end, in any order and as often as it likes, any
plaintext that either end ever sealed, also to the end that sealed it: the ends
may share one key. It cannot seal plaintexts of its own. Completions come in any
order and with any key, so the results do not rest on the pipeline. Either
process can die and start again at any time, under other settings.
-/

namespace Udp2raw

open Function Session

/-- The plaintexts a completion brings. -/
def Done.plains : Done → List Bytes
  | .encrypted .. => []
  | .decrypted _ plains _ => plains

/-- Every plaintext that comes with a completion or is opened by a handler was sealed. -/
def Authentic (pool : List Bytes) (cause : Option Done) (out : List Effect) : Prop :=
  (∀ d ∈ cause, ∀ plain ∈ d.plains, plain ∈ pool) ∧ ∀ plain, .openBare plain ∈ out → plain ∈ pool

/-- The effect opens only plaintexts of the pool. -/
def Effect.opensFrom (pool : List Bytes) : Effect → Bool
  | .openBare plain => decide (plain ∈ pool)
  | _ => true

instance (pool : List Bytes) (cause : Option Done) (out : List Effect) :
    Decidable (Authentic pool cause out) := by
  refine decidable_of_iff ((∀ d ∈ cause, ∀ plain ∈ d.plains, plain ∈ pool) ∧
    ∀ e ∈ out, e.opensFrom pool = true) (and_congr_right fun _ => ⟨fun h plain hp => ?_, ?_⟩)
  · simpa [Effect.opensFrom] using h _ hp
  · intro h e he
    cases e <;> first | rfl | exact decide_eq_true (h _ he)

/-- Both processes, where they run, and everything that happened. -/
structure World where
  client : Option (ClientCfg × Client) := none
  server : Option (ServerCfg × Server) := none
  log : List Entry := []

/-- What can happen next. -/
inductive WorldAction where
  | startClient (cfg : ClientCfg) (disableAntiReplay : Bool) (seeds : RawSeeds) (random : UInt64)
      (id : UInt32) (remote : IpAddr × UInt16) (ll : SockaddrLl)
  | startServer (cfg : ServerCfg)
  | client (ev : ClientEvent)
  | server (ev : ServerEvent)

/-- A process started by this action has anti-replay on. -/
def WorldAction.KeepsAntiReplay : WorldAction → Prop
  | .startClient _ disableAntiReplay .. => disableAntiReplay = false
  | .startServer cfg => cfg.disableAntiReplay = false
  | .client _ | .server _ => True

instance : (a : WorldAction) → Decidable a.KeepsAntiReplay
  | .startClient _ disableAntiReplay .. => inferInstanceAs (Decidable (disableAntiReplay = false))
  | .startServer cfg => inferInstanceAs (Decidable (cfg.disableAntiReplay = false))
  | .client _ | .server _ => isTrue trivial

namespace World

/-- One step of the world. A handler that aborts ends its process; it does so while parsing a
packet, before it has sent anything. -/
def next (w : World) : WorldAction → Option World
  | .startClient cfg disableAntiReplay seeds random id remote ll =>
    some { w with
      client := some (cfg, .start cfg disableAntiReplay seeds random id remote ll)
      log := w.log ++ record .client cfg.constId (Client.born id) }
  | .startServer cfg => some { w with server := some (cfg, {}) }
  | .client ev => do
    let (cfg, c) ← w.client
    match ev.handle cfg c with
    | .error _ => some { w with client := none }
    | .ok (_, d, out) =>
      if Authentic (sealedPlains w.log) ev.cause out then
        some { w with
          client := some (cfg, d)
          log := w.log ++ record .client cfg.constId out }
      else none
  | .server ev => do
    let (cfg, s) ← w.server
    if ev.Possible s then
      match ev.handle cfg s with
      | .error _ => some { w with server := none }
      | .ok (_, t, out) =>
        if Authentic (sealedPlains w.log) ev.cause out then
          some { w with
            server := some (cfg, t)
            log := w.log ++ record .server cfg.constId out }
        else none
    else none

/-- The const id of the process at a side. -/
def constId (w : World) : Side → UInt32
  | .client => (w.client.map fun p => p.1.constId).getD 0
  | .server => (w.server.map fun p => p.1.constId).getD 0

/-- The sessions of both sides. -/
def ends (w : World) : Side → Ends
  | .client => (w.client.map fun p => p.2.ends).getD fun _ => none
  | .server => (w.server.map fun p => p.2.ends).getD fun _ => none

/-- What holds in every world whose ids were fresh; `P` says that anti-replay is on. -/
structure Inv (P : Prop) (w : World) : Prop extends Kept P w.constId w.ends w.log where
  sound : ∀ cfg s, w.server = some (cfg, s) → s.Sound
  setting : P → ∀ cfg s, w.server = some (cfg, s) → cfg.disableAntiReplay = false

variable {P : Prop} {w : World}

variable {out : List Effect}

/-- What a handler opens, checks and authenticates was sealed, if its completion and the packets
it opened are authentic. -/
theorem heard_of_authentic {pool : List Bytes} {cause : Option Done} (h : Authentic pool cause out)
    (hfrom : ∀ e ∈ out, e.From cause) : ∀ e ∈ out, e.Heard pool := by
  intro e he
  have hf := hfrom e he
  cases e with
  | openBare plain => exact h.2 plain he
  | check key target my opp plain r =>
    obtain ⟨plains, recv, hcause, hm⟩ := hf
    exact h.1 _ hcause plain hm
  | authenticated plain =>
    obtain ⟨key, plains, recv, hcause, hm⟩ := hf
    exact h.1 _ hcause plain hm
  | _ => trivial

/-- A client that starts keeps the invariant. -/
theorem Inv.startClient (h : w.Inv P) {cfg : ClientCfg} {off : Bool} (hoff : P → off = false)
    {seeds : RawSeeds} {random : UInt64} {id : UInt32} {remote : IpAddr × UInt16} {ll : SockaddrLl}
    (fresh : FreshIds (w.log ++ record .client cfg.constId (Client.born id))) :
    Inv P { w with
      client := some (cfg, .start cfg off seeds random id remote ll)
      log := w.log ++ record .client cfg.constId (Client.born id) } := by
  let c := Client.start cfg off seeds random id remote ll
  let k := update w.constId .client cfg.constId
  have hborn : Program.Steps (Step .client (k .client) off) (fun _ => none) (Client.born id)
      c.ends :=
    have happear : Step .client (k .client) off (fun _ => none) [.newId id] c.ends :=
      .appear (e := c.session) rfl rfl
    .cons happear (.single (.silent (by simp [Effect.Silent])))
  have hkept := (h.toKept.stop .client cfg.constId).steps hoff (by rw [update_self]) hborn
    (List.nil_subset _) (by simp [Client.born, Effect.Heard]) fresh
  refine ⟨hkept.cast ?_ ?_ rfl, h.sound, h.setting⟩
  · funext side
    cases side <;> rfl
  · funext side
    cases side <;> rfl

theorem Inv.startServer (h : w.Inv P) {cfg : ServerCfg} (hoff : P → cfg.disableAntiReplay = false) :
    Inv P { w with server := some (cfg, {}) } := by
  refine ⟨(h.toKept.stop .server cfg.constId).cast ?_ ?_ rfl, ?_, ?_⟩
  · funext side
    cases side <;> rfl
  · funext side
    cases side <;> rfl
  · rintro _ _ ⟨⟩
    exact .initial
  · rintro hP _ _ ⟨⟩
    exact hoff hP

/-- A process that died has no sessions. -/
theorem Inv.stopClient (h : w.Inv P) : Inv P { w with client := none } := by
  refine ⟨(h.toKept.stop .client 0).cast ?_ ?_ rfl, h.sound, h.setting⟩
  · funext side
    cases side <;> rfl
  · funext side
    cases side <;> rfl

theorem Inv.stopServer (h : w.Inv P) : Inv P { w with server := none } := by
  refine ⟨(h.toKept.stop .server 0).cast ?_ ?_ rfl, ?_, ?_⟩
  · funext side
    cases side <;> rfl
  · funext side
    cases side <;> rfl
  · rintro _ _ ⟨⟩
  · rintro - _ _ ⟨⟩

/-- An event of the client keeps the invariant. -/
theorem Inv.client (h : w.Inv P) {cfg : ClientCfg} {c d : Client} (hw : w.client = some (cfg, c))
    {ev : ClientEvent} (hok : ev.handle cfg c = .ok ((), d, out))
    (hauth : Authentic (sealedPlains w.log) ev.cause out)
    (fresh : FreshIds (w.log ++ record .client cfg.constId out)) :
    Inv P { w with
      client := some (cfg, d)
      log := w.log ++ record .client cfg.constId out } := by
  have hk : w.constId .client = cfg.constId := by rw [World.constId, hw]; rfl
  have hE : c.ends = w.ends .client := by rw [World.ends, hw]; rfl
  obtain ⟨hsteps, -⟩ := (Client.does_handle ev).ok hok
  have hheard := heard_of_authentic hauth (hsteps.forall_out fun _ _ _ hs => hs.from)
  have hsession : Program.Steps (Step .client (w.constId .client) false) c.ends out d.ends := by
    rw [hk]
    exact hsteps.simulate fun _ _ _ hs => hs.session false
  have hkept := h.toKept.steps (fun _ => rfl) hE hsession (List.Subset.refl _) hheard (hk ▸ fresh)
  refine ⟨hkept.cast ?_ ?_ (by rw [hk]), h.sound, h.setting⟩
  · funext side
    cases side with
    | client => exact hk
    | server => rfl
  · funext side
    cases side <;> rfl

/-- An event of the server keeps the invariant. -/
theorem Inv.server (h : w.Inv P) {cfg : ServerCfg} {s t : Server} (hw : w.server = some (cfg, s))
    {ev : ServerEvent} (hev : ev.Possible s) (hok : ev.handle cfg s = .ok ((), t, out))
    (hauth : Authentic (sealedPlains w.log) ev.cause out)
    (fresh : FreshIds (w.log ++ record .server cfg.constId out)) :
    Inv P { w with
      server := some (cfg, t)
      log := w.log ++ record .server cfg.constId out } := by
  have hk : w.constId .server = cfg.constId := by rw [World.constId, hw]; rfl
  have hE : s.ends = w.ends .server := by rw [World.ends, hw]; rfl
  have hsound := h.sound cfg s hw
  obtain ⟨hsteps, -⟩ := (Server.does_handle hsound hev).ok hok
  have hheard := heard_of_authentic hauth (hsteps.forall_out fun _ _ _ hs => hs.from)
  have hsession : Program.Steps (Step .server (w.constId .server) cfg.disableAntiReplay) s.ends out
      t.ends := by
    rw [hk]
    exact hsteps.simulate fun _ _ _ hs => hs.session
  have hkept := h.toKept.steps (fun hP => h.setting hP cfg s hw) hE hsession (List.Subset.refl _)
    hheard (hk ▸ fresh)
  refine ⟨hkept.cast ?_ ?_ (by rw [hk]), ?_, ?_⟩
  · funext side
    cases side with
    | client => rfl
    | server => exact hk
  · funext side
    cases side <;> rfl
  · rintro _ _ ⟨⟩
    exact hsound.event hev hok
  · rintro hP _ _ ⟨⟩
    exact h.setting hP cfg s hw

/-- What a step of the world is. -/
inductive Next (w : World) : WorldAction → World → Prop where
  | startClient (cfg : ClientCfg) (off : Bool) (seeds : RawSeeds) (random : UInt64) (id : UInt32)
      (remote : IpAddr × UInt16) (ll : SockaddrLl) :
      Next w (.startClient cfg off seeds random id remote ll) { w with
        client := some (cfg, .start cfg off seeds random id remote ll)
        log := w.log ++ record .client cfg.constId (Client.born id) }
  | startServer (cfg : ServerCfg) : Next w (.startServer cfg) { w with server := some (cfg, {}) }
  | stopClient (ev : ClientEvent) : Next w (.client ev) { w with client := none }
  | client {cfg : ClientCfg} {c d : Client} {ev : ClientEvent} {out : List Effect}
      (hw : w.client = some (cfg, c)) (hok : ev.handle cfg c = .ok ((), d, out))
      (hauth : Authentic (sealedPlains w.log) ev.cause out) :
      Next w (.client ev) { w with
        client := some (cfg, d)
        log := w.log ++ record .client cfg.constId out }
  | stopServer (ev : ServerEvent) : Next w (.server ev) { w with server := none }
  | server {cfg : ServerCfg} {s t : Server} {ev : ServerEvent} {out : List Effect}
      (hw : w.server = some (cfg, s)) (hev : ev.Possible s)
      (hok : ev.handle cfg s = .ok ((), t, out))
      (hauth : Authentic (sealedPlains w.log) ev.cause out) :
      Next w (.server ev) { w with
        server := some (cfg, t)
        log := w.log ++ record .server cfg.constId out }

/-- What an action can do. -/
theorem next_cases {a : WorldAction} {v : World} (h : w.next a = some v) : Next w a v := by
  cases a with
  | startClient =>
    cases h
    exact .startClient ..
  | startServer =>
    cases h
    exact .startServer _
  | client ev =>
    obtain ⟨⟨cfg, c⟩, hw, h⟩ := Option.bind_eq_some_iff.mp h
    dsimp only at h
    split at h
    · cases h
      exact .stopClient ev
    · next hok =>
      split at h
      · next hauth =>
        cases h
        exact .client hw hok hauth
      · cases h
  | server ev =>
    obtain ⟨⟨cfg, s⟩, hw, h⟩ := Option.bind_eq_some_iff.mp h
    dsimp only at h
    split at h
    · next hev =>
      split at h
      · cases h
        exact .stopServer ev
      · next hok =>
        split at h
        · next hauth =>
          cases h
          exact .server hw hev hok hauth
        · cases h
    · cases h

/-- Every step keeps the invariant, as long as the ids are fresh. -/
theorem Inv.next {a : WorldAction} {v : World} (hon : P → a.KeepsAntiReplay)
    (h : FreshIds w.log → w.Inv P) (hv : w.next a = some v) (fresh : FreshIds v.log) : v.Inv P := by
  cases next_cases hv with
  | startClient => exact (h fresh.of_append).startClient hon fresh
  | startServer => exact (h fresh).startServer hon
  | stopClient => exact (h fresh).stopClient
  | client hw hok hauth => exact (h fresh.of_append).client hw hok hauth fresh
  | stopServer => exact (h fresh).stopServer
  | server hw hev hok hauth => exact (h fresh.of_append).server hw hev hok hauth fresh

/-- The invariant in every run. -/
theorem inv_of_run {actions : List WorldAction} (hon : ∀ a ∈ actions, P → a.KeepsAntiReplay)
    (run : Transition.run next {} actions = some w) (fresh : FreshIds w.log) : w.Inv P := by
  refine Transition.run_invariant_of (I := fun w => FreshIds w.log → w.Inv P)
    (fun _ _ _ ha hs ht => Inv.next ha hs ht) hon (fun _ => ?_) run fresh
  refine ⟨⟨⟨trivial, ?_⟩, fun _ => ⟨?_, ?_, ?_, .nil⟩⟩, ?_, ?_⟩
  · intro side slot e he
    cases side <;> cases he
  · intro side slot e he
    cases side <;> cases he
  · intro slot e he
    cases he
  · intro side i j e f he
    cases side <;> cases he
  · rintro _ _ ⟨⟩
  · rintro - _ _ ⟨⟩

end World

/-- Both ends agree on a session before they use it. A client is ready with its id and a server's
id only if a server connection became ready, or was recovered, with these ids; and before a server
connection does so, a client had entered `Handshake2` with them and sent them with its const id. -/
theorem handshake_agreement {actions : List WorldAction} {w : World}
    (run : Transition.run World.next {} actions = some w) (fresh : FreshIds w.log) :
    (∀ cfg c, w.client = some (cfg, c) → c.state = .ready →
      Established w.log c.info.oppsiteId c.info.myId) ∧
    (∀ cfg s slot c, w.server = some (cfg, s) → s.conns.get? slot = some c → c.state = .ready →
      Established w.log c.info.myId c.info.oppsiteId) ∧
    ∀ before after k slot my opp,
      w.log = before ++ ⟨.server, k, .ready slot my opp⟩ :: after ∨
        w.log = before ++ ⟨.server, k, .recovered slot my opp⟩ :: after →
      Confirmed before opp my := by
  have h : w.Inv False := World.inv_of_run (fun _ _ => False.elim) run fresh
  refine ⟨fun cfg c hc hr => ?_, fun cfg s slot c hs hc hr => ?_, ?_⟩
  · have hend : w.ends .client 0 = some c.session := by
      rw [World.ends, hc]
      exact c.ends_zero
    have hphase : c.session.phase = .ready := congrArg ClientState.phase hr
    exact (h.good .client 0 _ hend).2.2 hphase
  · have hend : w.ends .server slot = some (.ofConn .ready c.info) := by
      rw [World.ends, hs]
      exact (Server.ends_of hc).trans (ServerConn.session_ready hr)
    exact ((h.good .server slot _ hend).2 rfl).1
  · rintro before after k slot my opp (hlog | hlog)
    · have hfair : Fair before ⟨.server, k, .ready slot my opp⟩ := (hlog ▸ h.fair).at
      exact hfair
    · have hfair : Fair before ⟨.server, k, .recovered slot my opp⟩ := (hlog ▸ h.fair).at
      exact hfair

/-- A client in UDP mode that decrypts by doing nothing. -/
def udpCfg : ClientCfg :=
  { ctx := { rawMode := .udp, isV6 := false, isClient := true }
    constId := 9, sourceIp := some (.v4 #v[9, 0, 0, 1]), sourcePort := some 1000
    decrypt := some }

/-- UDP packet from 10.0.0.2:2000 in which connection 5 answers client 7. -/
def answerPacket : Bytes :=
  [69, 0, 0, 57, 0, 0, 0, 0, 64, 17, 102, 178, 11, 0, 0, 2, 9, 0, 0, 1] ++
  [7, 208, 3, 232, 0, 37, 110, 233] ++ List.replicate 16 0 ++
  [98, 0, 0, 0, 5, 0, 0, 0, 7, 0, 0, 0, 3]

/-- The first heartbeat of connection 5 to client 7. -/
def firstHeartbeat : Bytes := [0, 0, 0, 5, 0, 0, 0, 7, 0, 0, 0, 0, 0, 0, 0, 7, 104, 0]

/-- Both processes start and complete a handshake; the heartbeat that makes the client ready
arrives twice. -/
def firstSession : List WorldAction :=
  [.startServer Server.plainCfg,
    .startClient udpCfg false ⟨1, 2, 3, 4⟩ 70 6 (.v4 #v[11, 0, 0, 2], 2000) {},
    .client (.timer (tick 2000 6)), .server (.raw Server.firstDraws Server.helloPacket {}),
    .client (.raw ⟨2001, tick 2001 10⟩ answerPacket {}),
    .server (.raw Server.firstDraws Server.confirmPacket {}),
    .client (.done ⟨0, 0, fun _ => ⟨2002, 2002, 2002, 2002, tick 2002 20⟩⟩
      (.decrypted ⟨0, 2⟩ [firstHeartbeat, firstHeartbeat] {}))]

/-- The client of the first session is ready, and the server's connection was before it. -/
theorem handshake_agreement_first_session :
    ∃ w, Transition.run World.next {} firstSession = some w ∧ FreshIds w.log ∧
      (∃ cfg c, w.client = some (cfg, c) ∧ c.state = .ready ∧ c.info.myId = 7 ∧
        c.info.oppsiteId = 5) ∧
      Established w.log 5 7 := by
  have hrun : (Transition.run World.next {} firstSession).any (fun w => decide (FreshIds w.log) &&
      w.client.any fun p => decide (p.2.state = .ready ∧ p.2.info.myId = 7 ∧
        p.2.info.oppsiteId = 5)) = true := by decide +kernel
  obtain ⟨w, hw, hcheck⟩ := (Option.any_eq_true _ _).mp hrun
  obtain ⟨hfresh, hclient⟩ := Bool.and_eq_true_iff.mp hcheck
  obtain ⟨⟨cfg, c⟩, hc, hready⟩ := (Option.any_eq_true _ _).mp hclient
  obtain ⟨hstate, hmy, hopp⟩ := of_decide_eq_true hready
  have hest := (handshake_agreement hw (of_decide_eq_true hfresh)).1 cfg c hc hstate
  rw [hmy, hopp] at hest
  exact ⟨w, hw, of_decide_eq_true hfresh, ⟨cfg, c, hc, hstate, hmy, hopp⟩, hest⟩

/-- With anti-replay on, no plaintext is accepted twice in a whole run, and what is accepted was
prepared before, only at the other side, under the same two ids and with the same type and
payload. -/
theorem delivered_at_most_once {actions : List WorldAction} {w : World}
    (run : Transition.run World.next {} actions = some w)
    (enabled : ∀ a ∈ actions, a.KeepsAntiReplay) (fresh : FreshIds w.log) :
    (acceptedPlains w.log).Nodup ∧
    ∀ before after side k key target my opp plain ptype payload,
      w.log = before ++ ⟨side, k, .check key target my opp plain (some (ptype, payload))⟩ :: after →
      (∃ k', ⟨side.other, k', .prepared opp my ptype payload plain⟩ ∈ before) ∧
      ∀ side' k' my' opp' ptype' payload',
        ⟨side', k', .prepared my' opp' ptype' payload' plain⟩ ∈ w.log →
        side' = side.other ∧ my' = opp ∧ opp' = my ∧ ptype' = ptype ∧ payload' = payload := by
  have h : w.Inv True := World.inv_of_run (fun a ha _ => enabled a ha) run fresh
  refine ⟨(h.delivered trivial).once, ?_⟩
  intro before after side k key target my opp plain ptype payload hlog
  have hfair : Fair before ⟨side, k, .check key target my opp plain (some (ptype, payload))⟩ :=
    (hlog ▸ h.fair).at
  obtain ⟨-, k', hprepared⟩ := hfair
  refine ⟨⟨k', hprepared⟩, fun side' c my' opp' ptype' payload' hm => ?_⟩
  have hsub : before ⊆ w.log := hlog ▸ List.subset_append_left _ _
  obtain ⟨a, b, hsplit, hsafer, hmy, -⟩ := h.fair.of_mem (hsub hprepared)
  obtain ⟨a', b', hsplit', hsafer', hmy', -⟩ := h.fair.of_mem hm
  obtain ⟨rfl, rfl, rfl, rfl⟩ := hsafer'.unique hsafer
  refine ⟨fresh.side_eq (newIds_subset ?_ hmy') (newIds_subset ?_ hmy), rfl, rfl, rfl, rfl⟩
  · rw [hsplit']
    exact List.subset_append_left _ _
  · rw [hsplit]
    exact List.subset_append_left _ _

/-- The heartbeat that came twice was accepted once. -/
theorem delivered_at_most_once_first_session :
    ∃ w, Transition.run World.next {} firstSession = some w ∧
      (∀ a ∈ firstSession, a.KeepsAntiReplay) ∧ FreshIds w.log ∧
      acceptedPlains w.log = [firstHeartbeat] ∧ (acceptedPlains w.log).Nodup := by
  have hrun : (Transition.run World.next {} firstSession).any (fun w =>
      decide (FreshIds w.log ∧ acceptedPlains w.log = [firstHeartbeat])) = true := by
    decide +kernel
  obtain ⟨w, hw, hcheck⟩ := (Option.any_eq_true _ _).mp hrun
  obtain ⟨hfresh, hplains⟩ := of_decide_eq_true hcheck
  have henabled : ∀ a ∈ firstSession, a.KeepsAntiReplay := by decide
  exact ⟨w, hw, henabled, hfresh, hplains, (delivered_at_most_once hw henabled hfresh).1⟩

end Udp2raw
