import Udp2raw.Client.Runs
import Udp2raw.Session.Protocol

/-!
# Sessions of the client

The client has one session at a time, in slot 0. Every step of the client is
made of session steps, whatever is known of the completions it applies.
-/

namespace Udp2raw

open Function Program Session

/-- How far a state of the client has come in the handshake. -/
def ClientState.phase : ClientState → Phase
  | .handshake2 => .met
  | .ready => .ready
  | .idle | .tcpHandshake | .tcpHandshakeDummy | .handshake1 => .waiting

theorem ClientState.Early.phase {state : ClientState} (h : state.Early) :
    state.phase = .waiting := by
  cases state <;> first | rfl | exact absurd rfl h.1 | exact absurd rfl h.2

theorem Effect.Inert.silent {e : Effect} (h : e.Inert) : e.Silent := by
  cases e <;> first | exact h.elim | trivial

namespace Client

/-- The client's end of its session. -/
def session (c : Client) : End := .ofConn c.state.phase c.info

/-- The sessions of a client. -/
def ends (c : Client) : Ends := update (fun _ => none) 0 (some c.session)

variable {cfg : ClientCfg} {G : JobKey → Client → Prop} {cause : Option Done} {c d : Client}

theorem ends_zero (c : Client) : c.ends 0 = some c.session := update_self _ _ _

/-- A client differs from another in the session of slot 0. -/
theorem ends_eq (c : Client) {s : End} (h : d.session = s) : d.ends = update c.ends 0 (some s) := by
  unfold ends
  rw [h, update_idem]

theorem ends_same (hs : d.state.phase = c.state.phase) (h : Conn.SameConn c.info d.info) :
    d.ends = c.ends := by
  unfold ends session
  rw [hs, End.ofConn_same _ h]

/-- Every step of the client is made of steps of its session. -/
theorem Step.session {out : List Effect} (h : Step cfg G cause c out d) (off : Bool) :
    Steps (Session.Step .client cfg.constId off) c.ends out d.ends := by
  have live := c.ends_zero
  cases h with
  | quiet same inert =>
    rw [ends_same (congrArg _ same.state) same.toSameConn]
    exact .single (.silent fun e he => (inert e he).silent)
  | toIdle reason id =>
    have hnew : Session.Step .client cfg.constId off c.ends [.newId id]
        (c.toIdle reason id).ends := by
      rw [ends_eq c (d := c.toIdle reason id) rfl]
      exact .renew (f := (c.toIdle reason id).session) live rfl rfl
    have hend : Session.Step .client cfg.constId off c.ends [.endpoint .onSessionEnded] c.ends :=
      .silent (by simp [Effect.Silent])
    exact .cons hend (.cons hnew (.single (.silent (by simp [Effect.Silent]))))
  | select id switchTo now state =>
    let f : End := { phase := .waiting, myId := id, oppsiteId := c.info.oppsiteId
                     antiReplay := c.info.antiReplay.reInit }
    have hphase : (c.selectEndpoint cfg id switchTo).session = f := by
      cases switchTo <;> simp [selectEndpoint, Client.session, state, ClientState.phase,
        End.ofConn, withRaw, f]
    have hnew : Session.Step .client cfg.constId off c.ends [.newId id]
        (c.selectEndpoint cfg id switchTo).ends := by
      rw [ends_eq c hphase]
      exact .renew (f := f) live rfl rfl
    exact .cons hnew (.single (.silent (by simp [Effect.Silent])))
  | advance same early next _ inert =>
    rw [ends_same (next.phase.trans early.phase.symm) same]
    exact .single (.silent fun e he => (inert e he).silent)
  | hello same inert state =>
    rw [ends_same (congrArg _ same.state) same.toSameConn]
    exact Steps.trans (.single (.silent fun e he => (inert e he).silent))
      (.single (.hello rfl live (isHandshake_build _ _ _ _ _)))
  | @meet _ plain id k state named same next =>
    have hsession : d.session = { c.session with phase := .met, oppsiteId := id } := by
      unfold Client.session
      rw [next, End.ofConn_same _ same]
      rfl
    rw [ends_eq c hsession]
    exact .single (.meet rfl live named)
  | confirm same state =>
    rw [ends_same (congrArg _ same.state) same.toSameConn]
    have hmet : c.session.phase = .met := congrArg ClientState.phase state
    exact .single (.confirm rfl live hmet (isHandshake_build _ _ _ _ _))
  | @authenticate _ plain _ state addressed body same next =>
    have hmet : c.session.phase = .met := congrArg ClientState.phase state
    have hsession : d.session = { c.session with phase := .ready } := by
      unfold Client.session
      rw [next, End.ofConn_same _ same]
      rfl
    have hauth : Session.Step .client cfg.constId off c.ends [.authenticated plain] d.ends := by
      rw [ends_eq c hsession]
      exact .authenticate rfl live hmet addressed body
    exact .cons hauth (.single (.silent (by simp [Effect.Silent])))
  | @prepare ptype payload info state htype same =>
    have hready : c.session = .ofConn .ready c.info := by rw [Client.session, state]; rfl
    have hsession : (c.withInfo info).session =
        .ofConn .ready (Conn.prepareSafer c.info ptype payload).2 := by
      rw [← End.ofConn_same .ready same]
      exact congrArg (End.ofConn · info) (congrArg ClientState.phase state)
    rw [ends_eq c hsession]
    exact steps_handIn (hready ▸ live) _ htype _
  | receive => exact .single (.silent (by simp [Effect.Silent]))
  | transmit wire raw =>
    rw [ends_same (c := c) (d := c.withRaw raw) rfl (.of_eq rfl rfl rfl rfl)]
    exact .single (.silent (by simp [Effect.Silent]))
  | @check key plain now r info plains recv guard result =>
    obtain ⟨hchecks, hsession⟩ := checks_of_accept c.state.phase result
    rw [ends_eq c (d := c.withInfo info) hsession]
    refine .single (.check live (fun h => ?_) hchecks)
    cases h
  | afterRecv raw =>
    rw [ends_same (c := c) (d := c.withRaw raw) rfl (.of_eq rfl rfl rfl rfl)]
    exact .single (.silent (by simp [Effect.Silent]))

end Client

end Udp2raw
