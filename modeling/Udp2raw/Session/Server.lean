import Udp2raw.Server.Runs
import Udp2raw.Session.Protocol

/-!
# Sessions of the server

A server connection is one end of a session while it is in its handshake or
ready. A connection that gave up has none: it waits to be erased, and its ids may
have gone over to another connection. Every step of the server is made of
session steps.
-/

namespace Udp2raw

open Function Program Session

/-- The connection's end of its session. -/
def ServerConn.session (c : ServerConn) : Option End :=
  match c.state with
  | .idle => none
  | .handshake1 => some (.ofConn .waiting c.info)
  | .ready => some (.ofConn .ready c.info)

theorem ServerConn.session_waiting {c : ServerConn} (h : c.state = .handshake1) :
    c.session = some (.ofConn .waiting c.info) := by
  rw [session, h]

theorem ServerConn.session_ready {c : ServerConn} (h : c.state = .ready) :
    c.session = some (.ofConn .ready c.info) := by
  rw [session, h]

theorem ServerConn.session_same {b c : ServerConn} (hs : b.state = c.state)
    (h : Conn.SameConn c.info b.info) : b.session = c.session := by
  unfold session
  rw [hs]
  simp only [End.ofConn_same _ h]

theorem Effect.Quiet.silent {e : Effect} (h : e.Quiet) : e.Silent := by
  cases e <;> first | exact h.elim | trivial

namespace Server

/-- The sessions of a server. -/
def ends (s : Server) : Ends := fun slot => (s.conns.get? slot).bind ServerConn.session

variable {cfg : ServerCfg} {cause : Option Done} {s t : Server}

theorem ends_of {slot : Nat} {c : ServerConn} (hc : s.conns.get? slot = some c) :
    s.ends slot = c.session := by
  rw [ends, hc, Option.bind_some]

/-- Replacing a connection replaces its session. -/
theorem ends_set {slot : Nat} {b c : ServerConn} {e : Option End} (hc : s.conns.get? slot = some c)
    (hconns : t.conns = s.conns.set slot b) (he : b.session = e) :
    t.ends = update s.ends slot e := by
  funext i
  rw [ends, hconns, Slab.get?_set hc, update_apply]
  split
  · exact he
  · rfl

theorem ends_same {slot : Nat} {b c : ServerConn} (hc : s.conns.get? slot = some c)
    (hconns : t.conns = s.conns.set slot b) (he : b.session = c.session) : t.ends = s.ends := by
  rw [ends_set hc hconns he, ← ends_of hc, update_eq_self]

/-- A new connection adds its session. -/
theorem ends_addConn (c : ServerConn) :
    (s.addConn c).1.ends = update s.ends (s.addConn c).2 c.session := by
  funext i
  change ((s.conns.alloc c).1.get? i).bind _ = _
  rw [Slab.get?_alloc, update_apply]
  change _ = if i = (s.conns.alloc c).2 then _ else _
  split <;> rfl

/-- A recovery moves the session. -/
theorem ends_recover {slot ori : Nat} {c oc : ServerConn} (hc : s.conns.get? slot = some c)
    (ho : s.conns.get? ori = some oc) (hne : ori ≠ slot) :
    (s.recover slot ori c oc).ends =
      update (update s.ends ori (oc.takeOver c s.nextGeneration).session) slot none := by
  funext i
  rw [ends, get?_recover hc ho hne, update_apply, update_apply]
  split
  · rfl
  · split <;> rfl

theorem ends_dropConn (slot : Nat) (c : ServerConn) (order : List Nat → List Nat) :
    (s.dropConn slot c order).ends = update s.ends slot none := by
  funext i
  change ((s.conns.release slot).get? i).bind _ = _
  rw [Slab.get?_release, update_apply]
  split <;> rfl

/-- Every step of the server is made of steps of its sessions. -/
theorem Step.session {out : List Effect} (h : Step cfg cause s out t) :
    Steps (Session.Step .server cfg.constId cfg.disableAntiReplay) s.ends out t.ends := by
  have same : ∀ {slot : Nat} {b c : ServerConn} {u : Server} {out : List Effect},
      s.conns.get? slot = some c → u.conns = s.conns.set slot b → b.session = c.session →
      (∀ e ∈ out, e.Silent) →
      Steps (Session.Step .server cfg.constId cfg.disableAntiReplay) s.ends out u.ends := by
    intro slot b c u out hc hconns hb hout
    rw [ends_same hc hconns hb]
    exact .single (.silent hout)
  cases h with
  | note quiet => exact .single (.silent fun e he => (quiet e he).silent)
  | book => exact .single (.silent (by simp))
  | info hc hsame => exact same hc rfl (ServerConn.session_same rfl hsame) (by simp)
  | @create c _ state _ _ _ antiReplay =>
    have hnew : Session.Step .server cfg.constId cfg.disableAntiReplay s.ends
        [.newId c.info.myId] (s.addConn c).1.ends := by
      rw [ends_addConn, ServerConn.session_waiting state]
      exact .appear (e := .ofConn .waiting c.info) rfl (by rw [End.ofConn, antiReplay]; rfl)
    exact .cons hnew (.single (.silent (by simp [Effect.Silent])))
  | @reply slot c raw plain id k iv padding hc state initial =>
    rw [ends_same (t := s.setConn slot (c.withInfo { c.info with raw := raw })) hc rfl
      (ServerConn.session_same rfl (.of_eq rfl rfl rfl rfl))]
    exact .single (.answer rfl ((ends_of hc).trans (ServerConn.session_waiting state)) initial
      (isHandshake_build _ _ _ _ _))
  | @claim slot c raw plain id k hc state named =>
    rw [ends_set (t := s.setConn slot (c.withInfo { c.info with oppsiteId := id, raw := raw }))
      hc rfl (ServerConn.session_waiting state)]
    exact .single
      (.claim plain id rfl ((ends_of hc).trans (ServerConn.session_waiting state)) rfl)
  | @refuse slot c k hc state =>
    rw [ends_set (t := s.setConn slot (c.giveUp k)) (e := none) hc rfl rfl]
    exact .single (.forget slot)
  | @goReady slot c plain k now hc state named =>
    rw [ends_set (t := s.goReady slot c k now) hc rfl (ServerConn.session_ready rfl)]
    exact .single (.goReady rfl ((ends_of hc).trans (ServerConn.session_waiting state)) rfl named)
  | @recover slot ori c oc plain k hc ho state ready ne named =>
    have hstep : Session.Step .server cfg.constId cfg.disableAntiReplay s.ends
        [.openBare plain, .recovered ori c.info.myId c.info.oppsiteId]
        (s.recover slot ori c oc).ends := by
      have hready : (oc.takeOver c s.nextGeneration).state = .ready := ready
      rw [ends_recover hc ho ne, ServerConn.session_ready hready]
      exact .recover rfl ((ends_of hc).trans (ServerConn.session_waiting state))
        ((ends_of ho).trans (ServerConn.session_ready ready)) rfl ne named
    exact .cons hstep (.single (.silent (by simp [Effect.Silent])))
  | @prepare slot c ptype payload hc state htype =>
    rw [ends_set (t := s.setConn slot (c.withInfo (Conn.prepareSafer c.info ptype payload).2))
      hc rfl (ServerConn.session_ready state)]
    exact steps_handIn ((ends_of hc).trans (ServerConn.session_ready state)) _ htype _
  | receive hc => exact same hc rfl rfl (by simp [Effect.Silent])
  | transmit hc => exact same hc rfl rfl (by simp [Effect.Silent])
  | @check key c plain now r info _ _ hc state _ result =>
    obtain ⟨hchecks, hsession⟩ := checks_of_accept .ready result
    have hready : (c.withInfo info).state = .ready := state
    rw [ends_set (t := s.setConn key.slot (c.withInfo info)) hc rfl
      ((ServerConn.session_ready hready).trans (congrArg some hsession))]
    exact .single (.check ((ends_of hc).trans (ServerConn.session_ready state)) (fun _ => rfl)
      hchecks)
  | afterRecv hc => exact same hc rfl rfl (by simp [Effect.Silent])
  | openSock now hc => exact same hc rfl rfl (by simp)
  | openSockUnregistered => exact .single (.silent (by simp))
  | touchConv hc => exact same hc rfl rfl (by simp)
  | expireConvs now hc => exact same hc rfl rfl (by simp)
  | drop order hc =>
    rw [ends_dropConn]
    exact .single (.forget _)

end Server

end Udp2raw
