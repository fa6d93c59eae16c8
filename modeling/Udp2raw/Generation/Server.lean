import Udp2raw.Generation.Ledger
import Udp2raw.Server.Safety

/-!
# Incarnations of the server's connections

A server connection is one incarnation from its creation to its erasure or to
the recovery that moves it to another address. Every step of the server is made
of steps of its ledger.
-/

namespace Udp2raw

/-- The incarnation of the connection in a slot. -/
def ServerConn.incarnation (c : ServerConn) (slot : Nat) : Incarnation :=
  { key := c.key slot
    ready := decide (c.state = .ready)
    myId := c.info.myId
    oppsiteId := c.info.oppsiteId
    nextSeq := c.info.antiReplay.nextSendSeq }

theorem Effect.Quiet.keyless {e : Effect} (h : e.Quiet) : e.Keyless := by
  cases e <;> first | exact h.elim | trivial

namespace Server

open Program

/-- The live incarnations of a server. -/
def ledger (s : Server) : Ledger :=
  { conns := fun slot => (s.conns.get? slot).map fun c => c.incarnation slot
    nextGeneration := s.nextGeneration }

variable {cfg : ServerCfg} {cause : Option Done} {s t : Server}

variable {slot : Nat} {c : ServerConn}

theorem ledger_conns (hc : s.conns.get? slot = some c) :
    s.ledger.conns slot = some (c.incarnation slot) := by
  simp [ledger, hc]

/-- Replacing a connection replaces its entry. -/
theorem ledger_set {b : ServerConn} (hc : s.conns.get? slot = some c)
    (hconns : t.conns = s.conns.set slot b) (hg : t.nextGeneration = s.nextGeneration) :
    t.ledger = s.ledger.set slot (some (b.incarnation slot)) := by
  have hfun : t.ledger.conns = (s.ledger.set slot (some (b.incarnation slot))).conns := by
    funext i
    rw [Ledger.set_conns]
    simp only [ledger, hconns, Slab.get?_set hc]
    split
    · next hi => subst hi; rfl
    · rfl
  exact Ledger.ext hfun hg

/-- A connection replaced by one with the same incarnation. -/
theorem ledger_same {b : ServerConn} (hc : s.conns.get? slot = some c)
    (hconns : t.conns = s.conns.set slot b) (hg : t.nextGeneration = s.nextGeneration)
    (hb : b.incarnation slot = c.incarnation slot) : t.ledger = s.ledger := by
  rw [ledger_set hc hconns hg, hb]
  have hfun : (s.ledger.set slot (some (c.incarnation slot))).conns = s.ledger.conns := by
    funext i
    rw [Ledger.set_conns]
    split
    · next hi => rw [hi, ledger_conns hc]
    · rfl
  exact Ledger.ext hfun rfl

/-- A new connection is booked. -/
theorem ledger_addConn (c : ServerConn) :
    (s.addConn c).1.ledger =
      { s.ledger.set (s.addConn c).2 (some (c.incarnation (s.addConn c).2)) with
        nextGeneration := s.nextGeneration + 1 } := by
  refine Ledger.ext (funext fun i => ?_) rfl
  rw [Ledger.set_conns]
  change ((s.conns.alloc c).1.get? i).map _ = _
  rw [Slab.get?_alloc]
  change _ = if i = (s.conns.alloc c).2 then _ else _
  split
  · next hi => subst hi; rfl
  · rfl

/-- A recovery books both slots. -/
theorem ledger_recover {ori : Nat} {oc : ServerConn} (hc : s.conns.get? slot = some c)
    (ho : s.conns.get? ori = some oc) (hne : ori ≠ slot) :
    (s.recover slot ori c oc).ledger =
      ({ s.ledger.set ori (some ((oc.takeOver c s.nextGeneration).incarnation ori)) with
        nextGeneration := s.nextGeneration + 1 } : Ledger).set slot
          (some ((c.giveUp 0).incarnation slot)) := by
  refine Ledger.ext (funext fun i => ?_) rfl
  change ((s.recover slot ori c oc).conns.get? i).map _ = _
  rw [Ledger.set_conns, get?_recover hc ho hne]
  change _ = if i = slot then _ else (s.ledger.set ori _).conns i
  rw [Ledger.set_conns]
  split
  · next hi => subst hi; rfl
  · split
    · next hi => subst hi; rfl
    · rfl

/-- A dropped connection is struck out. -/
theorem ledger_dropConn (slot : Nat) (c : ServerConn) (order : List Nat → List Nat) :
    (s.dropConn slot c order).ledger = s.ledger.set slot none := by
  refine Ledger.ext (funext fun i => ?_) rfl
  rw [Ledger.set_conns]
  change ((s.conns.release slot).get? i).map _ = _
  rw [Slab.get?_release]
  split <;> rfl

/-- Neither headers nor times nor the anti-replay window matter to an incarnation. -/
theorem incarnation_withInfo {info : ConnInfo} (h : Conn.SameSession c.info info) (slot : Nat) :
    (c.withInfo info).incarnation slot = c.incarnation slot := by
  change Incarnation.mk _ _ info.myId info.oppsiteId info.antiReplay.nextSendSeq = _
  rw [h.myId, h.oppsiteId, h.nextSendSeq]
  rfl

/-- Every step of the server is made of steps of its ledger. -/
theorem Step.ledger {out : List Effect} (h : Step cfg cause s out t) :
    Steps Ledger.Step s.ledger out t.ledger := by
  have same : ∀ {slot : Nat} {b c : ServerConn} {u : Server} {out : List Effect},
      s.conns.get? slot = some c → u.conns = s.conns.set slot b →
      u.nextGeneration = s.nextGeneration → b.incarnation slot = c.incarnation slot →
      Ledger.Step s.ledger out s.ledger → Steps Ledger.Step s.ledger out u.ledger := by
    intro slot b c u out hc hconns hg hb hstep
    rw [ledger_same hc hconns hg hb]
    exact .single hstep
  have other : ∀ {slot : Nat} {b c : ServerConn} {u : Server} {out : List Effect},
      s.conns.get? slot = some c → u.conns = s.conns.set slot b →
      u.nextGeneration = s.nextGeneration →
      Ledger.Step s.ledger out (s.ledger.set slot (some (b.incarnation slot))) →
      Steps Ledger.Step s.ledger out u.ledger := by
    intro slot b c u out hc hconns hg hstep
    rw [ledger_set hc hconns hg]
    exact .single hstep
  have hkey : ∀ {key : JobKey} {c : ServerConn}, c.generation = key.generation →
      key = (c.incarnation key.slot).key := by
    rintro ⟨slot, g⟩ c rfl
    rfl
  have silent : Ledger.Step s.ledger [] s.ledger := .quiet (by simp)
  cases h with
  | note quiet => exact .single (.quiet fun e he => (quiet e he).keyless)
  | book => exact .single silent
  | info hc hsame =>
    exact same hc rfl rfl (incarnation_withInfo hsame.toSameSession _) silent
  | @create c =>
    rw [ledger_addConn]
    exact .single (.begin (a := [.newId c.info.myId]) (w := c.incarnation _)
      (by simp [Effect.Keyless]) (by simp) ‹_›)
  | reply hc => exact same hc rfl rfl rfl (.quiet (by simp [Effect.Keyless]))
  | claim hc state =>
    exact other hc rfl rfl (.change (by simp [Effect.Keyless]) (ledger_conns hc) rfl
      (by simp [ServerConn.incarnation, state]))
  | refuse k hc state =>
    exact other hc rfl rfl (.change (by simp) (ledger_conns hc) rfl
      (by simp [ServerConn.incarnation, state]))
  | goReady now hc state =>
    exact other hc rfl rfl (.change (by simp [Effect.Keyless]) (ledger_conns hc) rfl
      (by simp [ServerConn.incarnation, state]))
  | @prepare slot c ptype payload hc state =>
    rw [ledger_set (t := s.setConn slot (c.withInfo (Conn.prepareSafer c.info ptype payload).2))
      hc rfl rfl]
    exact Ledger.steps_handIn (ledger_conns hc) (by simp [ServerConn.incarnation, state])
      (Conn.parseSaferIds_prepareSafer _ _ _) _ _ _
  | receive hc => exact same hc rfl rfl rfl (.receive _ _ (ledger_conns hc))
  | openSock now hc => exact same hc rfl rfl rfl silent
  | openSockUnregistered => exact .single silent
  | touchConv hc => exact same hc rfl rfl rfl silent
  | expireConvs now hc => exact same hc rfl rfl rfl silent
  | drop order hc =>
    rw [ledger_dropConn]
    exact .single (.drop _ (by simp))
  | @recover slot ori c oc plain k hc ho state _ ne =>
    rw [ledger_recover hc ho ne]
    have begins : Ledger.Step s.ledger
        [.openBare plain, .recovered ori c.info.myId c.info.oppsiteId,
          .incarnation ⟨ori, s.nextGeneration⟩] _ :=
      .begin (a := [.openBare plain, .recovered ori c.info.myId c.info.oppsiteId])
        (w := (oc.takeOver c s.nextGeneration).incarnation ori)
        (by simp [Effect.Keyless]) (by simp) rfl
    have hv : (s.ledger.set ori (some ((oc.takeOver c s.nextGeneration).incarnation ori))).conns
        slot = some (c.incarnation slot) := by
      rw [Ledger.set_conns, if_neg (Ne.symm ne), ledger_conns hc]
    refine Steps.trans (.single begins) (.single (.change (by simp) hv rfl ?_))
    simp [ServerConn.incarnation, state]
  | transmit hc _ current => exact same hc rfl rfl rfl (.apply (ledger_conns hc) (hkey current))
  | @check key c plain now r info _ _ hc _ current result =>
    obtain ⟨r, after, hr, hsame, -⟩ := Conn.acceptSaferOffset_cases c.info plain cfg.hbMode now
    rw [hr] at result
    cases result
    exact same hc rfl rfl (incarnation_withInfo hsame _)
      (.apply (ledger_conns hc) ⟨hkey current, rfl⟩)
  | afterRecv hc _ current =>
    exact same hc rfl rfl rfl (.apply (ledger_conns hc) ⟨hkey current, rfl⟩)

/-- Effects have the cause of their step. -/
theorem Step.from {out : List Effect} (h : Step cfg cause s out t) : ∀ e ∈ out, e.From cause := by
  cases h with
  | note quiet =>
    intro e he
    have := quiet e he
    cases e <;> first | exact this.elim | trivial
  | transmit _ _ _ because => simpa [Effect.From] using because
  | check _ _ _ _ because mem => simpa [Effect.From] using ⟨_, ⟨_, because⟩, mem⟩
  | afterRecv _ _ _ because => simpa [Effect.From] using ⟨_, _, because⟩
  | _ => simp [Effect.From, handIn]

end Server

end Udp2raw
