import Udp2raw.Client.Runs
import Udp2raw.Generation.Ledger

/-!
# Incarnations of the client's connection

The client has one connection, in slot 0. An incarnation ends at `go_idle` and at
the selection of an endpoint. Steps that apply completions to their own
incarnation are steps of the ledger.
-/

namespace Udp2raw

theorem Effect.Inert.keyless {e : Effect} (h : e.Inert) : e.Keyless := by
  cases e <;> first | exact h.elim | trivial

namespace Client

open Program Conn

/-- The incarnation of the client's connection. -/
def incarnation (c : Client) : Incarnation :=
  { key := c.key
    ready := decide (c.state = .ready)
    myId := c.info.myId
    oppsiteId := c.info.oppsiteId
    nextSeq := c.info.antiReplay.nextSendSeq }

/-- The live incarnations of a client. -/
def ledger (c : Client) : Ledger :=
  { conns := fun slot => if slot = 0 then some c.incarnation else none
    nextGeneration := c.generation + 1 }

variable {cfg : ClientCfg} {cause : Option Done} {c d : Client}

/-- Changing the connection changes the entry of slot 0. -/
theorem ledger_set (hg : d.generation = c.generation) :
    d.ledger = c.ledger.set 0 (some d.incarnation) := by
  refine Ledger.ext (funext fun i => ?_) ?_
  · rw [Ledger.set_conns]
    simp only [ledger]
    split <;> rfl
  · change d.generation + 1 = c.generation + 1
    rw [hg]

/-- A new generation is booked. -/
theorem ledger_next (hg : d.generation = c.generation + 1) :
    d.ledger = { c.ledger.set 0 (some d.incarnation) with
      nextGeneration := c.ledger.nextGeneration + 1 } := by
  refine Ledger.ext (funext fun i => ?_) ?_
  · change _ = (c.ledger.set 0 (some d.incarnation)).conns i
    rw [Ledger.set_conns]
    simp only [ledger]
    split <;> rfl
  · change d.generation + 1 = c.generation + 1 + 1
    rw [hg]

theorem incarnation_same (hk : d.generation = c.generation) (hs : d.state = c.state)
    (h : SameSession c.info d.info) : d.incarnation = c.incarnation := by
  unfold incarnation Client.key
  simp only [hk, hs, h.myId, h.oppsiteId, h.nextSendSeq]

theorem ledger_same (hk : d.generation = c.generation) (hs : d.state = c.state)
    (h : SameSession c.info d.info) : d.ledger = c.ledger := by
  unfold ledger
  rw [incarnation_same hk hs h, hk]

theorem selectEndpoint_generation (id : UInt32) (switchTo : Option (IpAddr × UInt16)) :
    (c.selectEndpoint cfg id switchTo).generation = c.generation + 1 := by
  cases switchTo <;> rfl

/-- Every step of a client that applies completions to their own incarnation is made of steps
of its ledger. -/
theorem Step.ledger {out : List Effect}
    (h : Step cfg (fun key c => key.generation = c.generation) cause c out d)
    (hslot : ∀ done, cause = some done → done.key.slot = 0) :
    Steps Ledger.Step c.ledger out d.ledger := by
  have live : c.ledger.conns 0 = some c.incarnation := rfl
  have unready : c.state ≠ .ready → c.incarnation.ready = false := fun hs => decide_eq_false hs
  have hkey : ∀ {key : JobKey}, key.slot = 0 → key.generation = c.generation →
      key = c.incarnation.key := by
    rintro ⟨slot, g⟩ rfl rfl
    rfl
  cases h with
  | quiet same inert =>
    rw [ledger_same same.generation same.state same.toSameSession]
    exact .single (.quiet fun e he => (inert e he).keyless)
  | toIdle reason id =>
    rw [ledger_next (d := c.toIdle reason id) rfl]
    exact .single (.begin (a := [.endpoint .onSessionEnded, .newId id])
      (w := (c.toIdle reason id).incarnation) (by simp [Effect.Keyless]) (by simp) rfl)
  | select id switchTo now state =>
    have hgen : (c.selectEndpoint cfg id switchTo).generation = c.generation + 1 :=
      selectEndpoint_generation id switchTo
    rw [ledger_next hgen]
    exact .single (.begin (a := [.newId id])
      (w := (c.selectEndpoint cfg id switchTo).incarnation)
      (by simp [Effect.Keyless]) (by simp [Effect.Keyless]) hgen)
  | advance same early next generation inert =>
    rw [ledger_set generation]
    exact .single (.change (fun e he => (inert e he).keyless) live
      (congrArg (JobKey.mk 0) generation) (unready early.2))
  | hello same inert state =>
    rw [ledger_same same.generation same.state same.toSameSession]
    refine .single (.quiet fun e he => ?_)
    rcases List.mem_append.mp he with he | he
    · exact (inert e he).keyless
    · rw [List.mem_singleton.mp he]
      trivial
  | meet state named same next generation =>
    rw [ledger_set generation]
    exact .single (.change (by simp [Effect.Keyless]) live (congrArg (JobKey.mk 0) generation)
      (unready (by simp [state])))
  | confirm same state =>
    rw [ledger_same same.generation same.state same.toSameSession]
    exact .single (.quiet (by simp [Effect.Keyless]))
  | authenticate state _ _ same next generation =>
    rw [ledger_set generation]
    exact .single (.change (by simp [Effect.Keyless]) live (congrArg (JobKey.mk 0) generation)
      (unready (by simp [state])))
  | @prepare ptype payload info state _ same =>
    have hinfo : (c.withInfo info).incarnation =
        { c.incarnation with nextSeq := c.incarnation.nextSeq + 1 } :=
      incarnation_same (c := c.withInfo (prepareSafer c.info ptype payload).2) rfl rfl
        same.toSameSession
    rw [ledger_set (c := c) (d := c.withInfo info) rfl, hinfo]
    exact Ledger.steps_handIn live (decide_eq_true state) (parseSaferIds_prepareSafer _ _ _) _ _ _
  | receive wire recv state => exact .single (.receive wire recv live)
  | transmit wire raw state current because =>
    rw [ledger_same (d := c.withRaw raw) rfl rfl ⟨rfl, rfl, rfl, rfl⟩]
    exact .single (.apply live (hkey (hslot _ because) current))
  | @check key plain now r info _ _ guard result because =>
    obtain ⟨r, after, hr, hsame, -⟩ := acceptSaferOffset_cases c.info plain cfg.hbMode now
    rw [hr] at result
    cases result
    rw [ledger_same (c := c) (d := c.withInfo info) rfl rfl hsame]
    exact .single (.apply live ⟨hkey (hslot _ because) guard, rfl⟩)
  | afterRecv raw guard because =>
    rw [ledger_same (d := c.withRaw raw) rfl rfl ⟨rfl, rfl, rfl, rfl⟩]
    exact .single (.apply live ⟨hkey (hslot _ because) guard, rfl⟩)

/-- All incarnations of the client are in slot 0. -/
theorem Step.slot {G : JobKey → Client → Prop} {out : List Effect} (h : Step cfg G cause c out d) :
    ∀ e ∈ out, ∀ key, e = .incarnation key → key.slot = 0 := by
  cases h with
  | quiet _ inert | advance _ _ _ _ inert =>
    rintro e he key rfl
    exact (inert _ he).elim
  | hello _ inert =>
    rintro e he key rfl
    rcases List.mem_append.mp he with he | he
    · exact (inert _ he).elim
    · cases List.mem_singleton.mp he
  | _ => simp [Client.key, handIn]

/-- Effects have the cause of their step. -/
theorem Step.from {G : JobKey → Client → Prop} {out : List Effect} (h : Step cfg G cause c out d) :
    ∀ e ∈ out, e.From cause := by
  have inertFrom : ∀ {e : Effect}, e.Inert → e.From cause := by
    intro e he
    cases e <;> first | exact he.elim | trivial
  cases h with
  | quiet _ inert | advance _ _ _ _ inert => exact fun e he => inertFrom (inert e he)
  | hello _ inert =>
    intro e he
    rcases List.mem_append.mp he with he | he
    · exact inertFrom (inert e he)
    · rw [List.mem_singleton.mp he]
      trivial
  | authenticate _ _ _ _ _ _ because mem => simpa [Effect.From] using ⟨_, _, ⟨_, because⟩, mem⟩
  | transmit _ _ _ _ because => simpa [Effect.From] using because
  | check _ _ because mem => simpa [Effect.From] using ⟨_, ⟨_, because⟩, mem⟩
  | afterRecv _ _ because => simpa [Effect.From] using ⟨_, _, because⟩
  | _ => simp [Effect.From, handIn]

end Client

end Udp2raw
