import Udp2raw.Endpoint.Candidates
import Udp2raw.Endpoint.Runs

/-!
# Where addresses come from

The controller holds addresses in its current endpoint, the committed one, the
candidates and a probation. A call changes them in few ways: a DNS answer replaces
the candidates, the endpoint moves to an address the controller holds, the current
address is committed, a probation of it begins. Each of these puts the candidates
in order again. What these few changes preserve holds after every run.
-/

namespace Udp2raw

namespace Controller

variable {c c₀ c₁ c' : Controller} {nowMs wallNow : Nat} {cur target : Ipv4Addr}

/-- The same addresses in the same places; a probation may end. -/
structure SamePlaces (c c' : Controller) : Prop where
  spec : c'.spec = c.spec
  opts : c'.opts = c.opts
  current : c'.current = c.current
  committed : c'.committedGood = c.committedGood
  candidates : c'.candidates = c.candidates
  probation : ∀ p', c'.probation = some p' → ∃ p, c.probation = some p ∧
    p'.candidate = p.candidate ∧ p'.rollback = p.rollback

theorem SamePlaces.of_eq (hs : c'.spec = c.spec) (ho : c'.opts = c.opts)
    (hc : c'.current = c.current) (hg : c'.committedGood = c.committedGood)
    (hl : c'.candidates = c.candidates) (hp : c'.probation = c.probation ∨ c'.probation = none) :
    SamePlaces c c' where
  spec := hs
  opts := ho
  current := hc
  committed := hg
  candidates := hl
  probation p' h := by
    obtain hsame | hnone := hp
    · exact ⟨p', hsame ▸ h, rfl, rfl⟩
    · rw [hnone] at h
      cases h

theorem SamePlaces.refl (c : Controller) : SamePlaces c c := .of_eq rfl rfl rfl rfl rfl (.inl rfl)

theorem SamePlaces.trans (h : SamePlaces c₀ c) (h' : SamePlaces c c') : SamePlaces c₀ c' where
  spec := h'.spec.trans h.spec
  opts := h'.opts.trans h.opts
  current := h'.current.trans h.current
  committed := h'.committed.trans h.committed
  candidates := h'.candidates.trans h.candidates
  probation p' hp' := by
    obtain ⟨p, hp, hcand, hroll⟩ := h'.probation p' hp'
    obtain ⟨q, hq, hcand', hroll'⟩ := h.probation p hp
    exact ⟨q, hq, hcand.trans hcand', hroll.trans hroll'⟩

theorem Keeps.samePlaces (h : Keeps c c') : SamePlaces c c' :=
  .of_eq h.spec h.opts h.current h.committed h.candidates h.probation

theorem SamePlaces.currentV4 (h : SamePlaces c c') : c'.currentV4 = c.currentV4 :=
  currentV4_congr h.current

/-- Ordering the candidates at the same places gives the same places. -/
theorem SamePlaces.order (h : SamePlaces c c') : SamePlaces c.orderCandidates c'.orderCandidates :=
  ⟨h.spec, h.opts, h.current, h.committed,
    orderCandidates_congr h.currentV4 h.committed h.candidates, h.probation⟩

/-- One change of the places. -/
inductive Relocates (c c' : Controller) : Prop where
  | same (h : SamePlaces c c')
  | answered (addrs : List Ipv4Addr) (husable : c.usable addrs ≠ [])
      (h : SamePlaces { c with
        candidates := (sortDedup (c.usable addrs)).take maxEndpointCandidates }.orderCandidates c')
  | retargeted (target : Ipv4Addr) (hnames : c.Names target)
      (h : SamePlaces { c with current := (.v4 target, c.spec.port) }.orderCandidates c')
  | recommitted (cur : Ipv4Addr) (hcur : c.currentV4 = some cur)
      (h : SamePlaces { c with committedGood := some cur }.orderCandidates c')
  | begun (p : Probation) (hcur : c.currentV4 = some p.candidate)
      (hgood : c.committedGood = some p.rollback)
      (h : SamePlaces { c with probation := some p }.orderCandidates c')

/-- Some changes, one after the other. -/
def Evolves : Controller → Controller → Prop := Relation.ReflTransGen Relocates

theorem Evolves.refl (c : Controller) : Evolves c c := Relation.ReflTransGen.refl

theorem Evolves.trans (h : Evolves c₀ c) (h' : Evolves c c') : Evolves c₀ c' :=
  Relation.ReflTransGen.trans h h'

theorem Relocates.evolves (h : Relocates c c') : Evolves c c' := Relation.ReflTransGen.single h

theorem SamePlaces.evolves (h : SamePlaces c c') : Evolves c c' := Relocates.evolves (.same h)

/-- What one change preserves, every change does. -/
theorem Evolves.invariant {I : Controller → Prop} (hstep : ∀ c c', Relocates c c' → I c → I c')
    (h : Evolves c c') (hc : I c) : I c' := by
  induction h with
  | refl => exact hc
  | tail _ hlast ih => exact hstep _ _ hlast ih

/-! ## The steps of a cycle -/

/-- A query leaves the places alone or brings new candidates. -/
theorem query_places (c : Controller) (nowMs : Nat) (answer : Option DnsAnswer) (random : UInt32) :
    SamePlaces c (c.query nowMs answer random).2 ∨ ∃ addrs, c.usable addrs ≠ [] ∧
      SamePlaces { c with
        candidates := (sortDedup (c.usable addrs)).take maxEndpointCandidates }.orderCandidates
        (c.query nowMs answer random).2 := by
  unfold query
  split_ifs
  · exact .inl (.refl c)
  · cases answer with
    | none => exact .inl (.of_eq rfl rfl rfl rfl rfl (.inl rfl))
    | some ans =>
      dsimp only
      split_ifs with husable
      · exact .inl (.of_eq rfl rfl rfl rfl rfl (.inl rfl))
      · refine .inr ⟨ans.addrs, husable, SamePlaces.order ?_⟩
        exact .of_eq rfl rfl rfl rfl rfl (.inl rfl)

theorem evolves_query (c : Controller) (nowMs : Nat) (answer : Option DnsAnswer) (random : UInt32) :
    Evolves c (c.query nowMs answer random).2 := by
  obtain h | ⟨addrs, husable, h⟩ := query_places c nowMs answer random
  · exact h.evolves
  · exact Relocates.evolves (.answered addrs husable h)

/-- A switch to an address the controller holds. -/
theorem evolves_switchTo (why : SwitchWhy) (h : SamePlaces c c₁) (hnames : c.Names target) :
    Evolves c (c₁.switchTo target why).2 := by
  unfold switchTo
  split
  · exact h.evolves
  · split_ifs
    · exact h.evolves
    · refine Relocates.evolves (.retargeted target hnames (SamePlaces.order ?_))
      refine ⟨h.spec, h.opts, ?_, h.committed, h.candidates, h.probation⟩
      rw [h.spec]

/-- A decision stays where it is, or goes to an address the controller holds. -/
theorem Decided.evolves {ios : List ChargeIo} {switch : Option Switch}
    {events : List EndpointEvent} (h : Decided c wallNow ios switch c' events) : Evolves c c' := by
  cases h with
  | stays h => exact h.samePlaces.evolves
  | switches h _ hnames => exact evolves_switchTo _ h.samePlaces hnames

/-- What a cycle asks may bring new candidates. -/
theorem evolves_asked (c : Controller) (nowMs : Nat) (reason : CycleReason) (io : CycleIo) :
    Evolves c (c.asked nowMs reason io).2.1 := by
  have hloss : SamePlaces c (c.noteLoss reason) := by
    unfold noteLoss
    split_ifs
    · exact .of_eq rfl rfl rfl rfl rfl (.inl rfl)
    · exact .refl c
  have hround := (keeps_openRound (c.noteLoss reason) nowMs reason).samePlaces
  have hasking : SamePlaces c (c.asking nowMs reason) :=
    (hloss.trans hround).trans (.of_eq rfl rfl rfl rfl rfl (.inl rfl))
  obtain ⟨-, -, h⟩ | ⟨-, c₁, hkeeps, h⟩ := asked_cases c nowMs reason io
  · rw [h]
    exact hasking.evolves.trans (evolves_query ..)
  · rw [h]
    exact (hloss.trans hkeeps.samePlaces).evolves

/-- A cycle evolves the places. -/
theorem evolves_onCycle (c : Controller) (nowMs wallNow : Nat) (reason : CycleReason)
    (io : CycleIo) : Evolves c (c.onCycle nowMs wallNow reason io).2.1 := by
  cases hd : c.isDynamic with
  | false =>
    rw [onCycle, if_pos hd]
    exact .refl c
  | true =>
    rw [onCycle_eq hd]
    exact (evolves_asked c nowMs reason io).trans (decided_select ..).evolves

/-! ## The other calls -/

theorem evolves_onAuthenticatedAt (c : Controller) (nowMs : Nat) (write : WriteOutcome) :
    Evolves c (c.onAuthenticatedAt nowMs write).2.1 := by
  unfold onAuthenticatedAt
  dsimp only
  split
  · exact SamePlaces.evolves (.of_eq rfl rfl rfl rfl rfl (.inl rfl))
  next cur hcur =>
    have hcur : c.currentV4 = some cur := hcur
    split_ifs with hcommit
    · refine Relocates.evolves (.recommitted cur hcur (SamePlaces.order ?_))
      exact .of_eq rfl rfl rfl rfl rfl (.inr rfl)
    · obtain ⟨rollback, hgood⟩ : ∃ rollback, c.committedGood = some rollback :=
        Option.ne_none_iff_exists'.mp (not_or.mp (not_or.mp hcommit).2).1
      refine Relocates.evolves (.begun ⟨cur, rollback, nowMs, c.attendedCutover,
        c.rollbackAt nowMs, false, none, none, 0⟩ hcur hgood (SamePlaces.order ?_))
      refine ⟨rfl, rfl, rfl, rfl, rfl, fun p' hp' => ⟨_, rfl, ?_⟩⟩
      obtain ⟨rollback', hgood', rfl⟩ := Option.map_eq_some_iff.mp hp'
      exact ⟨rfl, Option.some.inj (hgood'.symm.trans hgood)⟩

theorem evolves_onAuthenticatedActivity (c : Controller) (nowMs : Nat) (isData : Bool) :
    Evolves c (c.onAuthenticatedActivity nowMs isData) := by
  have hheard : SamePlaces c
      (if c.healthy then { c with committedRuntimeActivityMs := some nowMs } else c) := by
    split_ifs
    · exact .of_eq rfl rfl rfl rfl rfl (.inl rfl)
    · exact .refl c
  unfold onAuthenticatedActivity
  split
  · exact .refl c
  · dsimp only
    generalize (if c.healthy then { c with committedRuntimeActivityMs := some nowMs } else c) = c₁
      at hheard ⊢
    split_ifs
    · exact hheard.evolves
    · split
      · exact hheard.evolves
      next p hp =>
        split_ifs
        · refine SamePlaces.evolves (hheard.trans ⟨rfl, rfl, rfl, rfl, rfl, fun p' hp' => ?_⟩)
          obtain rfl := Option.some.inj hp'
          exact ⟨p, hp, rfl, rfl⟩
        · exact hheard.evolves

theorem RollbackCalled.evolves {io : ChargeIo} {events : List EndpointEvent}
    (h : RollbackCalled c wallNow io c' events) : Evolves c c' := by
  cases h with
  | kept h => exact h.samePlaces.evolves
  | authorized h _ hp =>
    have hsame := h.samePlaces
    refine SamePlaces.evolves ⟨hsame.spec, hsame.opts, hsame.current, hsame.committed,
      hsame.candidates, fun p' hp' => ⟨_, hp, ?_⟩⟩
    obtain rfl := Option.some.inj hp'
    exact ⟨rfl, rfl⟩

theorem evolves_promoteCandidate (c : Controller) (expected : Ipv4Addr) (nowMs : Nat)
    (write : WriteOutcome) : Evolves c (c.promoteCandidate expected nowMs write).2.1 := by
  obtain ⟨h, -⟩ | ⟨p, hp, hrefusal, ⟨-, h⟩ | ⟨-, h⟩⟩ :=
    promoteCandidate_cases c expected nowMs write
  · rw [h]
    exact .refl c
  · rw [h]
    have hcur := (promotionRefusal_none hrefusal).2.1
    refine Relocates.evolves (.recommitted expected hcur (SamePlaces.order ?_))
    exact .of_eq rfl rfl rfl rfl rfl (.inr rfl)
  · rw [h]
    exact .refl c

/-- Every call changes the places step by step. -/
theorem evolves_handle (c : Controller) (r : Request) : Evolves c (c.handle r).2.1 := by
  cases r with
  | onCycle nowMs wallNow reason io => exact evolves_onCycle c nowMs wallNow reason io
  | onAuthenticated nowMs write => exact evolves_onAuthenticatedAt c nowMs write
  | onAuthenticatedActivity nowMs isData => exact evolves_onAuthenticatedActivity c nowMs isData
  | onSessionEnded => exact SamePlaces.evolves (.of_eq rfl rfl rfl rfl rfl (.inl rfl))
  | requestRefresh =>
    refine SamePlaces.evolves ?_
    change SamePlaces c c.requestRefresh
    unfold requestRefresh
    split_ifs
    · exact .of_eq rfl rfl rfl rfl rfl (.inl rfl)
    · exact .refl c
  | probationRollbackDue nowMs wallNow io => exact (rollbackCalled_due ..).evolves
  | authorizeOperatorRollback expected nowMs wallNow io =>
    exact (rollbackCalled_operator ..).evolves
  | promoteCandidate expected nowMs write => exact evolves_promoteCandidate c expected nowMs write

/-- Every run does. -/
theorem Runs.evolves {log : List Occurrence} (h : Runs c₀ log c) : Evolves c₀ c :=
  h.invariant (I := fun _ c => Evolves c₀ c) (.refl c₀) fun _ c r _ ih =>
    ih.trans (evolves_handle c r)

end Controller

end Udp2raw
