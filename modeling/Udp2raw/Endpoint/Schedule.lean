import Udp2raw.Endpoint.Attended
import Udp2raw.Endpoint.Evidence
import Udp2raw.Endpoint.Freshness

/-!
# When a probation may be rolled back

A probation that starts while the committed address is fresh gets a time at which it
may be rolled back: after it lasted its time, and two timer intervals before the
freshness or the rollback window ends. No call moves the proofs of the committed
address while the probation lasts, so the rollback target is still fresh when a timer
finds the rollback due.
-/

namespace Udp2raw

namespace Controller

variable {c c' : Controller} {log : List Occurrence} {p : Probation} {nowMs d : Nat}

/-! ## The schedule -/

/-- The rollback at `d` comes after the probation and two timer intervals before the end of the
window and of a proof of the committed address. -/
structure Scheduled (c : Controller) (p : Probation) (d : Nat) : Prop where
  earliest : p.authenticatedAtMs + c.policy.probationMs.toNat ≤ d
  latest : d + 2 * timerIntervalMs ≤ p.authenticatedAtMs + c.policy.rollbackWindowMs.toNat
  fresh : ∃ e ∈ c.deadlines, d + 2 * timerIntervalMs ≤ e

/-- The rollback of the probation, if one is planned, is on schedule. -/
def OnSchedule (c : Controller) : Prop :=
  ∀ p d, c.probation = some p → p.rollbackAtMs = some d → Scheduled c p d

/-- The schedule of a probation that starts now, as long as the horizon does not saturate. -/
theorem rollbackAt_eq_some (h : c.rollbackAt nowMs = some d)
    (hfar : nowMs + c.policy.probationMs.toNat + 2 * timerIntervalMs ≤ u64Max) :
    nowMs + c.policy.probationMs.toNat ≤ d ∧
    d + 2 * timerIntervalMs ≤ nowMs + c.policy.rollbackWindowMs.toNat ∧
    ∃ e ∈ c.deadlines, d + 2 * timerIntervalMs ≤ e := by
  unfold rollbackAt at h
  dsimp only at h
  obtain ⟨horizon, hhorizon, rfl⟩ := Option.map_eq_some_iff.mp h
  obtain ⟨hhorizon, hrequired⟩ := Option.filter_eq_some_iff.mp hhorizon
  obtain ⟨⟨good, e⟩, he, rfl⟩ := Option.map_eq_some_iff.mp hhorizon
  obtain ⟨-, -, hmem, -, -⟩ := committedHealthDeadline_eq_some_iff.mp he
  have hrequired := of_decide_eq_true hrequired
  simp only [satAdd] at hrequired ⊢
  refine ⟨by omega, by omega, e, hmem, by omega⟩

/-! ## What the calls leave alone -/

/-- Activity of an unhealthy endpoint proves nothing. -/
theorem provenAt_onAuthenticatedActivity (hhealthy : c.healthy = false) (nowMs : Nat)
    (isData : Bool) : (c.onAuthenticatedActivity nowMs isData).provenAt = c.provenAt := by
  unfold onAuthenticatedActivity
  split
  · rfl
  · simp only [hhealthy, Bool.false_eq_true, if_false]
    split_ifs
    · rfl
    · split
      · rfl
      · split_ifs
        · rfl
        · rfl

/-- The committed address has the proofs it had, and a probation that is left has its times. -/
structure KeepsSchedule (c c' : Controller) : Prop where
  opts : c'.opts = c.opts
  proven : c'.provenAt = c.provenAt
  probation : ∀ p', c'.probation = some p' → ∃ p, c.probation = some p ∧
    p'.authenticatedAtMs = p.authenticatedAtMs ∧ p'.rollbackAtMs = p.rollbackAtMs

/-- What keeps the schedule stays on it. -/
theorem KeepsSchedule.onSchedule (h : KeepsSchedule c c') (hs : OnSchedule c) : OnSchedule c' := by
  intro p' d hp' hd
  obtain ⟨p, hp, hat, hroll⟩ := h.probation p' hp'
  obtain ⟨hearliest, hlatest, hfresh⟩ := hs p d hp (hroll ▸ hd)
  have hpolicy : c'.policy = c.policy := congrArg EndpointOptions.lastGoodFallback h.opts
  refine ⟨?_, ?_, ?_⟩
  · rw [hat, hpolicy]
    exact hearliest
  · rw [hat, hpolicy]
    exact hlatest
  · rw [deadlines_congr h.opts h.proven]
    exact hfresh

theorem KeepsSchedule.of_same (hopts : c'.opts = c.opts) (hproven : c'.provenAt = c.provenAt)
    (hp : c'.probation = c.probation ∨ c'.probation = none) : KeepsSchedule c c' where
  opts := hopts
  proven := hproven
  probation p' hp' := by
    obtain hsame | hnone := hp
    · exact ⟨p', hsame ▸ hp', rfl, rfl⟩
    · rw [hnone] at hp'
      cases hp'

/-- Without a probation there is nothing to keep to. -/
theorem onSchedule_of_none (h : c.probation = none) : OnSchedule c := by
  intro p d hp
  rw [h] at hp
  cases hp

/-! ## The calls -/

/-- Authentication puts the probation on schedule. -/
theorem onSchedule_onAuthenticatedAt (hsettled : Settled c)
    (hfar : nowMs + c.policy.probationMs.toNat + 2 * timerIntervalMs ≤ u64Max)
    (write : WriteOutcome) : OnSchedule (c.onAuthenticatedAt nowMs write).2.1 := by
  obtain ⟨hauth, h⟩ := onAuthenticatedAt_cases c nowMs write
  obtain ⟨hv6, -, hprobation, -⟩ | ⟨cur, -, -, -, hnone, -⟩ |
    ⟨cur, rollback, hcur, henabled, hgood, hne, -, hbegun, -⟩ := h
  · -- a controller with a probation has an IPv4 endpoint
    refine onSchedule_of_none (hprobation.trans (Option.eq_none_iff_forall_ne_some.mpr ?_))
    intro p hp
    exact (hsettled p hp).v4 hv6
  · exact onSchedule_of_none hnone
  · intro p d hp hd
    obtain rfl := Option.some.inj (hbegun.symm.trans hp)
    obtain ⟨hearliest, hlatest, hfresh⟩ := rollbackAt_eq_some hd hfar
    have hproven := provenAt_onAuthenticatedAt henabled hgood hcur hne nowMs write
    have hpolicy : (c.onAuthenticatedAt nowMs write).2.1.policy = c.policy :=
      congrArg EndpointOptions.lastGoodFallback hauth.opts
    refine ⟨?_, ?_, ?_⟩
    · rw [hpolicy]
      exact hearliest
    · rw [hpolicy]
      exact hlatest
    · rw [deadlines_congr hauth.opts hproven]
      exact hfresh

/-- Activity keeps the probation on schedule. -/
theorem onSchedule_onAuthenticatedActivity (hsettled : Settled c) (hs : OnSchedule c) (nowMs : Nat)
    (isData : Bool) : OnSchedule (c.onAuthenticatedActivity nowMs isData) := by
  obtain ⟨c₁, hcont, hsame, -, h⟩ := onAuthenticatedActivity_cases c nowMs isData
  cases hhealthy : c.healthy with
  | true =>
    -- the committed endpoint is in use, so there is no probation to count for
    obtain ⟨-, -, -, hnone⟩ := committed_of_healthy hsettled hhealthy
    obtain ⟨h, -⟩ | ⟨-, p, hp, -⟩ := h
    · exact onSchedule_of_none (by rw [h, hsame, hnone])
    · rw [hnone] at hp
      cases hp
  | false =>
    have hproven := provenAt_onAuthenticatedActivity hhealthy nowMs isData
    refine KeepsSchedule.onSchedule ?_ hs
    obtain ⟨h, -⟩ | ⟨-, p, hp, -, h⟩ := h
    · rw [h] at hproven ⊢
      exact .of_same hcont.opts hproven hcont.probation
    · rw [h] at hproven ⊢
      refine ⟨hcont.opts, hproven, fun p' hp' => ⟨p, hp, ?_⟩⟩
      obtain rfl := Option.some.inj hp'
      exact ⟨rfl, rfl⟩

/-- A rollback call keeps the schedule. -/
theorem RollbackCalled.keepsSchedule {wallNow : Nat} {io : ChargeIo} {c' : Controller}
    {events : List EndpointEvent} (h : RollbackCalled c wallNow io c' events) :
    KeepsSchedule c c' := by
  have hproven : c'.provenAt = c.provenAt := congrArg Prod.fst h.background
  cases h with
  | kept h => exact .of_same h.opts hproven h.probation
  | authorized h _ hp =>
    refine ⟨h.opts, hproven, fun p' hp' => ⟨_, hp, ?_⟩⟩
    obtain rfl := Option.some.inj hp'
    exact ⟨rfl, rfl⟩

/-- Every call keeps to the schedule. -/
theorem onSchedule_handle (r : Request) (hsettled : Settled c) (hs : OnSchedule c)
    (hfar : ∀ t, r.time = some t → t + c.policy.probationMs.toNat + 2 * timerIntervalMs ≤ u64Max) :
    OnSchedule (c.handle r).2.1 := by
  cases r with
  | onCycle nowMs wallNow reason io =>
    have hcycled := cycled_onCycle c nowMs wallNow reason io
    exact KeepsSchedule.onSchedule
      (.of_same hcycled.opts (provenAt_onCycle ..) hcycled.probation) hs
  | onAuthenticated nowMs write =>
    exact onSchedule_onAuthenticatedAt hsettled (hfar nowMs rfl) write
  | onAuthenticatedActivity nowMs isData =>
    exact onSchedule_onAuthenticatedActivity hsettled hs nowMs isData
  | onSessionEnded => exact KeepsSchedule.onSchedule (c := c) (.of_same rfl rfl (.inl rfl)) hs
  | requestRefresh =>
    change OnSchedule c.requestRefresh
    unfold requestRefresh
    split_ifs
    · exact KeepsSchedule.onSchedule (c := c) (.of_same rfl rfl (.inl rfl)) hs
    · exact hs
  | probationRollbackDue nowMs wallNow io =>
    exact (rollbackCalled_due c nowMs wallNow io).keepsSchedule.onSchedule hs
  | authorizeOperatorRollback expected nowMs wallNow io =>
    exact (rollbackCalled_operator c expected nowMs wallNow io).keepsSchedule.onSchedule hs
  | promoteCandidate expected nowMs write =>
    change OnSchedule (c.promoteCandidate expected nowMs write).2.1
    obtain ⟨h, -⟩ | ⟨p, -, -, ⟨-, h⟩ | ⟨-, h⟩⟩ := promoteCandidate_cases c expected nowMs write
    · rw [h]
      exact hs
    · rw [h]
      exact onSchedule_of_none rfl
    · rw [h]
      exact hs

/-- Times so far below the last one that no horizon saturates. -/
def FarBelowMax (policy : LastGoodFallbackPolicy) (log : List Occurrence) : Prop :=
  ∀ t ∈ log.filterMap Occurrence.time,
    t + policy.probationMs.toNat + 2 * timerIntervalMs ≤ u64Max

instance (policy : LastGoodFallbackPolicy) (log : List Occurrence) :
    Decidable (FarBelowMax policy log) :=
  inferInstanceAs (Decidable (∀ t ∈ log.filterMap Occurrence.time,
    t + policy.probationMs.toNat + 2 * timerIntervalMs ≤ u64Max))

/-- Every reached probation is on schedule. -/
theorem Reached.onSchedule {spec : EndpointSpec} {opts : EndpointOptions}
    (h : Reached spec opts log c) (hfar : FarBelowMax opts.lastGoodFallback log) :
    OnSchedule c := by
  obtain ⟨io, c₀, hboot, hrun⟩ := h
  have hfresh := fresh_bootstrap hboot
  refine hrun.invariant
    (I := fun log c => FarBelowMax opts.lastGoodFallback log → OnSchedule c) ?_ ?_ hfar
  · intro _
    exact onSchedule_of_none hfresh.probation
  · intro log c r hrun ih hfar
    have hreached : Reached spec opts log c := ⟨io, c₀, hboot, hrun⟩
    rw [FarBelowMax, List.filterMap_append] at hfar
    have hearlier : FarBelowMax opts.lastGoodFallback log := fun t ht =>
      hfar t (List.mem_append_left _ ht)
    refine onSchedule_handle r hreached.settled (ih hearlier) fun t ht => ?_
    rw [policy, hreached.spec_opts.2]
    exact hfar t (List.mem_append_right _
      (List.mem_filterMap.mpr ⟨_, List.mem_singleton_self _, ht⟩))

/-! ## The rollback target -/

/-- Through two timer intervals after it is due, a rollback has its target. -/
theorem Scheduled.committedFresh (h : Scheduled c p d) (hp : Probationary c p) {t : Nat}
    (ht : t ≤ d + 2 * timerIntervalMs) : c.committedFresh t p.candidate = some p.rollback := by
  obtain ⟨e, hmem, hle⟩ := h.fresh
  obtain ⟨e', hle', he'⟩ :=
    exists_committedHealthDeadline hp.enabled hp.committed hmem (ht.trans hle)
  exact committedFresh_of_le_deadline he' ((ht.trans hle).trans hle') hp.other.symm

/-- A due rollback of a fresh target is refused for want of a charge only. -/
theorem probationRollbackDueAt_of_fresh (hp : c.probation = some p)
    (hcur : c.currentV4 = some p.candidate) (hd : p.rollbackAtMs = some d) (hdue : d ≤ nowMs)
    (hfresh : c.committedFresh nowMs p.candidate = some p.rollback) (wallNow : Nat)
    (io : ChargeIo) :
    (c.probationRollbackDueAt nowMs wallNow io).1 = (p.rollbackAuthorized || p.directReturn ||
      (c.chargeFallback wallNow p.rollback io).1) := by
  have hdue : p.rollbackAtMs.any (· ≤ nowMs) = true := by
    rw [hd, Option.any_some, decide_eq_true hdue]
  simp only [probationRollbackDueAt, hcur, hp]
  rw [if_pos ⟨trivial, hdue⟩, authorizeRollback, if_neg (not_not.mpr hfresh)]
  split_ifs with hauth
  · simp only [← Bool.or_eq_true] at hauth
    rw [hauth, Bool.true_or]
  · rw [← Bool.or_eq_true, Bool.not_eq_true] at hauth
    rw [hauth, Bool.false_or]
    dsimp only
    split_ifs with hgranted
    · exact hgranted.symm
    · exact (Bool.eq_false_iff.mpr hgranted).symm

/-- The schedule of rollbacks, in every state a run reaches: a rollback planned for `d` comes after
the probation lasted its time and 800 ms before the window ends. Its target is the committed
address, another one than the candidate, and as long as the candidate is the endpoint the target
is fresh until 800 ms after `d`, so that a rollback found due by then is not refused because the
target is stale. -/
theorem rollback_schedule {spec : EndpointSpec} {opts : EndpointOptions}
    (hreached : Reached spec opts log c) (hfar : FarBelowMax opts.lastGoodFallback log)
    (hp : c.probation = some p) (hd : p.rollbackAtMs = some d) :
    p.authenticatedAtMs + opts.lastGoodFallback.probationMs.toNat ≤ d ∧
    d ≤ p.authenticatedAtMs + opts.lastGoodFallback.rollbackWindowMs.toNat - 800 ∧
    c.committedGood = some p.rollback ∧ p.rollback ≠ p.candidate ∧
    (c.currentV4 = some p.candidate →
      (∀ t, p.authenticatedAtMs ≤ t → t ≤ d + 800 →
        c.committedFresh t p.candidate = some p.rollback) ∧
      ∀ t wallNow io, d ≤ t → t ≤ d + 800 →
        (c.probationRollbackDueAt t wallNow io).1 = (p.rollbackAuthorized || p.directReturn ||
          (c.chargeFallback wallNow p.rollback io).1)) := by
  have hprobationary := hreached.settled p hp
  have hscheduled := hreached.onSchedule hfar p d hp hd
  have hfresh : ∀ t ≤ d + 800, c.committedFresh t p.candidate = some p.rollback :=
    fun t ht => hscheduled.committedFresh hprobationary ht
  have hpolicy : c.policy = opts.lastGoodFallback :=
    congrArg EndpointOptions.lastGoodFallback hreached.spec_opts.2
  obtain ⟨hearliest, hlatest, -⟩ := hscheduled
  rw [hpolicy] at hearliest hlatest
  refine ⟨hearliest, ?_, hprobationary.committed, hprobationary.other.symm, fun hcur => ⟨?_, ?_⟩⟩
  · unfold timerIntervalMs at hlatest
    omega
  · exact fun t _ ht => hfresh t ht
  · intro t wallNow io hdue ht
    exact probationRollbackDueAt_of_fresh hp hcur hd hdue (hfresh t ht) wallNow io

/-- The cutover's probation starts at 3 s, two seconds after the last activity of `9.9.9.9`. -/
theorem rollback_schedule_cutover :
    ∃ log c p, Reached (.hostname [120] 443) cachedOpts log c ∧ c.probation = some p ∧
      p.rollbackAtMs = some 300200 ∧ c.committedFresh 301000 p.candidate = some p.rollback := by
  obtain ⟨log, c, hrun, h⟩ := exists_reached_of_replay (.hostname [120] 443) cachedOpts
    firstBoot cutover (fun log c => FarBelowMax cachedOpts.lastGoodFallback log ∧
      c.probation.any (fun p => p.rollbackAtMs = some 300200 ∧ p.authenticatedAtMs = 3000 ∧
        c.currentV4 = some p.candidate))
    (by decide +kernel)
  obtain ⟨hfar, hany⟩ := of_decide_eq_true h
  obtain ⟨p, hp, hdue⟩ := (Option.any_eq_true _ _).mp hany
  obtain ⟨hd, hat, hcur⟩ := of_decide_eq_true hdue
  obtain ⟨-, -, -, -, htarget⟩ := rollback_schedule hrun hfar hp hd
  refine ⟨log, c, p, hrun, hp, hd, (htarget hcur).1 301000 ?_ (by decide)⟩
  rw [hat]
  decide

end Controller

end Udp2raw
