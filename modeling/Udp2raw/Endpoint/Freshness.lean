import Udp2raw.Cli.Fallback
import Udp2raw.Endpoint.Candidates
import Udp2raw.Endpoint.Runs

/-!
# How long the committed address stays a rollback target

The committed address may be rolled back to until a deadline that counts from its last
proof: authenticated activity of this run, or the cache file. Without an
authentication no call moves these proofs. The window that `parse_args` demands then
covers an attended cutover from its start to the end of the new address's probation.
-/

namespace Udp2raw

namespace Controller

variable {c c' : Controller} {nowMs t d : Nat} {good cur : Ipv4Addr}

/-! ## The deadline -/

/-- The deadlines `committed_health_deadline` chooses from, passed or not. -/
def deadlines (c : Controller) : List Nat :=
  (c.committedRuntimeActivityMs.map
    fun last => satAdd last c.policy.rollbackWindowMs.toNat).toList ++ c.cacheFreshUntilMs.toList

theorem toList_filter {α : Type} (a : Option α) (p : α → Bool) :
    (a.filter p).toList = a.toList.filter p := by
  cases a with
  | none => rfl
  | some x =>
    rw [Option.filter_some, Option.toList_some]
    cases h : p x with
    | false => simp [h]
    | true => simp [h]

/-- The deadline is the last one, if that has not passed. -/
theorem committedHealthDeadline_eq_some_iff :
    c.committedHealthDeadline nowMs = some (good, d) ↔
      c.policy.enabled = true ∧ c.committedGood = some good ∧
      d ∈ c.deadlines ∧ nowMs ≤ d ∧ ∀ e ∈ c.deadlines, e ≤ d := by
  have hmax : ((c.deadlines.filter (nowMs ≤ ·)).max? = some d) ↔
      d ∈ c.deadlines ∧ nowMs ≤ d ∧ ∀ e ∈ c.deadlines, e ≤ d := by
    simp only [List.max?_eq_some_iff, List.mem_filter, decide_eq_true_eq, and_assoc]
    refine and_congr_right fun _ => and_congr_right fun hd => ⟨fun h e he => ?_, fun h e he => ?_⟩
    · rcases Nat.le_total nowMs e with hle | hle
      · exact h e ⟨he, hle⟩
      · exact hle.trans hd
    · exact h e he.1
  rw [← hmax]
  unfold committedHealthDeadline deadlines
  cases c.policy.enabled with
  | false => simp
  | true =>
    cases c.committedGood with
    | none => simp
    | some committed => simp [toList_filter, List.filter_append, and_comm]

/-- As long as one of the deadlines lasts the committed address is fresh, at least until it. -/
theorem exists_committedHealthDeadline (henabled : c.policy.enabled = true)
    (hgood : c.committedGood = some good) (hd : d ∈ c.deadlines) (hnow : nowMs ≤ d) :
    ∃ e, d ≤ e ∧ c.committedHealthDeadline nowMs = some (good, e) := by
  obtain ⟨e, he⟩ := Option.ne_none_iff_exists'.mp
    (mt List.max?_eq_none_iff.mp (List.ne_nil_of_mem hd))
  obtain ⟨hmem, hmax⟩ := List.max?_eq_some_iff.mp he
  exact ⟨e, hmax d hd, committedHealthDeadline_eq_some_iff.mpr
    ⟨henabled, hgood, hmem, hnow.trans (hmax d hd), hmax⟩⟩

/-- Until its deadline the committed address is fresh for every other address. -/
theorem committedFresh_of_le_deadline (h : c.committedHealthDeadline nowMs = some (good, d))
    (hu : t ≤ d) (hother : good ≠ cur) : c.committedFresh t cur = some good := by
  obtain ⟨henabled, hgood, hmem, -, -⟩ := committedHealthDeadline_eq_some_iff.mp h
  obtain ⟨e, -, he⟩ := exists_committedHealthDeadline henabled hgood hmem hu
  rw [committedFresh, he]
  exact if_pos hother

/-! ## What leaves the proofs alone -/

theorem deadlines_congr (hopts : c'.opts = c.opts) (hproven : c'.provenAt = c.provenAt) :
    c'.deadlines = c.deadlines := by
  have hactivity : c'.committedRuntimeActivityMs = c.committedRuntimeActivityMs :=
    congrArg Prod.fst hproven
  have hcache : c'.cacheFreshUntilMs = c.cacheFreshUntilMs := congrArg Prod.snd hproven
  rw [deadlines, deadlines, policy, policy, hopts, hactivity, hcache]

/-- A query proves no address. -/
theorem provenAt_query (c : Controller) (nowMs : Nat) (answer : Option DnsAnswer)
    (random : UInt32) : (c.query nowMs answer random).2.provenAt = c.provenAt := by
  obtain ⟨_, _, _, _, _, h⟩ := query_frame c nowMs answer random
  rw [h]
  rfl

theorem provenAt_refresh (c : Controller) (nowMs : Nat) (reason : CycleReason) (io : CycleIo) :
    (c.refresh nowMs reason io).2.1.provenAt = c.provenAt := by
  have hround : (c.openRound nowMs reason).provenAt = c.provenAt :=
    congrArg Prod.fst (keeps_openRound ..).background
  unfold refresh
  dsimp only
  split_ifs
  · exact (provenAt_query ..).trans hround
  · exact hround

/-- A cycle proves nothing about the committed address. -/
theorem provenAt_onCycle (c : Controller) (nowMs wallNow : Nat) (reason : CycleReason)
    (io : CycleIo) : (c.onCycle nowMs wallNow reason io).2.1.provenAt = c.provenAt := by
  cases hd : c.isDynamic with
  | false => rw [onCycle, if_pos hd]
  | true =>
    have hloss : (c.noteLoss reason).provenAt = c.provenAt := by
      unfold noteLoss
      split_ifs <;> rfl
    have hround := (keeps_openRound (c.noteLoss reason) nowMs reason).background
    rw [onCycle_eq hd]
    refine (congrArg Prod.fst (decided_select ..).background).trans ?_
    obtain ⟨-, -, h⟩ | ⟨-, c₁, hkeeps, h⟩ := asked_cases c nowMs reason io
    · rw [h]
      exact (provenAt_query ..).trans ((congrArg Prod.fst hround).trans hloss)
    · rw [h]
      exact (congrArg Prod.fst hkeeps.background).trans hloss

/-- Nothing that bears on the committed address's freshness changes, and the endpoint is not
authenticated. -/
structure Rests (c c' : Controller) : Prop where
  opts : c'.opts = c.opts
  committed : c'.committedGood = c.committedGood
  proven : c'.provenAt = c.provenAt
  unauthenticated : c'.currentAuthenticated = false

theorem Rests.trans {c'' : Controller} (h : Rests c c') (h' : Rests c' c'') : Rests c c'' :=
  ⟨h'.opts.trans h.opts, h'.committed.trans h.committed, h'.proven.trans h.proven,
    h'.unauthenticated⟩

theorem Continues.rests (h : Continues c c') (hproven : c'.provenAt = c.provenAt)
    (hauth : c.currentAuthenticated = false) : Rests c c' :=
  ⟨h.opts, h.committed, hproven, h.authenticated.trans hauth⟩

/-- A rollback call proves no address. -/
theorem RollbackCalled.rests {wallNow : Nat} {io : ChargeIo} {events : List EndpointEvent}
    (h : RollbackCalled c wallNow io c' events) (hauth : c.currentAuthenticated = false) :
    Rests c c' := by
  have hproven : c'.provenAt = c.provenAt := congrArg Prod.fst h.background
  cases h with
  | kept h => exact h.rests hproven hauth
  | authorized h => exact ⟨h.opts, h.committed, hproven, h.authenticated.trans hauth⟩

/-- A cycle proves no address. -/
theorem rests_onCycle (hauth : c.currentAuthenticated = false) (nowMs wallNow : Nat)
    (reason : CycleReason) (io : CycleIo) : Rests c (c.onCycle nowMs wallNow reason io).2.1 := by
  have hcycled := cycled_onCycle c nowMs wallNow reason io
  refine ⟨hcycled.opts, hcycled.committed, provenAt_onCycle .., ?_⟩
  cases hswitch : (c.onCycle nowMs wallNow reason io).1 with
  | none => exact (hcycled.stays hswitch).2.trans hauth
  | some s =>
    obtain ⟨_, _, _, hfalse, _⟩ := hcycled.leaves s hswitch
    exact hfalse

/-- Activity of an unauthenticated address proves nothing. -/
theorem rests_onAuthenticatedActivity (hauth : c.currentAuthenticated = false) (nowMs : Nat)
    (isData : Bool) : Rests c (c.onAuthenticatedActivity nowMs isData) := by
  have hrefl : Rests c c := (Continues.refl c).rests rfl hauth
  have hhealthy : c.healthy = false := by simp [healthy, hauth]
  unfold onAuthenticatedActivity
  split
  · exact hrefl
  · simp only [hhealthy, Bool.false_eq_true, if_false]
    split_ifs
    · exact hrefl
    · split
      · exact hrefl
      · split_ifs
        · exact ⟨rfl, rfl, rfl, hauth⟩
        · exact hrefl

/-- An unauthenticated candidate is not promoted. -/
theorem promoteCandidate_unauthenticated (hauth : c.currentAuthenticated = false)
    (expected : Ipv4Addr) (nowMs : Nat) (write : WriteOutcome) :
    (c.promoteCandidate expected nowMs write).2.1 = c := by
  obtain ⟨h, -⟩ | ⟨p, -, hrefusal, -⟩ := c.promoteCandidate_cases expected nowMs write
  · rw [h]
  · obtain ⟨-, -, htrue, -⟩ := promotionRefusal_none hrefusal
    exact absurd htrue (by simp [hauth])

/-- The call is an authentication. -/
def Request.proves : Request → Bool
  | .onAuthenticated _ _ => true
  | _ => false

/-- Without an authentication nothing is proven. -/
theorem rests_handle (hauth : c.currentAuthenticated = false) {r : Request}
    (hr : r.proves = false) : Rests c (c.handle r).2.1 := by
  have hrefl : Rests c c := (Continues.refl c).rests rfl hauth
  cases r with
  | onCycle nowMs wallNow reason io => exact rests_onCycle hauth nowMs wallNow reason io
  | onAuthenticated nowMs write => cases hr
  | onAuthenticatedActivity nowMs isData => exact rests_onAuthenticatedActivity hauth nowMs isData
  | onSessionEnded => exact ⟨rfl, rfl, rfl, rfl⟩
  | requestRefresh =>
    simp only [handle, requestRefresh]
    split_ifs
    · exact ⟨rfl, rfl, rfl, hauth⟩
    · exact hrefl
  | probationRollbackDue nowMs wallNow io => exact (rollbackCalled_due ..).rests hauth
  | authorizeOperatorRollback expected nowMs wallNow io =>
    exact (rollbackCalled_operator ..).rests hauth
  | promoteCandidate expected nowMs write =>
    simpa only [handle, promoteCandidate_unauthenticated hauth] using hrefl

/-- Calls that prove nothing leave the freshness as it was. -/
theorem rests_afterCalls (hauth : c.currentAuthenticated = false) {rs : List Request}
    (hrs : ∀ r ∈ rs, r.proves = false) : Rests c (c.afterCalls rs) := by
  induction rs generalizing c with
  | nil => exact (Continues.refl c).rests rfl hauth
  | cons r rs ih =>
    have hfirst := rests_handle hauth (hrs r List.mem_cons_self)
    exact hfirst.trans (ih hfirst.unauthenticated fun r' h => hrs r' (List.mem_cons_of_mem r h))

/-! ## Attended cutovers -/

/-- The cycle asks DNS, and of the addresses it is then left with the controller puts `target`
first. -/
def Prefers (c : Controller) (nowMs : Nat) (io : CycleIo) (target : Ipv4Addr) : Prop :=
  c.refreshIsDue nowMs = true ∧ (c.refresh nowMs .forced io).1 = some true ∧
    (c.refresh nowMs .forced io).2.1.candidates.head? = some target

/-- The committed address `good` was active at most `CLIENT_CONN_TIMEOUT_MS` before `nowMs`. -/
def ActiveAt (c : Controller) (nowMs : Nat) (good : Ipv4Addr) : Prop :=
  c.committedGood = some good ∧
    ∃ last, c.committedRuntimeActivityMs = some last ∧ nowMs ≤ last + 10000

/-- The deadline of recent activity lies past an attended cutover, one handshake and the
probation. -/
theorem ActiveAt.deadline (h : c.ActiveAt nowMs good) (hpolicy : c.policy.Accepted)
    (henabled : c.policy.enabled = true) (hnow : nowMs ≤ 2 ^ 63) :
    ∃ d ∈ c.deadlines, nowMs + c.policy.preferredRoundTimeoutMs.toNat + 5000
      + c.policy.probationMs.toNat + 800 ≤ d := by
  obtain ⟨-, last, hlast, hrecent⟩ := h
  have hwindow := hpolicy.window henabled
  have hround := hpolicy.roundTimeout
  have hprobation := hpolicy.probation
  refine ⟨satAdd last c.policy.rollbackWindowMs.toNat, ?_, ?_⟩
  · simp [deadlines, hlast]
  · unfold satAdd u64Max
    omega

/-- The deadline of the round a cycle at `nowMs` opens. -/
theorem round_startPreferredRound (henabled : c.policy.enabled = true)
    (hround : c.preferredRoundDeadlineMs = none) (hnow : nowMs ≤ 2 ^ 63)
    (hpolicy : c.policy.Accepted) :
    (c.startPreferredRound nowMs).preferredRoundDeadlineMs
      = some (nowMs + c.policy.preferredRoundTimeoutMs.toNat) := by
  have hexact : satAdd nowMs c.policy.preferredRoundTimeoutMs.toNat
      = nowMs + c.policy.preferredRoundTimeoutMs.toNat := by
    have hle := hpolicy.roundTimeout
    unfold satAdd u64Max
    omega
  rw [startPreferredRound, if_pos ⟨henabled, hround⟩, hexact]

/-- With a round open until `roundEnd`, a deadline past the handshake and the probation that may
follow it lets an attended cutover begin. -/
theorem freshThroughCutover_of_deadline {roundEnd : Nat} (henabled : c.policy.enabled = true)
    (hgood : c.committedGood = some good) (hround : c.preferredRoundDeadlineMs = some roundEnd)
    (hd : d ∈ c.deadlines) (hnow : nowMs ≤ roundEnd)
    (hle : roundEnd + 5000 + c.policy.probationMs.toNat + 800 ≤ d) :
    c.freshThroughCutover nowMs = true := by
  have hlasts : nowMs ≤ d := by omega
  obtain ⟨e, hde, he⟩ := exists_committedHealthDeadline henabled hgood hd hlasts
  rw [freshThroughCutover, hround, he, Option.any_some, decide_eq_true_eq]
  simp only [Option.getD_some, satAdd, clientHandshakeTimeoutMs, timerIntervalMs,
    UInt64.reduceToNat]
  omega

/-- The rollback of a probation that begins while a deadline past it lasts. -/
theorem rollbackAt_of_deadline (henabled : c.policy.enabled = true)
    (hgood : c.committedGood = some good) (hd : d ∈ c.deadlines)
    (hle : t + c.policy.probationMs.toNat + 800 ≤ d) (hpolicy : c.policy.Accepted)
    (ht : t ≤ 2 ^ 63 + 2 ^ 62) :
    ∃ due e, c.rollbackAt t = some due ∧ t + c.policy.probationMs.toNat ≤ due ∧
      c.committedHealthDeadline t = some (good, e) ∧ due + 800 ≤ e := by
  have hlasts : t ≤ d := by omega
  obtain ⟨e, hde, he⟩ := exists_committedHealthDeadline henabled hgood hd hlasts
  have hwindow := hpolicy.window henabled
  have hprobation := hpolicy.probation
  have hrequired : t + c.policy.probationMs.toNat + 800
      ≤ min e (satAdd t c.policy.rollbackWindowMs.toNat) := by
    unfold satAdd u64Max
    omega
  have hhorizon : satAdd (satAdd t c.policy.probationMs.toNat) (2 * timerIntervalMs)
      ≤ min e (satAdd t c.policy.rollbackWindowMs.toNat) := by
    refine le_trans ?_ hrequired
    unfold satAdd timerIntervalMs
    omega
  refine ⟨min e (satAdd t c.policy.rollbackWindowMs.toNat) - 800, e, ?_, by omega, he, by omega⟩
  rw [rollbackAt, he]
  dsimp only [Option.map_some]
  rw [Option.filter_some, if_pos (decide_eq_true hhorizon)]
  rfl

variable {io : CycleIo} {target : Ipv4Addr}

/-- Only a host name is asked for. -/
theorem isDynamic_of_refresh {reason : CycleReason}
    (h : (c.refresh nowMs reason io).1 = some true) : c.isDynamic = true := by
  have hcont : Continues c { c.openRound nowMs reason with forceRefresh := false } :=
    (keeps_openRound c nowMs reason).toContinues.trans ⟨rfl, rfl, rfl, rfl, rfl, id, .inl rfl⟩
  unfold refresh at h
  dsimp only at h
  split_ifs at h
  generalize { c.openRound nowMs reason with forceRefresh := false } = c₁ at hcont h
  unfold query at h
  split_ifs at h with hname
  · cases h
  · rw [hcont.spec] at hname
    cases hspec : c.spec with
    | literal addr port => exact absurd (congrArg EndpointSpec.name? hspec) hname
    | hostname name port => exact congrArg EndpointSpec.isDynamic hspec

/-- The decision of a forced cycle whose answer prefers another address. -/
theorem onCycle_forced_of_prefers (hcur : c.currentV4 = some cur)
    (hprefers : c.Prefers nowMs io target) (wallNow : Nat) :
    ((c.onCycle nowMs wallNow .forced io).1, (c.onCycle nowMs wallNow .forced io).2.1)
      = (c.refresh nowMs .forced io).2.1.selectForced io.laterMs cur (some true) := by
  obtain ⟨hdue, hsucceeded, -⟩ := hprefers
  have hcur' : (c.refresh nowMs .forced io).2.1.currentV4 = some cur :=
    (c.refresh_spec nowMs .forced io).1.currentV4.trans hcur
  have hloss : c.noteLoss .forced = c := if_neg (by decide)
  unfold onCycle
  dsimp only
  rw [hloss, if_neg (by simp [isDynamic_of_refresh hsucceeded]), if_pos hdue, hsucceeded]
  simp only [select, hcur']

/-- A forced cycle leaves a committed, recently active address for the one the answer prefers,
if it decides while the round lasts. -/
theorem onCycle_forced_switches (hpolicy : c.policy.Accepted) (hnow : nowMs ≤ 2 ^ 63)
    (hround : c.preferredRoundDeadlineMs = none) (hcur : c.currentV4 = some cur)
    (hactive : c.ActiveAt nowMs cur) (hprefers : c.Prefers nowMs io target) (hne : target ≠ cur)
    (hdecided : c.policy.enabled = true →
      io.laterMs < nowMs + c.policy.preferredRoundTimeoutMs.toNat) (wallNow : Nat) :
    ∃ c₁, Continues c c₁ ∧
      ((c.onCycle nowMs wallNow .forced io).1, (c.onCycle nowMs wallNow .forced io).2.1)
        = c₁.switchTo target (.attendedCutover target) := by
  have hcont := (c.refresh_spec nowMs .forced io).1
  have hproven := provenAt_refresh c nowMs .forced io
  have hopen : (c.refresh nowMs .forced io).2.1.preferredRoundDeadlineMs
      = (c.startPreferredRound nowMs).preferredRoundDeadlineMs := by
    rw [round_refresh, openRound, if_pos (.inl rfl)]
  rw [onCycle_forced_of_prefers hcur hprefers]
  obtain ⟨rest, hcandidates⟩ := List.head?_eq_some_iff.mp hprefers.2.2
  generalize (c.refresh nowMs .forced io).2.1 = c₁ at hcont hproven hopen hcandidates ⊢
  have hstarted := hcont.trans (keeps_startPreferredRound c₁ io.laterMs).toContinues
  refine ⟨c₁.startPreferredRound io.laterMs, hstarted, ?_⟩
  have hpolicy₁ : c₁.policy = c.policy := congrArg EndpointOptions.lastGoodFallback hcont.opts
  cases henabled : c.policy.enabled with
  | false =>
    -- without limits no round is opened, so none expires
    have hclosed : c₁.roundExpired io.laterMs = false := by
      rw [roundExpired, hopen, startPreferredRound, if_neg (by simp [henabled]), hround]
      rfl
    refine selectForced_eq_switchTo hclosed hcandidates hne fun h => ?_
    rw [hpolicy₁, henabled] at h
    cases h
  | true =>
    rw [round_startPreferredRound henabled hround hnow hpolicy] at hopen
    have hlasts : c₁.roundExpired io.laterMs = false := by
      have hbefore := hdecided henabled
      rw [roundExpired, hopen, Option.any_some, decide_eq_false_iff_not]
      omega
    have hsame : c₁.startPreferredRound io.laterMs = c₁ := by
      rw [startPreferredRound, if_neg]
      simp [hopen]
    refine selectForced_eq_switchTo hlasts hcandidates hne fun henabled₁ hgood => ?_
    obtain ⟨d, hd, hle⟩ := hactive.deadline hpolicy henabled hnow
    rw [hsame]
    refine freshThroughCutover_of_deadline henabled₁ hgood hopen
      ((deadlines_congr hcont.opts hproven).symm ▸ hd) (hdecided henabled).le ?_
    rw [hpolicy₁]
    exact hle

/-- An authentication at an address that is not committed proves nothing of the committed one. -/
theorem provenAt_onAuthenticatedAt (henabled : c.policy.enabled = true)
    (hgood : c.committedGood = some good) (hcur : c.currentV4 = some cur) (hne : cur ≠ good)
    (nowMs : Nat) (write : WriteOutcome) :
    (c.onAuthenticatedAt nowMs write).2.1.provenAt = c.provenAt := by
  have hcur' : ({ c with
      currentAuthenticated := true
      reconnectRefreshPending := false
      backoff := c.backoff.onSuccess } : Controller).currentV4 = some cur := hcur
  have hbegins : ¬ (c.policy.enabled = false ∨ c.committedGood = none ∨
      c.committedGood = some cur) := by
    rw [henabled, hgood]
    simpa using hne.symm
  simp only [onAuthenticatedAt, hcur', if_neg hbegins]
  rfl

/-- What follows a cutover: the new address's probation, begun while the handshake may still
succeed, has a rollback that is due after the probation and to an address fresh past it. -/
theorem onAuthenticatedAt_after_cutover (hpolicy : c.policy.Accepted) (hnow : nowMs ≤ 2 ^ 63)
    (hactive : c.ActiveAt nowMs good) (hcur : c.currentV4 = some target) (hne : target ≠ good)
    (ht : t ≤ nowMs + c.policy.preferredRoundTimeoutMs.toNat + 5000) (write : WriteOutcome) :
    let after := (c.onAuthenticatedAt t write).2.1
    (c.policy.enabled = true → after.probation ≠ none) ∧
    ∀ p, after.probation = some p → p.candidate = target ∧ p.rollback = good ∧
      ∃ due, p.rollbackAtMs = some due ∧ t + c.policy.probationMs.toNat ≤ due ∧
        ∀ u ≤ due + 800, after.committedFresh u target = some good := by
  obtain ⟨hauthenticated, h⟩ := onAuthenticatedAt_cases c t write
  dsimp only at h ⊢
  obtain ⟨hv6, -⟩ | ⟨cur, hcur', hcommits, -, hnone, -⟩ |
    ⟨cur, rollback, hcur', henabled, hrollback, -, hcommitted, hbegun, -⟩ := h
  · rw [hcur] at hv6
    cases hv6
  · obtain rfl : target = cur := Option.some.inj (hcur.symm.trans hcur')
    refine ⟨fun henabled => ?_, fun p hp => ?_⟩
    · rw [henabled, hactive.1] at hcommits
      exact absurd hcommits (by simpa using hne.symm)
    · rw [hnone] at hp
      cases hp
  · obtain rfl : target = cur := Option.some.inj (hcur.symm.trans hcur')
    obtain rfl : good = rollback := Option.some.inj (hactive.1.symm.trans hrollback)
    refine ⟨fun _ => by simp [hbegun], fun p hp => ?_⟩
    obtain rfl := Option.some.inj (hbegun.symm.trans hp)
    obtain ⟨d, hd, hle⟩ := hactive.deadline hpolicy henabled hnow
    have hround := hpolicy.roundTimeout
    have hpast : t + c.policy.probationMs.toNat + 800 ≤ d := by omega
    obtain ⟨due, e, hdue, hspan, he, hgrace⟩ := rollbackAt_of_deadline henabled hactive.1 hd hpast
      hpolicy (by omega)
    refine ⟨rfl, rfl, due, hdue, hspan, fun u hu => ?_⟩
    obtain ⟨-, -, hmem, -, -⟩ := committedHealthDeadline_eq_some_iff.mp he
    -- the authentication leaves the committed address and its proofs as they were
    have hproven := provenAt_onAuthenticatedAt henabled hactive.1 hcur hne t write
    rw [← deadlines_congr hauthenticated.opts hproven] at hmem
    have henabled' : (c.onAuthenticatedAt t write).2.1.policy.enabled = true := by
      rw [policy, hauthenticated.opts]
      exact henabled
    have hlasts : u ≤ e := hu.trans hgrace
    obtain ⟨e', hee', he'⟩ :=
      exists_committedHealthDeadline henabled' (hcommitted.trans hactive.1) hmem hlasts
    exact committedFresh_of_le_deadline he' (hlasts.trans hee') hne.symm

/-- A policy that `parse_args` accepts suffices for attended cutovers. From a committed address
that was active at most `CLIENT_CONN_TIMEOUT_MS` before, a forced cycle that prefers another one
and decides within its round switches to it. Whatever happens then, if that address
authenticates at most one handshake after the round, its probation can be rolled back from
after it lasted its time, and the committed address stays a target through two timer intervals
more. -/
theorem cutover_keeps_rollback {cli : FallbackArgs} {remote : EndpointSpec} {c : Controller}
    {start wallNow : Nat} {good target : Ipv4Addr} {io : CycleIo}
    (hpolicy : fallbackPolicy cli remote = .ok c.policy) (hstart : start ≤ 2 ^ 63)
    (hround : c.preferredRoundDeadlineMs = none) (hcur : c.currentV4 = some good)
    (hactive : c.ActiveAt start good) (hprefers : c.Prefers start io target) (hne : target ≠ good)
    (hdecided : c.policy.enabled = true →
      io.laterMs < start + c.policy.preferredRoundTimeoutMs.toNat) :
    (c.onCycle start wallNow .forced io).1
      = some ⟨c.current, (.v4 target, c.spec.port), .attendedCutover target⟩ ∧
    ∀ between : List Request, (∀ r ∈ between, r.proves = false) →
      let arrived := (c.onCycle start wallNow .forced io).2.1.afterCalls between
      arrived.currentV4 = some target →
      ∀ t write, start ≤ t → t ≤ start + c.policy.preferredRoundTimeoutMs.toNat + 5000 →
        let after := (arrived.onAuthenticatedAt t write).2.1
        (c.policy.enabled = true → after.probation ≠ none) ∧
        ∀ p, after.probation = some p → p.candidate = target ∧ p.rollback = good ∧
          ∃ due, p.rollbackAtMs = some due ∧ t + c.policy.probationMs.toNat ≤ due ∧
            ∀ u ≤ due + 800, after.committedFresh u target = some good := by
  have haccepted := fallbackPolicy_accepted hpolicy
  obtain ⟨c₁, hcont, hcycle⟩ := onCycle_forced_switches haccepted hstart hround hcur hactive
    hprefers hne hdecided wallNow
  have hcur₁ : c₁.currentV4 = some good := hcont.currentV4.trans hcur
  have hswitch : (c.onCycle start wallNow .forced io).1
      = some ⟨c.current, (.v4 target, c.spec.port), .attendedCutover target⟩ := by
    rw [congrArg Prod.fst hcycle, switchTo_of_ne hcur₁ hne, hcont.current, hcont.spec]
  refine ⟨hswitch, ?_⟩
  intro between hbetween arrived harrived t write _ ht
  have hcycled := cycled_onCycle c start wallNow .forced io
  obtain ⟨_, _, _, hunauthenticated, _⟩ := hcycled.leaves _ hswitch
  have hrests := rests_afterCalls hunauthenticated hbetween
  have hopts : arrived.opts = c.opts := hrests.opts.trans hcycled.opts
  have hpolicy' : arrived.policy = c.policy := congrArg EndpointOptions.lastGoodFallback hopts
  have hactive' : arrived.ActiveAt start good := by
    obtain ⟨hgood, last, hlast, hrecent⟩ := hactive
    have hproven : arrived.provenAt = c.provenAt := hrests.proven.trans (provenAt_onCycle ..)
    have hactivity : arrived.committedRuntimeActivityMs = c.committedRuntimeActivityMs :=
      congrArg Prod.fst hproven
    exact ⟨hrests.committed.trans (hcycled.committed.trans hgood), last,
      hactivity.trans hlast, hrecent⟩
  have h := onAuthenticatedAt_after_cutover (hpolicy' ▸ haccepted) hstart hactive' harrived hne
    (hpolicy' ▸ ht) write
  rwa [hpolicy'] at h

/-- A controller with the limits, at an address it committed and that was active at time 0. -/
def settledAt (good : Ipv4Addr) : Controller :=
  { blank (.hostname [120] 443)
      { cacheFile := true, lastGoodFallback := { enabled := true } } 0 with
    current := (.v4 good, 443)
    currentAuthenticated := true
    committedGood := some good
    committedRuntimeActivityMs := some 0 }

/-- A cycle that DNS answers with one address. -/
def answeredWith (target : Ipv4Addr) : CycleIo :=
  ⟨some ⟨[target], 60⟩, 0, 20000, 1020, ⟨false, .absent, .refused⟩, ⟨false, .absent, .refused⟩⟩

/-- A cutover ten seconds after the last activity, authenticated within half a minute. -/
theorem cutover_keeps_rollback_default :
    ((settledAt (.replicate 4 9)).onCycle 10000 1010 .forced (answeredWith (.replicate 4 8))).1
      = some ⟨(.v4 (.replicate 4 9), 443), (.v4 (.replicate 4 8), 443),
        .attendedCutover (.replicate 4 8)⟩ ∧
    ∃ p due, (((settledAt (.replicate 4 9)).onCycle 10000 1010 .forced
        (answeredWith (.replicate 4 8))).2.1.onAuthenticatedAt 40000 .written).2.1.probation
          = some p ∧
      p.rollbackAtMs = some due ∧ 40000 + 30000 ≤ due := by
  obtain ⟨hswitch, hafter⟩ := @cutover_keeps_rollback { fifo := true, lastGoodFallback := true }
    (.hostname [120] 443) (settledAt (.replicate 4 9)) 10000 1010 (.replicate 4 9) (.replicate 4 8)
    (answeredWith (.replicate 4 8)) (by decide +kernel) (by decide) rfl rfl
    ⟨rfl, 0, rfl, by decide⟩ ⟨by decide +kernel, by decide +kernel, by decide +kernel⟩ (by decide)
    (fun _ => by decide)
  refine ⟨hswitch, ?_⟩
  obtain ⟨hbegun, hrollback⟩ := hafter [] (fun r hr => by cases hr) (by decide +kernel) 40000
    .written (by decide) (by decide)
  obtain ⟨p, hp⟩ := Option.ne_none_iff_exists'.mp (hbegun rfl)
  obtain ⟨-, -, due, hdue, hspan, -⟩ := hrollback p hp
  exact ⟨p, due, hp, hdue, hspan⟩

end Controller

end Udp2raw
