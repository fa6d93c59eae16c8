import Udp2raw.Endpoint.PerSetBudget
import Udp2raw.Endpoint.Safety

/-!
# Preferred rounds

A failed attempt leads back to the committed address, on to the next DNS candidate, or
ends the round of candidates when its deadline has passed. The ways back leave the
deadline as it is, so a passed one may survive a cycle, but only at the committed
address, where the next failed attempt clears it.
-/

namespace Udp2raw

namespace Controller

variable {c c₁ c' : Controller} {t nowMs wallNow : Nat} {cur : Ipv4Addr}
  {probe : ChargeIo} {earlier events : List EndpointEvent}

/-! ## The deadline of a round -/

/-- A charge keeps the round. -/
theorem round_chargeFallback (c : Controller) (wallNow : Nat) (candidate : Ipv4Addr)
    (io : ChargeIo) :
    (c.chargeFallback wallNow candidate io).2.1.preferredRoundDeadlineMs
      = c.preferredRoundDeadlineMs := by
  unfold chargeFallback
  split_ifs
  · rfl
  · split
    · rfl
    · split <;> rfl

theorem round_returnDue (c : Controller) (nowMs wallNow : Nat) (cur : Ipv4Addr) (io : ChargeIo) :
    (c.returnDue nowMs wallNow cur io).2.1.preferredRoundDeadlineMs
      = c.preferredRoundDeadlineMs := by
  unfold returnDue
  split
  · rfl
  · split_ifs
    · rfl
    · exact round_chargeFallback ..
    · rfl

theorem round_probeDue (c : Controller) (nowMs wallNow : Nat) (cur : Ipv4Addr) (io : ChargeIo) :
    (c.probeDue nowMs wallNow cur io).2.1.preferredRoundDeadlineMs
      = c.preferredRoundDeadlineMs := by
  unfold probeDue
  split_ifs
  · split
    · exact round_chargeFallback ..
    · rfl
  · rfl

theorem round_switchTo (c : Controller) (target : Ipv4Addr) (why : SwitchWhy) :
    (c.switchTo target why).2.preferredRoundDeadlineMs = c.preferredRoundDeadlineMs := by
  unfold switchTo
  split
  · rfl
  · split_ifs
    · rfl
    · rfl

/-- After a switch the target is current. -/
theorem currentV4_switchTo (hcur : c.currentV4 = some cur) (target : Ipv4Addr) (why : SwitchWhy) :
    (c.switchTo target why).2.currentV4 = some target := by
  simp only [switchTo, hcur]
  split_ifs with h
  · rw [h]
    exact hcur
  · rfl

theorem roundExpired_congr (h : c₁.preferredRoundDeadlineMs = c.preferredRoundDeadlineMs) :
    c₁.roundExpired t = c.roundExpired t := by
  rw [roundExpired, roundExpired, h]

/-- An open round is not started again. -/
theorem startPreferredRound_of_open (h : c.preferredRoundDeadlineMs ≠ none) :
    c.startPreferredRound t = c := if_neg fun hstart => h hstart.2

theorem round_startPreferredRound_congr (hopts : c₁.opts = c.opts)
    (hround : c₁.preferredRoundDeadlineMs = c.preferredRoundDeadlineMs) :
    (c₁.startPreferredRound t).preferredRoundDeadlineMs
      = (c.startPreferredRound t).preferredRoundDeadlineMs := by
  unfold startPreferredRound
  rw [policy, policy, hopts, hround]
  split_ifs
  · rfl
  · exact hround

theorem open_of_roundExpired (h : c.roundExpired t = true) : c.preferredRoundDeadlineMs ≠ none := by
  intro hnone
  rw [roundExpired, hnone] at h
  cases h

/-! ## The budget of a probe -/

/-- A charge is granted to a pair that has attempts left, or for the first time. -/
theorem chargesFor_of_granted {good : Ipv4Addr} {io : ChargeIo}
    (h : (c.chargeFallback wallNow good io).1 = true) :
    chargesFor (good, c.canonicalCandidates) io.file.entries
      < max 1 c.policy.maxAttempts.toNat := by
  obtain ⟨hdenied, -⟩ | ⟨name, loaded, next, -, hload, hnext, -⟩ :=
    c.chargeFallback_cases wallNow good io
  · rw [hdenied] at h
    cases h
  · have hrecorded := precharged_recorded hnext
    cases loaded with
    | none =>
      rw [loadFallbackState_none hload]
      exact hrecorded.chargesFor_lt List.nodup_nil
    | some s =>
      have hkept := wellKept_start (.inr ⟨_, _, _, _, _, s, hload⟩)
      have hentries : io.file.entries = s.entries := by
        rw [(loadFallbackState_some hload).1]
        rfl
      rw [hentries] at hkept ⊢
      exact hrecorded.chargesFor_lt hkept.1

/-- A probe that is due was below the limit of its pair. -/
theorem chargesFor_of_probeDue {good : Ipv4Addr} {io : ChargeIo}
    (h : (c.probeDue nowMs wallNow cur io).1 = some good) :
    chargesFor (good, c.canonicalCandidates) io.file.entries
      < max 1 c.policy.maxAttempts.toNat := by
  unfold probeDue at h
  split_ifs at h
  split at h
  · dsimp only at h
    split_ifs at h with hgranted
    obtain rfl := Option.some.inj h
    exact chargesFor_of_granted hgranted
  · cases h

/-! ## What a failed attempt decides -/

/-- What a failed attempt at `cur`, decided at time `t`, can lead to; `probe` is what the charge
of a probe meets. -/
inductive Retried (c : Controller) (t : Nat) (cur : Ipv4Addr) (probe : ChargeIo)
    (c' : Controller) (events : List EndpointEvent) : Prop where
  /-- Back to the committed address, on the authority of a probation or of the operator. -/
  | returned {good : Ipv4Addr} (hgood : c.committedGood = some good) (hother : cur ≠ good)
      (hcur : c'.currentV4 = some good)
      (hround : c'.preferredRoundDeadlineMs = c.preferredRoundDeadlineMs)
      (hused : (c.probation ≠ none ∧ c'.probation = none) ∨
        (c.attendedCutover = true ∧ c'.attendedCutover = false))
  /-- A charged probe of the committed address, which had attempts left. -/
  | probed {good : Ipv4Addr} (hgood : c.committedGood = some good) (hother : cur ≠ good)
      (hcur : c'.currentV4 = some good) (hround : c'.preferredRoundDeadlineMs = none)
      (hcharged : Charged events)
      (hleft : chargesFor (good, c.canonicalCandidates) probe.file.entries
        < max 1 c.policy.maxAttempts.toNat)
  /-- The round is over. -/
  | ended (hexpired : (c.startPreferredRound t).roundExpired t = true)
      (hcur : c'.currentV4 = some cur) (hround : c'.preferredRoundDeadlineMs = none)
  /-- On to the next candidate, if there is another one. -/
  | continued (hlasts : c.roundExpired t = false)
      (hcur : c'.currentV4 = some ((c.nextDnsCandidate cur).getD cur))
      (hround : c'.preferredRoundDeadlineMs
        = (c.startPreferredRound t).preferredRoundDeadlineMs)

theorem nextDnsCandidate_congr (h : c₁.candidates = c.candidates) :
    c₁.nextDnsCandidate cur = c.nextDnsCandidate cur := by
  unfold nextDnsCandidate canonicalCandidates
  rw [h]

theorem Charged.append_right (earlier : List EndpointEvent) (h : Charged events) :
    Charged (earlier ++ events) := by
  obtain ⟨state, hmem⟩ := h
  exact ⟨state, List.mem_append_right _ hmem⟩

/-- What does not touch candidates and round may come before the decision. -/
theorem Retried.after (hcont : Keeps c c₁)
    (hround : c₁.preferredRoundDeadlineMs = c.preferredRoundDeadlineMs)
    (h : Retried c₁ t cur probe c' events) : Retried c t cur probe c' (earlier ++ events) := by
  have hstart := round_startPreferredRound_congr (t := t) hcont.opts hround
  cases h with
  | returned hgood hother hcur hround' hused =>
    refine .returned (hcont.committed ▸ hgood) hother hcur (hround'.trans hround) ?_
    obtain ⟨hsome, hnone⟩ | ⟨hattended, hfalse⟩ := hused
    · refine .inl ⟨fun h => hsome ?_, hnone⟩
      obtain hsame | hended := hcont.probation
      · exact hsame.trans h
      · exact hended
    · exact .inr ⟨hcont.attended hattended, hfalse⟩
  | probed hgood hother hcur hround' hcharged hleft =>
    refine .probed (hcont.committed ▸ hgood) hother hcur hround'
      (hcharged.append_right earlier) ?_
    rwa [canonicalCandidates, hcont.candidates, policy, hcont.opts] at hleft
  | ended hexpired hcur hround' =>
    exact .ended (roundExpired_congr hstart ▸ hexpired) hcur hround'
  | continued hlasts hcur hround' =>
    refine .continued (roundExpired_congr hround ▸ hlasts) ?_ (hround'.trans hstart)
    rw [hcur, nextDnsCandidate_congr hcont.candidates]

/-- The move to the next candidate. -/
theorem nextCandidate_spec (hcur : c.currentV4 = some cur) (why : Ipv4Addr → SwitchWhy) :
    let decision := match (c.nextDnsCandidate cur).filter (· ≠ cur) with
      | some next => c.switchTo next (why next)
      | none => (none, c)
    decision.2.currentV4 = some ((c.nextDnsCandidate cur).getD cur) ∧
      decision.2.preferredRoundDeadlineMs = c.preferredRoundDeadlineMs := by
  dsimp only
  split
  next next hnext =>
    rw [(Option.filter_eq_some_iff.mp hnext).1]
    exact ⟨currentV4_switchTo hcur next (why next), round_switchTo ..⟩
  next hnone =>
    refine ⟨hcur.trans ?_, rfl⟩
    cases hnext : c.nextDnsCandidate cur with
    | none => rfl
    | some next =>
      rw [hnext, Option.filter_eq_none_iff] at hnone
      have hsame : next = cur := by simpa using hnone next rfl
      rw [Option.getD_some, hsame]

/-- Retrying the committed address. -/
theorem retried_retryCommitted (hcur : c.currentV4 = some cur) :
    Retried c t cur probe (c.retryCommitted t cur).2 [] := by
  unfold retryCommitted
  split_ifs with hexpired
  · refine .ended ?_ hcur rfl
    rw [startPreferredRound_of_open (open_of_roundExpired hexpired)]
    exact hexpired
  · have hstart := keeps_startPreferredRound c t
    obtain ⟨hnext, hround⟩ := nextCandidate_spec (hstart.currentV4.trans hcur)
      (.committedFailed cur)
    refine .continued (Bool.eq_false_iff.mpr hexpired) (hnext.trans ?_) hround
    rw [nextDnsCandidate_congr hstart.candidates]

/-- Taking the next candidate of the round. -/
theorem retried_nextInRound (hcur : c.currentV4 = some cur)
    (hcandidates : c.candidates = c₁.candidates)
    (hround : c.preferredRoundDeadlineMs = (c₁.startPreferredRound t).preferredRoundDeadlineMs) :
    Retried c₁ t cur probe (c.nextInRound t cur).2 events := by
  unfold nextInRound
  split_ifs with hexpired
  · exact .ended (roundExpired_congr hround ▸ hexpired) hcur rfl
  · obtain ⟨hnext, hround'⟩ := nextCandidate_spec hcur (.handshakeFailed cur)
    refine .continued ?_ (nextDnsCandidate_congr hcandidates ▸ hnext) (hround'.trans hround)
    by_contra hopen
    rw [Bool.not_eq_false] at hopen
    rw [startPreferredRound_of_open (open_of_roundExpired hopen)] at hround
    exact hexpired (roundExpired_congr hround ▸ hopen)

/-- What follows the failure of a candidate. -/
theorem retried_candidateFailed (hcur : c.currentV4 = some cur) (wallNow : Nat) (io : ChargeIo) :
    Retried c t cur io (c.candidateFailed t wallNow cur io).2.1
      (c.candidateFailed t wallNow cur io).2.2 := by
  have hcount := keeps_countFailure c t
  have hround : (c.countFailure t).preferredRoundDeadlineMs
      = (c.startPreferredRound t).preferredRoundDeadlineMs := rfl
  obtain ⟨hprobe, -, hgood⟩ := probeDue_spec (List.mem_singleton_self io)
    (hcount.currentV4.trans hcur) t wallNow
  have hkept := (round_probeDue (c.countFailure t) t wallNow cur io).trans hround
  unfold candidateFailed
  split
  next good c₁ events heq =>
    rw [heq] at hprobe hgood
    obtain ⟨hfresh, hcharged⟩ := hgood good rfl
    have hcur₁ : c₁.currentV4 = some cur := (hprobe.currentV4.trans hcount.currentV4).trans hcur
    refine .probed (hcount.committed ▸ committed_of_committedFresh hfresh)
      (other_of_committedFresh hfresh) ?_ (round_switchTo ..) hcharged ?_
    · apply currentV4_switchTo
      exact hcur₁
    · have hleft := chargesFor_of_probeDue (congrArg Prod.fst heq)
      rwa [canonicalCandidates, hcount.candidates, policy, hcount.opts] at hleft
  next c₁ events heq =>
    rw [heq] at hprobe hkept
    have hsame := hcount.trans hprobe
    exact retried_nextInRound (hsame.currentV4.trans hcur) hsame.candidates hkept

/-- What follows a failed attempt. -/
theorem retried_attemptFailed (hcur : c.currentV4 = some cur) (wallNow : Nat) (io : ChargeIo) :
    Retried c t cur io (c.attemptFailed t wallNow cur io).2.1
      (c.attemptFailed t wallNow cur io).2.2 := by
  unfold attemptFailed
  split
  next rollback hrollback =>
    split_ifs at hrollback with hattended
    obtain ⟨hgood, hne⟩ := Option.filter_eq_some_iff.mp hrollback
    refine .returned hgood (of_decide_eq_true hne).symm ?_ (round_switchTo ..)
      (.inr ⟨hattended, ?_⟩)
    · apply currentV4_switchTo
      exact hcur
    · unfold switchTo
      split
      · rfl
      · split_ifs <;> rfl
  next =>
    split_ifs
    · exact retried_retryCommitted hcur
    · exact retried_candidateFailed hcur wallNow io

/-- Every failed attempt leads to one of these. -/
theorem retried_selectAttemptFailed (hcur : c.currentV4 = some cur) (wallNow : Nat) (io : CycleIo) :
    Retried c t cur io.probeCharge (c.selectAttemptFailed t wallNow cur io).2.1
      (c.selectAttemptFailed t wallNow cur io).2.2 := by
  obtain ⟨hcont, -, hdue⟩ :=
    returnDue_spec (List.mem_singleton_self io.returnCharge) hcur t wallNow
  have hround := round_returnDue c t wallNow cur io.returnCharge
  unfold selectAttemptFailed
  split
  next rollback c₁ events heq =>
    obtain ⟨p, hp, -, hfresh, -⟩ := hdue rollback (congrArg Prod.fst heq)
    rw [heq] at hcont hround
    have hcur₁ : c₁.currentV4 = some cur := hcont.currentV4.trans hcur
    refine .returned (committed_of_committedFresh hfresh) (other_of_committedFresh hfresh)
      ?_ ((round_switchTo ..).trans hround) (.inl ⟨?_, ?_⟩)
    · apply currentV4_switchTo
      exact hcur₁
    · rw [hp]
      exact Option.some_ne_none p
    · unfold switchTo
      split
      · rfl
      · split_ifs <;> rfl
  next c₁ events heq =>
    rw [heq] at hcont hround
    exact (retried_attemptFailed (hcont.currentV4.trans hcur) wallNow io.probeCharge).after hcont
      hround

/-! ## Cycles after a failed attempt -/

/-- When a cycle after a failed attempt decides: after its query, if a refresh is due. -/
def decisionMs (c : Controller) (nowMs : Nat) (io : CycleIo) : Nat :=
  if c.refreshIsDue nowMs then io.laterMs else nowMs

/-- The state in which it decides. -/
def prepared (c : Controller) (nowMs : Nat) (io : CycleIo) : Controller :=
  if c.refreshIsDue nowMs then (c.refresh nowMs .attemptFailed io).2.1 else c

theorem continues_prepared (c : Controller) (nowMs : Nat) (io : CycleIo) :
    Continues c (c.prepared nowMs io) := by
  unfold prepared
  split_ifs
  · exact (c.refresh_spec nowMs .attemptFailed io).1
  · exact .refl c

/-- Asking keeps the round or opens one. -/
theorem round_prepared (c : Controller) (nowMs : Nat) (io : CycleIo) :
    (c.prepared nowMs io).preferredRoundDeadlineMs = c.preferredRoundDeadlineMs ∨
    (c.refreshIsDue nowMs = true ∧ (c.prepared nowMs io).preferredRoundDeadlineMs
      = (c.startPreferredRound nowMs).preferredRoundDeadlineMs) := by
  unfold prepared
  split_ifs with hdue
  · refine .inr ⟨hdue, ?_⟩
    rw [round_refresh, openRound, if_pos (.inr (.inr rfl))]
  · exact .inl rfl

/-- What a failed attempt asks, and the clock it decides by. -/
theorem asked_attemptFailed (c : Controller) (nowMs wallNow : Nat) (io : CycleIo) :
    (c.asked nowMs .attemptFailed io).2.1 = c.prepared nowMs io ∧
      (c.decidedAt nowMs wallNow .attemptFailed io).1 = c.decisionMs nowMs io := by
  have hloss : c.noteLoss .attemptFailed = c := if_neg (by decide)
  unfold asked decidedAt prepared decisionMs
  rw [hloss]
  split_ifs
  · exact ⟨rfl, rfl⟩
  · exact ⟨rfl, rfl⟩

/-- A cycle after a failed attempt has one of these outcomes. -/
theorem retried_onCycle (hd : c.isDynamic = true) (hcur : c.currentV4 = some cur)
    (nowMs wallNow : Nat) (io : CycleIo) :
    Retried (c.prepared nowMs io) (c.decisionMs nowMs io) cur io.probeCharge
      (c.onCycle nowMs wallNow .attemptFailed io).2.1
      (c.onCycle nowMs wallNow .attemptFailed io).2.2 := by
  have hprepared := (continues_prepared c nowMs io).currentV4.trans hcur
  obtain ⟨hasked, hclock⟩ := asked_attemptFailed c nowMs wallNow io
  simp only [onCycle_eq hd, hasked, hclock, select, hprepared]
  exact (retried_selectAttemptFailed hprepared _ io).after (.refl _) rfl

/-! ## Two failed attempts -/

/-- A round lasts while its deadline is ahead. -/
theorem roundExpired_eq_false_iff :
    c.roundExpired t = false ↔ ∀ d, c.preferredRoundDeadlineMs = some d → t < d := by
  unfold roundExpired
  cases c.preferredRoundDeadlineMs with
  | none => simp
  | some d => simp

/-- A round that starts now has not expired. -/
theorem roundExpired_startPreferredRound (hlasts : c.roundExpired t = false)
    (hnow : t < nowMs + c.policy.preferredRoundTimeoutMs.toNat) (hclock : t < u64Max) :
    (c.startPreferredRound nowMs).roundExpired t = false := by
  unfold startPreferredRound
  split_ifs
  · refine roundExpired_eq_false_iff.mpr fun d hd => ?_
    obtain rfl := Option.some.inj hd
    unfold satAdd
    omega
  · exact hlasts

/-- While the round lasts, a failed attempt leaves none that has expired. -/
theorem Retried.lasting (h : Retried c t cur probe c' events) (hlasts : c.roundExpired t = false)
    (htimeout : 0 < c.policy.preferredRoundTimeoutMs.toNat) (hclock : t < u64Max) :
    c'.roundExpired t = false := by
  have hclosed : c'.preferredRoundDeadlineMs = none → c'.roundExpired t = false := by
    intro hnone
    rw [roundExpired, hnone]
    rfl
  cases h with
  | returned _ _ _ hround _ => exact roundExpired_congr hround ▸ hlasts
  | probed _ _ _ hround => exact hclosed hround
  | ended _ _ hround => exact hclosed hround
  | continued _ _ hround =>
    rw [roundExpired_congr hround]
    exact roundExpired_startPreferredRound hlasts (by omega) hclock

/-- When the round has expired, a failed attempt clears its deadline or returns to the committed
address. -/
theorem Retried.expired (h : Retried c t cur probe c' events) (hexpired : c.roundExpired t = true) :
    c'.preferredRoundDeadlineMs = none ∨
    (c'.preferredRoundDeadlineMs = c.preferredRoundDeadlineMs ∧
      ∃ good, c.committedGood = some good ∧ cur ≠ good ∧ c'.currentV4 = some good) := by
  cases h with
  | returned hgood hother hcur hround _ => exact .inr ⟨hround, _, hgood, hother, hcur⟩
  | probed _ _ _ hround => exact .inl hround
  | ended _ _ hround => exact .inl hround
  | continued hlasts =>
    rw [hlasts] at hexpired
    cases hexpired

/-- An open round stays as it is until the decision. -/
theorem round_prepared_of_open {d : Nat} (h : c.preferredRoundDeadlineMs = some d) (nowMs : Nat)
    (io : CycleIo) : (c.prepared nowMs io).preferredRoundDeadlineMs = some d := by
  obtain hsame | ⟨-, hstart⟩ := round_prepared c nowMs io
  · exact hsame.trans h
  · rw [hstart, startPreferredRound_of_open (by rw [h]; exact Option.some_ne_none d), h]

/-- A preferred round never wedges the client. Two cycles after failed attempts, each of which
decides less than the round timeout after it starts, and both at or past the deadline of the
round there was: after the second that deadline is cleared, or there is one that is still to
come. So where `preferred_round_expired` makes the client give up the attempt that the second
cycle selected, it is for a later round. -/
theorem preferred_round_ends {name : List UInt8} {port : UInt16} {opts : EndpointOptions}
    {log : List Occurrence} {c : Controller} {d n₁ wall₁ n₂ wall₂ : Nat} {io₁ io₂ : CycleIo}
    (hreached : Reached (.hostname name port) opts log c)
    (hround : c.preferredRoundDeadlineMs = some d) :
    let m₁ := c.decisionMs n₁ io₁
    let c₁ := (c.onCycle n₁ wall₁ .attemptFailed io₁).2.1
    let m₂ := c₁.decisionMs n₂ io₂
    let c₂ := (c₁.onCycle n₂ wall₂ .attemptFailed io₂).2.1
    n₁ ≤ m₁ → m₁ ≤ n₂ → n₂ ≤ m₂ → m₂ < u64Max →
    m₁ < n₁ + opts.lastGoodFallback.preferredRoundTimeoutMs.toNat →
    m₂ < n₂ + opts.lastGoodFallback.preferredRoundTimeoutMs.toNat →
    d ≤ m₁ → d ≤ m₂ →
    (∀ d', c₂.preferredRoundDeadlineMs = some d' → m₂ < d') ∧
      ∀ now, c₂.roundExpired now = true →
        ∃ d', c₂.preferredRoundDeadlineMs = some d' ∧ d < d' ∧ m₂ < d' ∧ d' ≤ now := by
  intro m₁ c₁ m₂ c₂ hstart₁ hlater hstart₂ hclock hquick₁ hquick₂ hd₁ hd₂
  suffices hlasts : c₂.roundExpired m₂ = false by
    have hlater := roundExpired_eq_false_iff.mp hlasts
    refine ⟨hlater, fun now hnow => ?_⟩
    obtain ⟨d', hd', hle⟩ := (Option.any_eq_true _ _).mp hnow
    exact ⟨d', hd', hd₂.trans_lt (hlater d' hd'), hlater d' hd', of_decide_eq_true hle⟩
  obtain ⟨hspec, hopts⟩ := hreached.spec_opts
  have hcycled := cycled_onCycle c n₁ wall₁ .attemptFailed io₁
  have hd : c.isDynamic = true := by rw [isDynamic, hspec]; rfl
  have hdynamic₁ : c₁.isDynamic = true := by rw [isDynamic, hcycled.spec]; exact hd
  have hpolicy₁ : c₁.policy = opts.lastGoodFallback :=
    congrArg EndpointOptions.lastGoodFallback (hcycled.opts.trans hopts)
  obtain ⟨cur, hcur, -⟩ := hreached.addressSafe.placed
  obtain ⟨cur₁, hcur₁, -⟩ :=
    (evolves_onCycle c n₁ wall₁ .attemptFailed io₁).invariant (fun _ _ => AddressSafe.relocates)
      hreached.addressSafe |>.placed
  have hprepared := round_prepared_of_open hround n₁ io₁
  have hcont₁ := continues_prepared c₁ n₂ io₂
  have hretried := retried_onCycle hdynamic₁ hcur₁ n₂ wall₂ io₂
  obtain hcleared | ⟨hkept, good, hgood, -, hback⟩ :=
    (retried_onCycle hd hcur n₁ wall₁ io₁).expired
      (by rw [roundExpired, hprepared, Option.any_some, decide_eq_true hd₁])
  · -- a round that the second cycle opens lasts until after its decision
    have hclosed : c₁.roundExpired m₂ = false := by
      rw [roundExpired, hcleared]
      rfl
    have htimeout : 0 < (c₁.prepared n₂ io₂).policy.preferredRoundTimeoutMs.toNat := by
      rw [policy, hcont₁.opts, ← policy, hpolicy₁]
      omega
    refine hretried.lasting ?_ htimeout hclock
    obtain hsame | ⟨-, hopened⟩ := round_prepared c₁ n₂ io₂
    · exact (roundExpired_congr hsame).trans hclosed
    · refine (roundExpired_congr hopened).trans
        (roundExpired_startPreferredRound hclosed ?_ hclock)
      rw [hpolicy₁]
      exact hquick₂
  · -- the deadline is still there, but the endpoint is the committed one
    obtain hcleared | ⟨-, good', hgood', hother, -⟩ := hretried.expired (by
      rw [roundExpired, round_prepared_of_open (hkept.trans hprepared), Option.any_some,
        decide_eq_true hd₂])
    · rw [roundExpired, hcleared]
      rfl
    · rw [hcont₁.committed, hcycled.committed, ← (continues_prepared c n₁ io₁).committed,
        hgood] at hgood'
      obtain rfl := Option.some.inj (hcur₁.symm.trans hback)
      exact absurd (Option.some.inj hgood') hother

/-- The round of a start that fails twice, with no answer from DNS. -/
theorem preferred_round_ends_startup :
    ∃ log c, Reached (.hostname [120] 443) cachedOpts log c ∧
      c.preferredRoundDeadlineMs = some 30000 ∧
      let c₁ := (c.onCycle 60000 1060 .attemptFailed (answering 60100 none)).2.1
      let c₂ := (c₁.onCycle 63000 1063 .attemptFailed (answering 63100 none)).2.1
      (∀ d', c₂.preferredRoundDeadlineMs = some d' →
        c₁.decisionMs 63000 (answering 63100 none) < d') ∧
      ∀ now, c₂.roundExpired now = true → ∃ d', c₂.preferredRoundDeadlineMs = some d' ∧
        30000 < d' ∧ c₁.decisionMs 63000 (answering 63100 none) < d' ∧ d' ≤ now := by
  obtain ⟨log, c, hrun, h⟩ := exists_reached_of_replay (.hostname [120] 443) cachedOpts
    firstBoot [] (fun _ c => c.preferredRoundDeadlineMs = some 30000 ∧
      c.decisionMs 60000 (answering 60100 none) = 60100 ∧
      (c.onCycle 60000 1060 .attemptFailed (answering 60100 none)).2.1.decisionMs 63000
        (answering 63100 none) = 63100) (by decide +kernel)
  obtain ⟨hround, hm₁, hm₂⟩ := of_decide_eq_true h
  refine ⟨log, c, hrun, hround, ?_⟩
  apply preferred_round_ends hrun hround <;> first | (rw [hm₁]; decide) | (rw [hm₂]; decide)

end Controller

end Udp2raw
