import Udp2raw.Endpoint.Runs

/-!
# Evidence for a promotion

A probation keeps three numbers: when the current stretch of data began, when its
last packet came, and how many there were. Over any run they summarise a suffix of
the data the candidate has delivered since it authenticated, without a gap that is
too long, and a promotion is granted only on such a suffix.
-/

namespace Udp2raw

namespace Controller

variable {c : Controller} {log : List Occurrence}

/-! ## Data in the log -/

/-- The time of a call, if it has one. -/
def Request.time : Request → Option Nat
  | .onCycle nowMs _ _ _ => some nowMs
  | .onAuthenticated nowMs _ => some nowMs
  | .onAuthenticatedActivity nowMs _ => some nowMs
  | .onSessionEnded => none
  | .requestRefresh => none
  | .probationRollbackDue nowMs _ _ => some nowMs
  | .authorizeOperatorRollback _ nowMs _ _ => some nowMs
  | .promoteCandidate _ nowMs _ => some nowMs

/-- The time of a call that was made. -/
def Occurrence.time (o : Occurrence) : Option Nat := o.request.time

/-- The calls come at nondecreasing times. -/
def Nondecreasing (log : List Occurrence) : Prop :=
  (log.filterMap Occurrence.time).Pairwise (· ≤ ·)

instance (log : List Occurrence) : Decidable (Nondecreasing log) :=
  inferInstanceAs (Decidable ((log.filterMap Occurrence.time).Pairwise (· ≤ ·)))

/-- The call authenticates `x`. -/
def Occurrence.Authenticates (o : Occurrence) (x : Ipv4Addr) : Prop :=
  (∃ nowMs write, o.request = .onAuthenticated nowMs write) ∧ o.before.currentV4 = some x

/-- When the call brought data of `x`, if it did. -/
def Occurrence.dataTime (x : Ipv4Addr) (o : Occurrence) : Option Nat :=
  match o.request with
  | .onAuthenticatedActivity nowMs true => if o.before.currentV4 = some x then some nowMs else none
  | _ => none

variable {t gap : Nat} {x : Ipv4Addr} {p' p : Probation} {times : List Nat}

/-- Data arrive at the time of their request. -/
theorem time_of_dataTime {o : Occurrence} (h : o.dataTime x = some t) : o.time = some t := by
  unfold Occurrence.dataTime at h
  unfold Occurrence.time
  split at h
  next nowMs hr =>
    rw [hr]
    split_ifs at h
    exact h
  next => cases h

/-- Data times are among the times of the calls, in the same order. -/
theorem dataTimes_sublist (x : Ipv4Addr) (log : List Occurrence) :
    (log.filterMap (Occurrence.dataTime x)).Sublist (log.filterMap Occurrence.time) := by
  induction log with
  | nil => exact .slnil
  | cons o log ih =>
    cases hd : o.dataTime x with
    | none =>
      rw [List.filterMap_cons_none hd]
      cases ht : o.time with
      | none => rwa [List.filterMap_cons_none ht]
      | some t =>
        rw [List.filterMap_cons_some ht]
        exact ih.cons t
    | some t =>
      rw [List.filterMap_cons_some hd, List.filterMap_cons_some (time_of_dataTime hd)]
      exact ih.cons_cons t

/-! ## What the three numbers mean -/

/-- The numbers of `p` summarise a suffix of `times` without a gap over `gap`. -/
def Supports (gap : Nat) (p : Probation) (times : List Nat) : Prop :=
  (p.firstDataMs = none ∧ p.lastDataMs = none ∧ p.dataPackets = 0) ∨
  ∃ evidence first last, evidence <:+ times ∧ evidence.head? = some first ∧
    evidence.getLast? = some last ∧ p.firstDataMs = some first ∧ p.lastDataMs = some last ∧
    p.dataPackets ≤ evidence.length ∧ evidence.IsChain (fun a b => b - a ≤ gap)

/-- The evidence depends on three fields of the probation only. -/
theorem Supports.of_same (h : Supports gap p times) (hf : p'.firstDataMs = p.firstDataMs)
    (hl : p'.lastDataMs = p.lastDataMs) (hd : p'.dataPackets = p.dataPackets) :
    Supports gap p' times := by
  unfold Supports
  rw [hf, hl, hd]
  exact h

/-- A data packet starts a new suffix after a gap that is too long, and else extends the one
there is. -/
theorem Supports.countData {nowMs : Nat} (h : Supports gap p times) :
    Supports gap (countData gap nowMs p) (times ++ [nowMs]) := by
  have hfirst : ∀ q : Probation, q.dataPackets ≤ 1 → q.firstDataMs = some nowMs →
      q.lastDataMs = some nowMs → Supports gap q (times ++ [nowMs]) := by
    intro q hd hf hl
    exact .inr ⟨[nowMs], nowMs, nowMs, List.suffix_append _ _, rfl, rfl, hf, hl, hd,
      List.isChain_singleton _⟩
  obtain ⟨hf, hl, hd⟩ | ⟨evidence, first, last, hsuffix, hhead, hlast, hf, hl, hd, hchain⟩ := h
  · apply hfirst
    · simp [Controller.countData, hl, hd, satAdd32]
    · simp [Controller.countData, hl, hf]
    · rfl
  · by_cases hstale : gap < nowMs - last
    · apply hfirst
      · simp [Controller.countData, hl, hstale, satAdd32]
      · simp [Controller.countData, hl, hstale]
      · rfl
    · right
      refine ⟨evidence ++ [nowMs], first, nowMs, ?_, ?_, ?_, ?_, rfl, ?_, ?_⟩
      · obtain ⟨rest, rfl⟩ := hsuffix
        exact ⟨rest, by rw [List.append_assoc]⟩
      · rw [List.head?_append, hhead]
        rfl
      · rw [List.getLast?_append, List.getLast?_singleton]
        rfl
      · simp [Controller.countData, hl, hf, hstale]
      · simp only [Controller.countData, hl, Option.any_some, hstale, decide_false, if_false,
          Bool.false_eq_true, satAdd32, List.length_append, List.length_singleton]
        omega
      · refine hchain.append (List.isChain_singleton _) ?_
        intro a ha b hb
        rw [hlast] at ha
        cases ha
        cases hb
        exact Nat.not_lt.mp hstale

/-! ## The account of a run -/

/-- The log splits at the latest authentication of `x`, and `p` summarises the data after it. -/
def Accounted (log : List Occurrence) (gap : Nat) (x : Ipv4Addr) (p : Probation) : Prop :=
  ∃ earlier auth later, log = earlier ++ auth :: later ∧ auth.Authenticates x ∧
    (∀ o ∈ later, ¬ o.Authenticates x) ∧ Supports gap p (later.filterMap (Occurrence.dataTime x))

/-- One more call that does not authenticate `x`. -/
theorem Accounted.snoc {o : Occurrence} (h : Accounted log gap x p) (ho : ¬ o.Authenticates x)
    (hp : ∀ times, Supports gap p times → Supports gap p' (times ++ (o.dataTime x).toList)) :
    Accounted (log ++ [o]) gap x p' := by
  obtain ⟨earlier, auth, later, rfl, hauth, hlater, hsupports⟩ := h
  refine ⟨earlier, auth, later ++ [o], by simp, hauth, ?_, ?_⟩
  · intro o' ho'
    obtain ho' | ho' := List.mem_append.mp ho'
    · exact hlater o' ho'
    · rwa [List.mem_singleton.mp ho']
  · rw [List.filterMap_append]
    have hlast : [o].filterMap (Occurrence.dataTime x) = (o.dataTime x).toList := by
      cases h : o.dataTime x <;> simp [h]
    rw [hlast]
    exact hp _ hsupports

/-- A call that is quiet about the probation of `x`. -/
theorem Accounted.quiet {r : Request} (h : Accounted log gap x p) (hq : Quiet c r)
    (hp : c.probation = some p) (hcandidate : p.candidate = x) (hf : p'.firstDataMs = p.firstDataMs)
    (hl : p'.lastDataMs = p.lastDataMs) (hd : p'.dataPackets = p.dataPackets) :
    Accounted (log ++ [c.occurrence r]) gap x p' := by
  have hdata : (c.occurrence r).dataTime x = none := by
    unfold Occurrence.dataTime
    split
    next nowMs hr =>
      refine if_neg fun hcur => hq.2 nowMs hr p hp ?_
      rw [hcandidate]
      exact hcur
    next => rfl
  refine h.snoc (fun ⟨⟨nowMs, write, hr⟩, _⟩ => hq.1 nowMs write hr) fun times hs => ?_
  rw [hdata, Option.toList_none, List.append_nil]
  exact hs.of_same hf hl hd

/-- The probation of an authenticated endpoint is accounted for by the log. -/
def Evidenced (log : List Occurrence) (c : Controller) : Prop :=
  ∀ x p, c.currentV4 = some x → c.currentAuthenticated = true → c.probation = some p →
    p.candidate = x → Accounted log c.maxGap x p

theorem maxGap_congr {c' : Controller} (h : c'.opts = c.opts) : c'.maxGap = c.maxGap := by
  simp only [maxGap, policy, h]

/-- Every call keeps the account. -/
theorem evidenced_handle (r : Request) (h : Evidenced log c) :
    Evidenced (log ++ [c.occurrence r]) (c.handle r).2.1 := by
  have hcalled := called c r
  have hgap := maxGap_congr (handle_spec_opts c r).2
  intro x p' hcur' hauth' hp' hcandidate
  rw [hgap]
  generalize (c.handle r).1 = reply, (c.handle r).2.1 = c', (c.handle r).2.2 = events
    at hcalled hcur' hauth' hp'
  cases hcalled with
  | continues hcont hu hq =>
    obtain hsame | hnone := hcont.probation
    · rw [hsame] at hp'
      rw [hcont.currentV4] at hcur'
      rw [hcont.authenticated] at hauth'
      exact (h x p' hcur' hauth' hp' hcandidate).quiet hq hp' hcandidate rfl rfl rfl
    · cases hnone.symm.trans hp'
  | leaves hc =>
    obtain ⟨-, -, -, hauth, -⟩ := hc.leaves _ rfl
    cases hauth.symm.trans hauth'
  | ended => cases hauth'
  | refreshed =>
    have hq : Quiet c .requestRefresh := ⟨nofun, nofun⟩
    have hsame : c.requestRefresh.currentV4 = c.currentV4 ∧
        c.requestRefresh.currentAuthenticated = c.currentAuthenticated ∧
        c.requestRefresh.probation = c.probation := by
      unfold requestRefresh
      split_ifs <;> exact ⟨rfl, rfl, rfl⟩
    rw [hsame.1] at hcur'
    rw [hsame.2.1] at hauth'
    rw [hsame.2.2] at hp'
    exact (h x p' hcur' hauth' hp' hcandidate).quiet hq hp' hcandidate rfl rfl rfl
  | authenticatedV6 hcur ha =>
    cases (hcur.symm.trans (currentV4_congr ha.current).symm).trans hcur'
  | committed _ _ _ _ hprobation => cases hprobation.symm.trans hp'
  | @begun nowMs write released c' cur rollback hcur _ _ _ ha _ hprobation =>
    obtain rfl : cur = x :=
      Option.some.inj ((hcur.symm.trans (currentV4_congr ha.current).symm).trans hcur')
    obtain rfl := Option.some.inj (hprobation.symm.trans hp')
    exact ⟨log, _, [], rfl, ⟨⟨nowMs, write, rfl⟩, hcur⟩, List.forall_mem_nil _,
      .inl ⟨rfl, rfl, rfl⟩⟩
  | @counted nowMs c₁ p hcont hp hcur =>
    obtain rfl := Option.some.inj hp'
    obtain rfl : p.candidate = x := hcandidate
    have hauth : c.currentAuthenticated = true := hcont.authenticated ▸ hauth'
    have hnot : ¬ (c.occurrence (.onAuthenticatedActivity nowMs true)).Authenticates
        p.candidate := by
      rintro ⟨⟨_, _, hr⟩, -⟩
      change Request.onAuthenticatedActivity nowMs true = _ at hr
      cases hr
    refine (h _ p hcur hauth hp rfl).snoc hnot fun times hs => ?_
    have hdata : (c.occurrence (.onAuthenticatedActivity nowMs true)).dataTime p.candidate
        = some nowMs := if_pos hcur
    rw [hdata]
    exact hs.countData
  | @authorized r granted c₁ events p hcont hu hq hrefresh hp hcur =>
    obtain rfl := Option.some.inj hp'
    obtain rfl : p.candidate = x := hcandidate
    have hauth : c.currentAuthenticated = true := hcont.authenticated ▸ hauth'
    exact (h _ p hcur hauth hp rfl).quiet hq hp rfl rfl rfl rfl
  | promoted => cases hp'
  | @promotionFailed expected nowMs write =>
    have hq : Quiet c (.promoteCandidate expected nowMs write) := ⟨nofun, nofun⟩
    exact (h x p' hcur' hauth' hp' hcandidate).quiet hq hp' hcandidate rfl rfl rfl

/-- Every reached probation is accounted for by the log. -/
theorem Reached.evidenced {spec : EndpointSpec} {opts : EndpointOptions}
    (h : Reached spec opts log c) : Evidenced log c := by
  obtain ⟨io, c₀, hboot, hrun⟩ := h
  refine hrun.invariant (I := Evidenced) ?_ fun _ _ r _ ih => evidenced_handle r ih
  intro x p _ _ hp
  rw [(fresh_bootstrap hboot).probation] at hp
  cases hp

/-! ## Promotions -/

/-- The health deadline is of the committed address and not past. -/
theorem le_of_committedHealthDeadline {nowMs deadline : Nat} {a : Ipv4Addr}
    (h : c.committedHealthDeadline nowMs = some (a, deadline)) :
    c.committedGood = some a ∧ nowMs ≤ deadline := by
  unfold committedHealthDeadline at h
  split_ifs at h
  obtain ⟨committed, hcommitted, h⟩ := Option.bind_eq_some_iff.mp h
  obtain ⟨d, hd, hpair⟩ := Option.map_eq_some_iff.mp h
  cases hpair
  refine ⟨hcommitted, ?_⟩
  have hmem := List.max?_mem hd
  simp only [List.mem_append, Option.mem_toList, Option.filter_eq_some_iff] at hmem
  obtain ⟨-, hle⟩ | ⟨-, hle⟩ := hmem
  · exact of_decide_eq_true hle
  · exact of_decide_eq_true hle

/-- Data at these times supports a promotion at `t`. -/
structure Sustained (gap probationMs t : Nat) (times : List Nat) : Prop where
  enough : minPromotionDataPackets ≤ times.length
  ordered : times.Pairwise (· ≤ ·)
  gaps : times.IsChain fun a b => b - a ≤ gap
  span : ∃ first last, times.head? = some first ∧ times.getLast? = some last ∧
    first + probationMs ≤ last ∧ last ≤ t ∧ t ≤ last + gap

/-- A summary that passes a promotion's checks is of sustained data. -/
theorem Supports.sustained {probationMs : Nat} (h : Supports gap p times)
    (hordered : times.Pairwise (· ≤ ·)) (hbefore : ∀ a ∈ times, a ≤ t)
    (henough : minPromotionDataPackets ≤ p.dataPackets) (hspan : probationMs ≤ spanMs p)
    (hidle : ∀ last, p.lastDataMs = some last → t - last ≤ gap) :
    ∃ evidence, evidence <:+ times ∧ Sustained gap probationMs t evidence := by
  obtain ⟨-, -, hd⟩ | ⟨evidence, first, last, hsuffix, hhead, hlast, hf, hl, hd, hchain⟩ := h
  · rw [hd] at henough
    cases henough
  have hev := hordered.sublist hsuffix.sublist
  have hle : last ≤ t := hbefore last (hsuffix.subset (List.mem_of_getLast? hlast))
  have hfirst : first ≤ last := by
    obtain ⟨rest, rfl⟩ := List.head?_eq_some_iff.mp hhead
    obtain heq | hmem := List.mem_cons.mp (List.mem_of_getLast? hlast)
    · exact Nat.le_of_eq heq.symm
    · exact (List.pairwise_cons.mp hev).1 last hmem
  simp only [spanMs, hf, hl] at hspan
  have hlate := hidle last hl
  exact ⟨evidence, hsuffix, henough.trans hd, hev, hchain, first, last, hhead, hlast, by omega,
    hle, by omega⟩

/-- A promotion at `t` is granted only to the endpoint that is current and authenticated, on
sustained data it has delivered since its latest authentication, and, if a rollback was
scheduled, before it is due and while the endpoint to return to is fresh. -/
theorem promoted_with_evidence {spec : EndpointSpec} {opts : EndpointOptions} {write : WriteOutcome}
    {previous : Ipv4Addr} (hrun : Reached spec opts log c)
    (htimes : Nondecreasing (log ++ [c.occurrence (.promoteCandidate x t write)]))
    (hpromoted : (c.promoteCandidate x t write).1 = .promoted previous) :
    c.currentV4 = some x ∧ c.currentAuthenticated = true ∧
    (∃ earlier auth later evidence, log = earlier ++ auth :: later ∧ auth.Authenticates x ∧
      (∀ o ∈ later, ¬ o.Authenticates x) ∧
      evidence <:+ later.filterMap (Occurrence.dataTime x) ∧
      Sustained (max 1 (min opts.lastGoodFallback.probationMs.toNat 5000))
        opts.lastGoodFallback.probationMs.toNat t evidence) ∧
    c.committedGood = some previous ∧
    ∃ p, c.probation = some p ∧ p.candidate = x ∧ ∀ d, p.rollbackAtMs = some d →
      t < d ∧ ∃ deadline, c.committedHealthDeadline t = some (previous, deadline) ∧
        t ≤ deadline := by
  obtain ⟨-, hnot⟩ | ⟨p, hp, hrefusal, ⟨-, h⟩ | ⟨-, h⟩⟩ := promoteCandidate_cases c x t write
  · exact absurd hpromoted (hnot previous)
  · rw [h] at hpromoted
    obtain rfl : p.rollback = previous := PromotionResult.promoted.inj hpromoted
    obtain ⟨hcandidate, hcur, hauth, hdeadline, henough, hspan, hidle⟩ :=
      promotionRefusal_none hrefusal
    obtain ⟨earlier, auth, later, rfl, hat, hlater, hsupports⟩ :=
      hrun.evidenced x p hcur hauth hp hcandidate
    have hopts := hrun.spec_opts.2
    have hdata : (later.filterMap (Occurrence.dataTime x)).Sublist
        ((earlier ++ auth :: later).filterMap Occurrence.time) :=
      (dataTimes_sublist x later).trans
        (((List.sublist_cons_self auth later).trans (List.sublist_append_right _ _)).filterMap _)
    rw [Nondecreasing, List.filterMap_append, List.pairwise_append] at htimes
    obtain ⟨hsorted, -, hlast⟩ := htimes
    obtain ⟨evidence, hsuffix, hsustained⟩ := hsupports.sustained (hsorted.sublist hdata)
      (fun a ha => hlast a (hdata.subset ha) t List.mem_cons_self) henough hspan hidle
    refine ⟨hcur, hauth, ?_, (hrun.settled p hp).committed, p, hp, hcandidate, ?_⟩
    · rw [maxGap, policy, hopts] at hsustained
      exact ⟨earlier, auth, later, evidence, rfl, hat, hlater, hsuffix, hsustained⟩
    · intro d hd
      obtain ⟨hbefore, hfresh⟩ := hdeadline d hd
      obtain ⟨⟨a, deadline⟩, hhealth, ha⟩ := Option.bind_eq_some_iff.mp hfresh
      split_ifs at ha
      cases ha
      exact ⟨hbefore, deadline, hhealth, (le_of_committedHealthDeadline hhealth).2⟩
  · rw [h] at hpromoted
    cases hpromoted

/-- The cutover ends in a promotion, on data of `8.8.8.8`. -/
theorem promoted_with_evidence_cutover :
    ∃ log c, Reached (.hostname [120] 443) cachedOpts log c ∧
      c.currentV4 = some #v[8, 8, 8, 8] ∧ c.currentAuthenticated = true ∧
      (∃ earlier auth later evidence, log = earlier ++ auth :: later ∧
        auth.Authenticates #v[8, 8, 8, 8] ∧ (∀ o ∈ later, ¬ o.Authenticates #v[8, 8, 8, 8]) ∧
        evidence <:+ later.filterMap (Occurrence.dataTime #v[8, 8, 8, 8]) ∧
        Sustained 5000 30000 33000 evidence) ∧
      c.committedGood = some #v[9, 9, 9, 9] ∧
      ∃ p, c.probation = some p ∧ p.candidate = #v[8, 8, 8, 8] := by
  obtain ⟨log, c, hrun, h⟩ := exists_reached_of_replay (.hostname [120] 443) cachedOpts
    firstBoot cutover (fun log c =>
      Nondecreasing (log ++ [c.occurrence (.promoteCandidate #v[8, 8, 8, 8] 33000 .written)]) ∧
      (c.promoteCandidate #v[8, 8, 8, 8] 33000 .written).1 = .promoted #v[9, 9, 9, 9])
    (by decide +kernel)
  obtain ⟨htimes, hpromoted⟩ := of_decide_eq_true h
  obtain ⟨hcur, hauth, hdata, hcommitted, p, hp, hcandidate, -⟩ :=
    promoted_with_evidence hrun htimes hpromoted
  exact ⟨log, c, hrun, hcur, hauth, hdata, hcommitted, p, hp, hcandidate⟩

end Controller

end Udp2raw
