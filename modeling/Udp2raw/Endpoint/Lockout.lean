import Udp2raw.Cli.Fallback
import Udp2raw.Endpoint.Hostname
import Udp2raw.Endpoint.Reload
import Udp2raw.Endpoint.Safety

/-!
# The client reads its own budget file

A charge is made only while the endpoint is not the committed address, and then there
are candidates: the DNS set it records is not empty. So whatever a reached controller
writes to the state file, it will itself accept from then on.
-/

namespace Udp2raw

namespace Controller

variable {c c₀ c' : Controller} {opts : EndpointOptions} {io : BootIo} {log : List Occurrence}
  {nowMs wallNow : Nat} {cur : Ipv4Addr}

/-! ## Candidates -/

/-- Without candidates the endpoint is the committed address, if there is one, and the one
that a probation would return to. -/
def Stocked (c : Controller) : Prop :=
  c.candidates = [] → (∀ good, c.committedGood = some good → c.currentV4 = some good) ∧
    ∀ p, c.probation = some p → c.currentV4 = some p.rollback

theorem SamePlaces.stocked (h : SamePlaces c c') (hs : c.Stocked) : c'.Stocked := by
  intro hnil
  obtain ⟨hgood, hroll⟩ := hs (h.candidates ▸ hnil)
  rw [h.currentV4]
  refine ⟨fun good hcommitted => hgood good (h.committed ▸ hcommitted), fun p' hp' => ?_⟩
  obtain ⟨p, hp, -, hsame⟩ := h.probation p' hp'
  rw [hsame]
  exact hroll p hp

/-- One change of the places keeps the controller stocked. -/
theorem Stocked.relocates (h : Relocates c c') (hs : c.Stocked) : c'.Stocked := by
  -- ordering the candidates does not lose them all
  have hnil : ∀ {c₁ : Controller}, c₁.orderCandidates.candidates = [] → c₁.candidates = [] :=
    fun hordered => by_contra fun hne => orderCandidates_ne_nil hne hordered
  cases h with
  | same h => exact h.stocked hs
  | answered addrs husable h =>
    exact h.stocked fun hordered => absurd (hnil hordered) (take_sortDedup_ne_nil husable)
  | retargeted target hnames h =>
    refine h.stocked fun hordered => ?_
    have hempty := hnil hordered
    obtain ⟨hgood, hroll⟩ := hs hempty
    change c.candidates = [] at hempty
    have htarget : c.currentV4 = some target := by
      obtain hmem | hcommitted | ⟨p, hp, rfl⟩ := hnames
      · rw [hempty] at hmem
        cases hmem
      · exact hgood target hcommitted
      · exact hroll p hp
    exact ⟨fun good hcommitted => htarget.symm.trans (hgood good hcommitted),
      fun p hp => htarget.symm.trans (hroll p hp)⟩
  | recommitted cur hcur h =>
    refine h.stocked fun hordered => ?_
    have hempty := hnil hordered
    obtain ⟨-, hroll⟩ := hs hempty
    refine ⟨fun good hcommitted => ?_, hroll⟩
    obtain rfl := Option.some.inj hcommitted
    exact hcur
  | begun p hcur hgood h =>
    refine h.stocked fun hordered => ?_
    have hempty := hnil hordered
    obtain ⟨hcommitted, -⟩ := hs hempty
    refine ⟨hcommitted, fun p' hp' => ?_⟩
    obtain rfl := Option.some.inj hp'
    exact hcommitted _ hgood

/-- A controller without candidates starts at the cached address if there is one. -/
theorem stocked_bootstrapHost {spec : EndpointSpec} (h : bootstrapHost spec opts io = some c) :
    c.Stocked := by
  have hfresh := fresh_bootstrapHost h
  unfold bootstrapHost at h
  obtain ⟨chosen, hchosen, rfl⟩ := Option.map_eq_some_iff.mp h
  intro hordered
  generalize (((remembered spec opts io).loadLimits io).startPreferredRound io.nowMs).query
    io.nowMs io.answer io.random = queried at hchosen hordered hfresh ⊢
  have hempty : queried.2.candidates = [] :=
    by_contra fun hne => orderCandidates_ne_nil (c := { queried.2 with
      current := (.v4 chosen, spec.port) }) hne hordered
  refine ⟨fun good hgood => ?_, fun p hp => ?_⟩
  · have hgood : queried.2.committedGood = some good := hgood
    unfold firstAddress at hchosen
    rw [hempty, hgood] at hchosen
    split at hchosen
    next hcons => cases hcons
    next => exact congrArg some (Option.some.inj hchosen).symm
  · rw [hfresh.probation] at hp
    cases hp

/-- Every reached controller of a host name is stocked. -/
theorem Reached.stocked {name : List UInt8} {port : UInt16}
    (h : Reached (.hostname name port) opts log c) : c.Stocked := by
  obtain ⟨io, c₀, hboot, hrun⟩ := h
  exact hrun.evolves.invariant (fun _ _ => Stocked.relocates)
    (stocked_bootstrapHost (bootstrapHost_of_bootstrap hboot))

/-- A stocked controller whose endpoint is not the committed address has candidates. -/
theorem Stocked.candidates_ne_nil {good : Ipv4Addr} (h : c.Stocked)
    (hgood : c.committedGood = some good) (hcur : c.currentV4 = some cur) (hne : cur ≠ good) :
    c.candidates ≠ [] := by
  intro hnil
  have heq := (h hnil).1 good hgood
  exact hne (Option.some.inj (hcur.symm.trans heq))

/-! ## Where a state is written -/

/-- The wall time of the charges of a call. -/
def chargeWall (c : Controller) : Request → Nat
  | .onCycle nowMs wallNow reason io =>
    if (c.noteLoss reason).refreshIsDue nowMs then io.laterWall else wallNow
  | .probationRollbackDue _ wallNow _ => wallNow
  | .authorizeOperatorRollback _ _ wallNow _ => wallNow
  | _ => 0

/-- What the charges of a call may meet. -/
def Request.chargeIos : Request → List ChargeIo
  | .onCycle _ _ _ io => [io.returnCharge, io.probeCharge]
  | .probationRollbackDue _ _ io => [io]
  | .authorizeOperatorRollback _ _ _ io => [io]
  | _ => []

/-- Every state written among the events is written by a charge for the fresh committed
address, while another address is in use. -/
def Sourced (c₀ : Controller) (wallNow : Nat) (ios : List ChargeIo)
    (events : List EndpointEvent) : Prop :=
  ∀ next synced, .stateWritten next synced ∈ events → ∃ c nowMs cur good, ∃ io ∈ ios,
    Evolves c₀ c ∧ c.currentV4 = some cur ∧ c.committedFresh nowMs cur = some good ∧
    .stateWritten next synced ∈ (c.chargeFallback wallNow good io).2.2

variable {ios : List ChargeIo} {events events' : List EndpointEvent}

theorem Billed.sourced (h : Billed c₀ wallNow ios events) : Sourced c₀ wallNow ios events := by
  intro next synced hmem
  obtain ⟨c, nowMs, cur, good, io, hio, hkeeps, hrest⟩ := h _ hmem
  exact ⟨c, nowMs, cur, good, io, hio, hkeeps.samePlaces.evolves, hrest⟩

theorem Sourced.append (h : Sourced c₀ wallNow ios events) (h' : Sourced c₀ wallNow ios events') :
    Sourced c₀ wallNow ios (events ++ events') := by
  intro next synced hmem
  obtain hmem | hmem := List.mem_append.mp hmem
  · exact h next synced hmem
  · exact h' next synced hmem

theorem Sourced.after (hbefore : Evolves c₀ c) (h : Sourced c wallNow ios events) :
    Sourced c₀ wallNow ios events := by
  intro next synced hmem
  obtain ⟨c₁, nowMs, cur, good, io, hio, hev, hrest⟩ := h next synced hmem
  exact ⟨c₁, nowMs, cur, good, io, hio, hbefore.trans hev, hrest⟩

/-- A rollback call writes a charge for the fresh committed address only. -/
theorem RollbackCalled.sourced {io : ChargeIo} (h : RollbackCalled c wallNow io c' events) :
    Sourced c wallNow [io] events := by
  cases h with
  | kept _ hb => exact hb.sourced
  | authorized _ hb => exact hb.sourced

/-- A cycle writes charges for the fresh committed address only. -/
theorem sourced_onCycle (c : Controller) (nowMs wallNow : Nat) (reason : CycleReason)
    (io : CycleIo) :
    Sourced c (c.chargeWall (.onCycle nowMs wallNow reason io)) [io.returnCharge, io.probeCharge]
      (c.onCycle nowMs wallNow reason io).2.2 := by
  cases hd : c.isDynamic with
  | false =>
    rw [onCycle, if_pos hd]
    exact billed_nil.sourced
  | true =>
    have hwall : c.chargeWall (.onCycle nowMs wallNow reason io)
        = (c.decidedAt nowMs wallNow reason io).2 := by
      simp only [chargeWall, decidedAt]
      split_ifs <;> rfl
    rw [onCycle_eq hd, hwall]
    refine .append (fun next synced hmem => ?_)
      (.after (evolves_asked c nowMs reason io) (decided_select ..).billed.sourced)
    cases (asked_spec c nowMs reason io).2 _ hmem

/-- Every call writes states for charges only. -/
theorem sourced_handle (c : Controller) (r : Request) :
    Sourced c (c.chargeWall r) r.chargeIos (c.handle r).2.2 := by
  cases r with
  | onCycle nowMs wallNow reason io => exact sourced_onCycle c nowMs wallNow reason io
  | onAuthenticated nowMs write =>
    intro next synced hmem
    obtain ⟨-, ⟨-, -, -, -, h⟩ | ⟨cur, -, -, -, -, h | h⟩ | ⟨-, -, -, -, -, -, -, -, h⟩⟩ :=
      onAuthenticatedAt_cases c nowMs write
    all_goals
      have hmem : .stateWritten next synced ∈ (c.onAuthenticatedAt nowMs write).2.2 := hmem
      rw [h] at hmem
    · cases hmem
    · cases hmem
    · cases List.mem_singleton.mp hmem
    · cases hmem
  | onAuthenticatedActivity nowMs isData => exact billed_nil.sourced
  | onSessionEnded => exact billed_nil.sourced
  | requestRefresh => exact billed_nil.sourced
  | probationRollbackDue nowMs wallNow io => exact (rollbackCalled_due ..).sourced
  | authorizeOperatorRollback expected nowMs wallNow io =>
    exact (rollbackCalled_operator ..).sourced
  | promoteCandidate expected nowMs write =>
    intro next synced hmem
    have hsaved := c.saveCache_events expected write
    have hmem : .stateWritten next synced ∈ (c.promoteCandidate expected nowMs write).2.2 := hmem
    obtain ⟨h, -⟩ | ⟨p, -, -, ⟨-, h⟩ | ⟨-, h⟩⟩ := promoteCandidate_cases c expected nowMs write
    all_goals rw [h] at hmem
    · cases hmem
    all_goals
      obtain hnone | hcache := hsaved
      · rw [hnone] at hmem
        cases hmem
      · rw [hcache] at hmem
        cases List.mem_singleton.mp hmem

/-! ## What is written is accepted -/

theorem Relocates.sameOpts (h : Relocates c c') : c'.opts = c.opts := by
  cases h with
  | same h => exact h.opts
  | answered addrs husable h => exact h.opts
  | retargeted target hnames h => exact h.opts
  | recommitted cur hcur h => exact h.opts
  | begun p hcur hgood h => exact h.opts

theorem Evolves.sameOpts (h : Evolves c c') : c'.opts = c.opts :=
  h.invariant (I := fun c₁ => c₁.opts = c.opts) (fun _ _ h heq => h.sameOpts.trans heq) rfl

/-- The candidates of a safe controller are a canonical set. -/
theorem canonicalSet_canonicalCandidates (hs : c.AddressSafe) (hne : c.candidates ≠ []) :
    CanonicalSet c.opts.allowPrivate c.canonicalCandidates := by
  have hsorted : c.canonicalCandidates.Pairwise fun a b => a.toU32 < b.toU32 :=
    (pairwise_sortDedup c.candidates).sublist (List.take_sublist _ _)
  refine ⟨fun ip hip => ?_, ?_, take_sortDedup_ne_nil hne, List.length_take_le _ _⟩
  · exact hs.stored.candidates ip (mem_canonicalCandidates hip)
  · rw [sortDedup_eq, Canonical.sorted_eq_self toU32_injective hsorted]

theorem cooldownSecs_of_accepted {policy : LastGoodFallbackPolicy} (h : policy.Accepted) :
    policy.cooldownSecs ≤ maxPersistedCooldownSecs := by
  have hcooldown := h.cooldown
  unfold LastGoodFallbackPolicy.cooldownSecs satAdd maxPersistedCooldownSecs
  omega

/-- A charge for the committed address writes a state that is accepted at once. -/
theorem acceptable_of_written {good : Ipv4Addr} {io : ChargeIo} {next : FallbackState}
    {synced : Bool} (hpolicy : c.policy.Accepted) (hwall : wallNow ≤ u64Max) (hsafe : c.AddressSafe)
    (hstocked : c.Stocked) (hcur : c.currentV4 = some cur)
    (hgood : c.committedFresh nowMs cur = some good)
    (hfile : ∃ contents, io.file = .ofContents contents)
    (hwritten : .stateWritten next synced ∈ (c.chargeFallback wallNow good io).2.2) :
    next.Acceptable c.policy.globalCapacity.toNat c.opts.allowPrivate wallNow ∧ next.Fits := by
  have hcommitted := committed_of_committedFresh hgood
  have hset := canonicalSet_canonicalCandidates hsafe
    (hstocked.candidates_ne_nil hcommitted hcur (other_of_committedFresh hgood))
  have hip := hsafe.stored.committed good hcommitted
  have hcooldown := cooldownSecs_of_accepted hpolicy
  obtain ⟨-, hevents⟩ | ⟨name, loaded, t, -, hload, ht, hevents⟩ :=
    c.chargeFallback_cases wallNow good io
  · rw [hevents] at hwritten
    cases hwritten
  · rw [hevents] at hwritten
    cases List.mem_singleton.mp hwritten
    obtain ⟨contents, hcontents⟩ := hfile
    cases loaded with
    | none =>
      have hnext := (acceptable_new _ _ hwall).charged hwall hcooldown hip hset ht
      exact ⟨hnext, (fits_new c.policy hwall).charged (Nat.le_refl _) hset.nonempty hwall ht⟩
    | some s =>
      obtain ⟨hdocument, -⟩ := loadFallbackState_some hload
      rw [hdocument] at hload
      obtain ⟨-, -, -, hs⟩ := loadFallbackState_eq_some_iff.mp hload
      have hnext := hs.charged hwall hcooldown hip hset ht
      have hfits := fits_of_ofContents (hcontents.symm.trans hdocument)
      exact ⟨hnext, hfits.charged hs.tokens hset.nonempty hwall ht⟩

/-- The client never locks itself out of its budget file. For an endpoint and a policy that
`parse_args` accepts, in every reached state the endpoint is the committed address unless there
are candidates; and every document a call writes at wall time `wall` is below the size limit, has
no empty DNS set in it, and is loaded again as it was at every wall time from then on. -/
theorem written_state_loads {socketAddr : List UInt8 → Option (IpAddr × UInt16)}
    {remote name : List UInt8} {port : UInt16} {cli : FallbackArgs}
    (hspec : EndpointSpec.parse socketAddr remote = .ok (.hostname name port))
    (hpolicy : fallbackPolicy cli (.hostname name port) = .ok opts.lastGoodFallback)
    (h : Reached (.hostname name port) opts log c) :
    (∀ good cur, c.committedGood = some good → c.currentV4 = some cur → cur ≠ good →
      c.candidates ≠ []) ∧
    ∀ o ∈ log, ∀ wall : UInt64, o.before.chargeWall o.request = wall.toNat →
      (∀ io ∈ o.request.chargeIos, ∃ contents, io.file = .ofContents contents) →
      ∀ next synced, .stateWritten next synced ∈ o.events →
        (serializeFallbackState name port next).toUTF8.size < stateMaxBytes ∧
        (∀ e ∈ next.entries, e.dnsSet ≠ []) ∧
        ∀ later : UInt64, wall ≤ later →
          loadFallbackFile (writtenFile name port next) name port
            opts.lastGoodFallback.globalCapacity.toNat opts.allowPrivate later.toNat
            = .ok (some next) := by
  have haccepted := fallbackPolicy_accepted hpolicy
  obtain ⟨hplain, hlength⟩ := parse_hostname hspec
  refine ⟨fun good cur hgood hcur hne => h.stocked.candidates_ne_nil hgood hcur hne, ?_⟩
  intro o ho wall hwall hfiles next synced hwritten
  obtain ⟨io, c₀, hboot, hrun⟩ := h
  obtain ⟨earlier, c', r, hearlier, rfl⟩ := hrun.mem ho
  have hreached : Reached (.hostname name port) opts earlier c' := ⟨io, c₀, hboot, hearlier⟩
  obtain ⟨c₁, nowMs, cur, good, chargeIo, hio, hev, hcur, hgood, hmem⟩ :=
    sourced_handle c' r next synced hwritten
  have hopts : c₁.opts = opts := hev.sameOpts.trans hreached.spec_opts.2
  have hsafe : c₁.AddressSafe :=
    hev.invariant (fun _ _ => AddressSafe.relocates) hreached.addressSafe
  have hstocked : c₁.Stocked := hev.invariant (fun _ _ => Stocked.relocates) hreached.stocked
  have hwall : c'.chargeWall r = wall.toNat := hwall
  rw [hwall] at hmem
  obtain ⟨hnext, hfits⟩ := acceptable_of_written (by rwa [policy, hopts])
    (Nat.le_sub_one_of_lt wall.toNat_lt) hsafe hstocked hcur hgood (hfiles chargeIo hio) hmem
  rw [policy, hopts] at hnext
  refine ⟨(loadFallbackFile_writtenFile hplain hlength hfits hnext).1,
    fun e he => (hfits.entries e he).dnsSet, fun later hlater => ?_⟩
  exact (loadFallbackFile_writtenFile hplain hlength hfits
    (hnext.later (UInt64.le_iff_toNat_le.mp hlater))).2

/-- `9.9.9.9` is committed and lost after DNS moved to `8.8.8.8`, where a preferred round fails:
a probe of `9.9.9.9` is charged. -/
def failedRound : List Request :=
  [.onAuthenticated 1000 .written, .onSessionEnded,
    .onCycle 2000 1002 .sessionLost (answering 2000 (some (.replicate 4 8))),
    .onCycle 40000 1040 .attemptFailed { answering 40000 none with
      laterWall := 1040, probeCharge := ⟨true, .absent, .written⟩ }]

/-- The first charge ever, in an absent file, is loaded a year later. -/
theorem written_state_loads_first_charge :
    ∃ log c, Reached (.hostname [120] 443) cachedOpts log c ∧
      (∃ o ∈ log, .stateWritten firstCharge true ∈ o.events) ∧
      loadFallbackFile (writtenFile [120] 443 firstCharge) [120] 443
        cachedOpts.lastGoodFallback.globalCapacity.toNat cachedOpts.allowPrivate
        (UInt64.toNat 31537040) = .ok (some firstCharge) := by
  obtain ⟨log, c, hreached, h⟩ := exists_reached_of_replay (.hostname [120] 443) cachedOpts
    firstBoot failedRound (fun log _ => log.any fun o =>
      o.before.chargeWall o.request = 1040 ∧ (∀ io ∈ o.request.chargeIos, io.file = .absent) ∧
        .stateWritten firstCharge true ∈ o.events) (by decide +kernel)
  obtain ⟨o, ho, h⟩ := List.any_eq_true.mp h
  obtain ⟨hwall, hfiles, hwritten⟩ := of_decide_eq_true h
  have hspec : EndpointSpec.parse (fun _ => none) [120, 58, 52, 52, 51] = .ok (.hostname [120] 443)
    := by decide +kernel
  have hpolicy : fallbackPolicy { fifo := true, lastGoodFallback := true } (.hostname [120] 443)
      = .ok cachedOpts.lastGoodFallback := by decide +kernel
  have hloads := ((written_state_loads hspec hpolicy hreached).2 o ho 1040 hwall
    (fun io hio => ⟨.absent, hfiles io hio⟩) firstCharge true hwritten).2.2
  exact ⟨log, c, hreached, ⟨o, ho, hwritten⟩, hloads 31537040 (by decide)⟩

end Controller

end Udp2raw
