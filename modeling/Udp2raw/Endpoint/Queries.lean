import Udp2raw.Endpoint.Candidates
import Udp2raw.Endpoint.Runs

/-!
# When DNS is asked

A query that fails puts the next one off by the backoff. One that succeeds puts it off
until the answer has expired, or, while a lost session keeps the refresh pending, by
the shortest backoff. Only an authentication, a requested refresh or a lost session
brings the next query forward. A refresh that is pending is not forgotten before the
next authentication.
-/

namespace Udp2raw

/-! ## The backoff -/

namespace Backoff

/-- The `jitter` of `on_failure`, with the check of its modulus. -/
def jitterChecked (jitterSpan : Nat) (random : UInt32) : Except Checked.Panic Nat :=
  if jitterSpan = 0 then .ok 0
  else do
    let modulus ← Checked.add u64Max jitterSpan 1
    .ok (random.toNat % modulus)

/-- `Backoff::on_failure` with the checks of a build that has them: the delay and the state. -/
def onFailureChecked (b : Backoff) (nowMs : Nat) (random : UInt32) :
    Except Checked.Panic (Nat × Backoff) := do
  let base := min (satMul b.minMs (2 ^ min b.failures 20)) b.maxMs
  let jitter ← jitterChecked (base / 2) random
  let least ← Checked.sub base (base / 4)
  let jittered ← Checked.add u64Max least jitter
  let delay ← Checked.clamp jittered (min b.minMs b.maxMs) (satAdd b.maxMs (b.maxMs / 4))
  .ok (delay, { b with failures := satAdd32 b.failures 1, notBeforeMs := satAdd nowMs delay })

/-- The range of `Backoff::new`. -/
structure Ranged (b : Backoff) (minMs maxMs : Nat) : Prop where
  min : b.minMs = max minMs 1
  max : b.maxMs = max maxMs (max minMs 1)

variable {b : Backoff} {minMs maxMs nowMs : Nat}

theorem ranged_new (minMs maxMs : Nat) : (new minMs maxMs).Ranged minMs maxMs := ⟨rfl, rfl⟩

theorem Ranged.minMs_le (h : b.Ranged minMs maxMs) : b.minMs ≤ b.maxMs := by
  rw [h.min, h.max]
  exact le_max_right _ _

/-- A failure never aborts, and its delay is in the range. -/
theorem onFailureChecked_eq (h : b.minMs ≤ b.maxMs) (hmax : b.maxMs ≤ u64Max) (nowMs : Nat)
    (random : UInt32) :
    b.onFailureChecked nowMs random = .ok (b.failureDelay random, b.onFailure nowMs random) := by
  have hrandom := random.toNat_lt
  have hbase : min (satMul b.minMs (2 ^ min b.failures 20)) b.maxMs ≤ u64Max :=
    (Nat.min_le_right _ _).trans hmax
  have hrange : min b.minMs b.maxMs ≤ satAdd b.maxMs (b.maxMs / 4) := by
    unfold satAdd
    omega
  unfold onFailureChecked onFailure failureDelay
  dsimp only
  generalize min (satMul b.minMs (2 ^ min b.failures 20)) b.maxMs = base at hbase ⊢
  have hspan : base / 2 + 1 ≤ u64Max := by
    unfold u64Max at hbase ⊢
    omega
  have hjitter : jitterChecked (base / 2) random
      = .ok (if base / 2 = 0 then 0 else random.toNat % (base / 2 + 1)) := by
    rw [jitterChecked, Checked.add_eq_ok hspan]
    split_ifs <;> rfl
  have hle : (if base / 2 = 0 then 0 else random.toNat % (base / 2 + 1)) ≤ random.toNat := by
    split_ifs
    · exact Nat.zero_le _
    · exact Nat.mod_le _ _
  rw [hjitter]
  generalize (if base / 2 = 0 then 0 else random.toNat % (base / 2 + 1)) = jitter at hle ⊢
  have hsum : base - base / 4 + jitter ≤ u64Max := by
    unfold u64Max at hbase ⊢
    omega
  have hfits : (base - base / 4 + jitter) % 2 ^ 64 = base - base / 4 + jitter := by
    refine Nat.mod_eq_of_lt ?_
    unfold u64Max at hsum
    omega
  rw [Checked.ok_bind, Checked.sub_eq_ok (Nat.div_le_self _ _), Checked.ok_bind,
    Checked.add_eq_ok hsum, Checked.ok_bind, Checked.clamp_eq_ok hrange, Checked.ok_bind, hfits]

theorem minMs_le_failureDelay (h : b.minMs ≤ b.maxMs) (random : UInt32) :
    b.minMs ≤ b.failureDelay random := by
  unfold failureDelay
  dsimp only
  rw [Nat.min_eq_left h]
  exact le_max_left _ _

/-- A delay is at most the maximum and a quarter. -/
theorem failureDelay_le (h : b.minMs ≤ b.maxMs) (random : UInt32) :
    b.failureDelay random ≤ b.maxMs + b.maxMs / 4 := by
  unfold failureDelay
  dsimp only
  refine max_le ?_ ?_
  · omega
  · refine (Nat.min_le_right _ _).trans ?_
    exact Nat.min_le_left _ _

end Backoff

namespace Controller

variable {c c' : Controller} {log : List Occurrence} {t due nowMs wallNow : Nat}
  {reason : CycleReason} {io : CycleIo}

/-! ## Which cycles ask -/

/-- A cycle asks if a refresh is due and the backoff allows it. The answer then decides when
the next query comes; without a query all is as it was. -/
theorem onCycle_asks (hd : c.isDynamic = true) (nowMs wallNow : Nat) (reason : CycleReason)
    (io : CycleIo) :
    ((c.noteLoss reason).refreshIsDue nowMs = true ∧ c.backoff.ready nowMs = true ∧
      .queried ∈ (c.onCycle nowMs wallNow reason io).2.2 ∧
      (c.onCycle nowMs wallNow reason io).2.1.querySchedule
        = ((c.asking nowMs reason).query nowMs io.answer io.random).2.querySchedule) ∨
    (¬ ((c.noteLoss reason).refreshIsDue nowMs = true ∧ c.backoff.ready nowMs = true) ∧
      .queried ∉ (c.onCycle nowMs wallNow reason io).2.2 ∧
      (c.onCycle nowMs wallNow reason io).2.1.querySchedule
        = (c.noteLoss reason).querySchedule) := by
  have hselect := fun c nowMs wallNow q => congrArg Prod.snd
    (decided_select c nowMs wallNow reason q io).background
  rw [onCycle_eq hd]
  obtain ⟨hdue, hready, h⟩ | ⟨hnot, c₁, hkeeps, h⟩ := asked_cases c nowMs reason io
  · rw [h]
    exact .inl ⟨hdue, hready, List.mem_cons_self, hselect _ _ _ _⟩
  · rw [h]
    exact .inr ⟨hnot, not_queried_select _ _ _ _ _ _, (hselect _ _ _ _).trans
      (congrArg Prod.snd hkeeps.background)⟩

/-! ## The other calls -/

/-- The call lets the next query come early. -/
def Request.hastens : Request → Bool
  | .onAuthenticated _ _ => true
  | .requestRefresh => true
  | .onCycle _ _ .sessionLost _ => true
  | _ => false

/-- The call is a cycle. -/
def Request.isCycle : Request → Bool
  | .onCycle _ _ _ _ => true
  | _ => false

/-- Activity leaves the schedule of the queries alone. -/
theorem querySchedule_onAuthenticatedActivity (c : Controller) (nowMs : Nat) (isData : Bool) :
    (c.onAuthenticatedActivity nowMs isData).querySchedule = c.querySchedule := by
  have hheard : (if c.healthy then { c with committedRuntimeActivityMs := some nowMs }
      else c).querySchedule = c.querySchedule := by
    split_ifs
    · rfl
    · rfl
  unfold onAuthenticatedActivity
  split
  · rfl
  · dsimp only
    generalize (if c.healthy then { c with committedRuntimeActivityMs := some nowMs } else c) = c₁
      at hheard ⊢
    split_ifs
    · exact hheard
    · split
      · exact hheard
      · split_ifs
        · exact hheard
        · exact hheard

/-- Only cycles, authentications and requests for a refresh bear on the next query. -/
theorem querySchedule_handle {r : Request} (hcycle : r.isCycle = false) (hr : r.hastens = false) :
    (c.handle r).2.1.querySchedule = c.querySchedule := by
  cases r with
  | onCycle nowMs wallNow reason io => cases hcycle
  | onAuthenticated nowMs write => cases hr
  | onAuthenticatedActivity nowMs isData => exact querySchedule_onAuthenticatedActivity ..
  | onSessionEnded => rfl
  | requestRefresh => cases hr
  | probationRollbackDue nowMs wallNow io =>
    exact congrArg Prod.snd (rollbackCalled_due ..).background
  | authorizeOperatorRollback expected nowMs wallNow io =>
    exact congrArg Prod.snd (rollbackCalled_operator ..).background
  | promoteCandidate expected nowMs write =>
    change (c.promoteCandidate expected nowMs write).2.1.querySchedule = c.querySchedule
    obtain ⟨h, -⟩ | ⟨p, -, -, ⟨-, h⟩ | ⟨-, h⟩⟩ := promoteCandidate_cases c expected nowMs write
    · rw [h]
    · rw [h]
      exact congrArg Prod.snd (background_orderCandidates _)
    · rw [h]

/-! ## The next query -/

/-- The next query does not come before `due`, unless something hastens it. -/
def Waits (c : Controller) (due : Nat) : Prop :=
  ∀ t < u64Max, c.refreshIsDue t = true → c.backoff.ready t = true → due ≤ t

theorem Waits.congr (h : c'.querySchedule = c.querySchedule) (hw : c.Waits due) : c'.Waits due := by
  simp only [querySchedule, Prod.mk.injEq] at h
  obtain ⟨hforce, hpending, hexpires, hempty, hbackoff⟩ := h
  unfold Waits refreshIsDue
  rw [hforce, hpending, hexpires, hempty, hbackoff]
  exact hw

/-- The answer lives for at least ten seconds. -/
def LongLived (answer : Option DnsAnswer) : Prop := ∀ ans ∈ answer, 10 ≤ ans.ttl

instance (answer : Option DnsAnswer) : Decidable (LongLived answer) :=
  inferInstanceAs (Decidable (∀ ans ∈ answer, 10 ≤ ans.ttl))

/-- After a query the next one waits. -/
theorem waits_query {answer : Option DnsAnswer} (hname : c.spec.name? ≠ none)
    (hforce : c.forceRefresh = false) (hrange : c.backoff.minMs ≤ c.backoff.maxMs)
    (hanswer : LongLived answer) (nowMs : Nat) (random : UInt32) :
    (c.query nowMs answer random).2.Waits (nowMs + min c.backoff.minMs 10000) := by
  have hfails : ({ c with backoff := c.backoff.onFailure nowMs random } : Controller).Waits
      (nowMs + min c.backoff.minMs 10000) := by
    intro t hclock _ hready
    have hdelay := c.backoff.minMs_le_failureDelay hrange random
    have hready : satAdd nowMs (c.backoff.failureDelay random) ≤ t := of_decide_eq_true hready
    unfold satAdd at hready
    omega
  unfold query
  rw [if_neg hname]
  cases answer with
  | none => exact hfails
  | some ans =>
    dsimp only
    split_ifs with husable
    · exact hfails
    · intro t hclock hdue hready
      have hne : (c.acceptAnswer nowMs ans.ttl (c.usable ans.addrs)).candidates ≠ [] :=
        orderCandidates_ne_nil (take_sortDedup_ne_nil husable)
      cases hpending : c.reconnectRefreshPending with
      | true =>
        have hready : satAdd nowMs c.backoff.minMs ≤ t := by
          refine of_decide_eq_true ?_
          rw [← hready]
          simp only [acceptAnswer, orderCandidates, hpending, if_true, Backoff.ready,
            Backoff.onPendingSuccess]
        unfold satAdd at hready
        omega
      | false =>
        have hexpired : satAdd nowMs (satMul ans.ttl.toNat 1000) ≤ t := by
          have hempty := List.isEmpty_eq_false_iff.mpr hne
          rw [refreshIsDue, hempty] at hdue
          simpa [acceptAnswer, orderCandidates, hforce, hpending] using hdue
        have httl : 10 ≤ ans.ttl.toNat := UInt32.le_iff_toNat_le.mp (hanswer ans rfl)
        unfold satAdd satMul at hexpired
        unfold u64Max at hclock hexpired
        omega

theorem Waits.mono {due' : Nat} (hw : c.Waits due) (h : due' ≤ due) : c.Waits due' :=
  fun t hclock hdue hready => h.trans (hw t hclock hdue hready)

/-! ## Runs -/

/-- When the call asked DNS, if it did. -/
def Occurrence.queryMs (o : Occurrence) : Option Nat :=
  match o.request with
  | .onCycle nowMs _ _ _ => if .queried ∈ o.events then some nowMs else none
  | _ => none

/-- When DNS was asked last: by a cycle, or else by `bootstrap`. -/
def lastQuery (boot : BootIo) (log : List Occurrence) : Nat :=
  (log.filterMap Occurrence.queryMs).getLast?.getD boot.nowMs

/-- The calls since. -/
def sinceQuery (log : List Occurrence) : List Occurrence :=
  log.rtakeWhile fun o => o.queryMs = none

/-- The answer a call meets. -/
def Request.answer : Request → Option DnsAnswer
  | .onCycle _ _ _ io => io.answer
  | _ => none

variable {boot : BootIo} {o : Occurrence} {opts : EndpointOptions} {name : List UInt8}
  {port : UInt16}

theorem lastQuery_concat_of_some (h : o.queryMs = some t) : lastQuery boot (log ++ [o]) = t := by
  rw [lastQuery, List.filterMap_append, List.filterMap_cons_some h, List.filterMap_nil,
    List.getLast?_concat, Option.getD_some]

theorem lastQuery_concat_of_none (h : o.queryMs = none) :
    lastQuery boot (log ++ [o]) = lastQuery boot log := by
  rw [lastQuery, List.filterMap_append, List.filterMap_cons_none h, List.filterMap_nil,
    List.append_nil, lastQuery]

theorem sinceQuery_concat_of_none (h : o.queryMs = none) :
    sinceQuery (log ++ [o]) = sinceQuery log ++ [o] :=
  List.rtakeWhile_concat_pos _ _ _ (decide_eq_true h)

/-- The backoff keeps its range, and the next query waits unless something hastens it. -/
structure Disciplined (opts : EndpointOptions) (boot : BootIo) (log : List Occurrence)
    (c : Controller) : Prop where
  ranged : c.backoff.Ranged opts.backoffMinMs.toNat opts.backoffMaxMs.toNat
  waits : (∀ o ∈ sinceQuery log, o.request.hastens = false) →
    c.Waits (lastQuery boot log + min opts.backoffMinMs.toNat 10000)

/-- A query keeps the backoff in its range. -/
theorem ranged_query {minMs maxMs : Nat} (h : c.backoff.Ranged minMs maxMs) (nowMs : Nat)
    (answer : Option DnsAnswer) (random : UInt32) :
    (c.query nowMs answer random).2.backoff.Ranged minMs maxMs := by
  unfold query
  split_ifs
  · exact h
  · cases answer with
    | none => exact ⟨h.min, h.max⟩
    | some ans =>
      dsimp only
      split_ifs
      · exact ⟨h.min, h.max⟩
      · change (if c.reconnectRefreshPending then c.backoff.onPendingSuccess nowMs
          else c.backoff.onSuccess).Ranged minMs maxMs
        split_ifs
        · exact ⟨h.min, h.max⟩
        · exact ⟨h.min, h.max⟩

/-- After a query the next one waits for the shortest backoff or ten seconds. -/
theorem waits_of_ranged {answer : Option DnsAnswer} (hname : c.spec.name? ≠ none)
    (hforce : c.forceRefresh = false)
    (hranged : c.backoff.Ranged opts.backoffMinMs.toNat opts.backoffMaxMs.toNat)
    (hanswer : LongLived answer) (nowMs : Nat) (random : UInt32) :
    (c.query nowMs answer random).2.Waits (nowMs + min opts.backoffMinMs.toNat 10000) := by
  refine (waits_query hname hforce hranged.minMs_le hanswer nowMs random).mono ?_
  rw [hranged.min]
  omega

theorem backoff_asking (c : Controller) (nowMs : Nat) (reason : CycleReason) :
    (c.asking nowMs reason).backoff = c.backoff := by
  have hround := (keeps_openRound (c.noteLoss reason) nowMs reason).background
  have hbackoff : (c.asking nowMs reason).backoff = (c.noteLoss reason).backoff :=
    congrArg (fun b => b.2.2.2.2.2) hround
  rw [hbackoff, noteLoss]
  split_ifs <;> rfl

theorem backoff_of_querySchedule (h : c'.querySchedule = c.querySchedule) :
    c'.backoff = c.backoff := congrArg (fun q => q.2.2.2.2) h

/-- A cycle keeps the discipline of the queries. -/
theorem disciplined_onCycle (hd : c.isDynamic = true) (h : Disciplined opts boot log c)
    (hanswer : LongLived io.answer) :
    Disciplined opts boot (log ++ [c.occurrence (.onCycle nowMs wallNow reason io)])
      (c.onCycle nowMs wallNow reason io).2.1 := by
  have hspec : (c.asking nowMs reason).spec = c.spec :=
    ((continues_noteLoss c reason).trans (keeps_openRound _ nowMs reason).toContinues).spec
  have hname : (c.asking nowMs reason).spec.name? ≠ none := by
    rw [hspec]
    exact name_ne_none hd
  have hranged : (c.asking nowMs reason).backoff.Ranged opts.backoffMinMs.toNat
      opts.backoffMaxMs.toNat := by
    rw [backoff_asking]
    exact h.ranged
  obtain ⟨-, -, hasked, hschedule⟩ | ⟨-, hunasked, hschedule⟩ :=
    onCycle_asks hd nowMs wallNow reason io
  · have hquery : (c.occurrence (.onCycle nowMs wallNow reason io)).queryMs = some nowMs :=
      if_pos hasked
    refine ⟨?_, fun _ => ?_⟩
    · rw [backoff_of_querySchedule hschedule]
      exact ranged_query hranged nowMs io.answer io.random
    · rw [lastQuery_concat_of_some hquery]
      exact Waits.congr hschedule (waits_of_ranged hname rfl hranged hanswer nowMs io.random)
  · have hquery : (c.occurrence (.onCycle nowMs wallNow reason io)).queryMs = none :=
      if_neg hunasked
    have hloss : (c.noteLoss reason).backoff = c.backoff := by
      unfold noteLoss
      split_ifs <;> rfl
    refine ⟨?_, fun hcalm => ?_⟩
    · rw [backoff_of_querySchedule hschedule, hloss]
      exact h.ranged
    · rw [sinceQuery_concat_of_none hquery] at hcalm
      rw [lastQuery_concat_of_none hquery]
      have hsame : c.noteLoss reason = c := by
        refine if_neg ?_
        rintro rfl
        cases hcalm _ (List.mem_append_right _ (List.mem_singleton_self _))
      rw [hsame] at hschedule
      exact Waits.congr hschedule (h.waits fun o ho => hcalm o (List.mem_append_left _ ho))

/-- Authentication resets the backoff. -/
theorem backoff_onAuthenticatedAt (c : Controller) (nowMs : Nat) (write : WriteOutcome) :
    (c.onAuthenticatedAt nowMs write).2.1.backoff = c.backoff.onSuccess := by
  unfold onAuthenticatedAt
  dsimp only
  split
  · rfl
  · split_ifs
    · rfl
    · rfl

/-- Every call keeps the discipline. -/
theorem disciplined_handle (r : Request) (hd : c.isDynamic = true) (h : Disciplined opts boot log c)
    (hanswer : LongLived r.answer) :
    Disciplined opts boot (log ++ [c.occurrence r]) (c.handle r).2.1 := by
  cases hcycle : r.isCycle with
  | true =>
    cases r with
    | onCycle nowMs wallNow reason io => exact disciplined_onCycle hd h hanswer
    | _ => cases hcycle
  | false =>
    have hquery : (c.occurrence r).queryMs = none := by
      cases r with
      | onCycle nowMs wallNow reason io => cases hcycle
      | _ => rfl
    refine ⟨?_, fun hcalm => ?_⟩
    · cases r with
      | onCycle nowMs wallNow reason io => cases hcycle
      | onAuthenticated nowMs write =>
        change (c.onAuthenticatedAt nowMs write).2.1.backoff.Ranged _ _
        rw [backoff_onAuthenticatedAt]
        exact ⟨h.ranged.min, h.ranged.max⟩
      | requestRefresh =>
        change c.requestRefresh.backoff.Ranged _ _
        rw [requestRefresh, if_pos hd]
        exact ⟨h.ranged.min, h.ranged.max⟩
      | _ =>
        rw [backoff_of_querySchedule (querySchedule_handle rfl rfl)]
        exact h.ranged
    · rw [sinceQuery_concat_of_none hquery] at hcalm
      rw [lastQuery_concat_of_none hquery]
      have hr : r.hastens = false := hcalm _ (List.mem_append_right _ (List.mem_singleton_self _))
      exact Waits.congr (querySchedule_handle hcycle hr)
        (h.waits fun o ho => hcalm o (List.mem_append_left _ ho))

/-- The first query is that of `bootstrap`. -/
theorem disciplined_bootstrap (h : bootstrap (.hostname name port) opts boot = .ok c)
    (hanswer : LongLived boot.answer) : Disciplined opts boot [] c := by
  have hkeeps := (keeps_loadLimits (remembered (.hostname name port) opts boot) boot).trans
    (keeps_startPreferredRound _ boot.nowMs)
  have hspec := hkeeps.spec
  have hschedule := congrArg Prod.snd hkeeps.background
  obtain ⟨chosen, -, hc⟩ := Option.map_eq_some_iff.mp (bootstrapHost_of_bootstrap h)
  generalize ((remembered (.hostname name port) opts boot).loadLimits boot).startPreferredRound
    boot.nowMs = c₁ at hspec hschedule hc
  have hname : c₁.spec.name? ≠ none := by
    rw [hspec]
    exact Option.some_ne_none name
  have hforce : c₁.forceRefresh = false := congrArg Prod.fst hschedule
  have hranged : c₁.backoff.Ranged opts.backoffMinMs.toNat opts.backoffMaxMs.toNat := by
    rw [backoff_of_querySchedule hschedule]
    exact Backoff.ranged_new _ _
  have hfirst : c.querySchedule =
      (c₁.query boot.nowMs boot.answer boot.random).2.querySchedule := by
    rw [← hc]
    exact congrArg Prod.snd (background_orderCandidates _)
  refine ⟨?_, fun _ => ?_⟩
  · rw [backoff_of_querySchedule hfirst]
    exact ranged_query hranged boot.nowMs boot.answer boot.random
  · exact Waits.congr hfirst
      (waits_of_ranged hname hforce hranged hanswer boot.nowMs boot.random)

/-- Every run keeps the discipline of the queries. -/
theorem Runs.disciplined {c₀ : Controller} (hrun : Runs c₀ log c)
    (hboot : bootstrap (.hostname name port) opts boot = .ok c₀) (hfirst : LongLived boot.answer)
    (hanswers : ∀ o ∈ log, LongLived o.request.answer) : Disciplined opts boot log c := by
  induction hrun with
  | start => exact disciplined_bootstrap hboot hfirst
  | @step log c hrun r ih =>
    have hd : c.isDynamic = true := Reached.isDynamic ⟨boot, c₀, hboot, hrun⟩
    refine disciplined_handle r hd (ih fun o ho => hanswers o (List.mem_append_left _ ho)) ?_
    exact hanswers _ (List.mem_append_right _ (List.mem_singleton_self _))

/-! ## The pending refresh -/

/-- A pending refresh survives a query. -/
theorem pending_query (hp : c.reconnectRefreshPending = true) (nowMs : Nat)
    (answer : Option DnsAnswer) (random : UInt32) :
    (c.query nowMs answer random).2.reconnectRefreshPending = true := by
  obtain ⟨_, _, _, _, _, h⟩ := query_frame c nowMs answer random
  rw [h]
  exact hp

theorem pending_of_querySchedule (h : c'.querySchedule = c.querySchedule) :
    c'.reconnectRefreshPending = c.reconnectRefreshPending := congrArg (fun q => q.2.1) h

/-- A cycle of a lost session makes the refresh pending, and no cycle settles it. -/
theorem pending_onCycle (hd : c.isDynamic = true)
    (hp : (c.noteLoss reason).reconnectRefreshPending = true) (nowMs wallNow : Nat) (io : CycleIo) :
    (c.onCycle nowMs wallNow reason io).2.1.reconnectRefreshPending = true := by
  have hasking : (c.asking nowMs reason).reconnectRefreshPending = true := by
    have hround := congrArg Prod.snd (keeps_openRound (c.noteLoss reason) nowMs reason).background
    exact (pending_of_querySchedule hround).trans hp
  obtain ⟨-, -, -, hschedule⟩ | ⟨-, -, hschedule⟩ := onCycle_asks hd nowMs wallNow reason io
  · rw [pending_of_querySchedule hschedule]
    exact pending_query hasking nowMs io.answer io.random
  · rw [pending_of_querySchedule hschedule]
    exact hp

theorem pending_noteLoss (hp : c.reconnectRefreshPending = true) (reason : CycleReason) :
    (c.noteLoss reason).reconnectRefreshPending = true := by
  unfold noteLoss
  split_ifs
  · rfl
  · exact hp

/-- Only an authentication settles a pending refresh. -/
theorem pending_handle {r : Request} (hd : c.isDynamic = true)
    (hp : c.reconnectRefreshPending = true) (hr : ∀ nowMs write, r ≠ .onAuthenticated nowMs write) :
    (c.handle r).2.1.reconnectRefreshPending = true := by
  cases r with
  | onCycle nowMs wallNow reason io =>
    exact pending_onCycle hd (pending_noteLoss hp reason) nowMs wallNow io
  | onAuthenticated nowMs write => cases hr nowMs write rfl
  | requestRefresh =>
    change c.requestRefresh.reconnectRefreshPending = true
    rw [requestRefresh, if_pos hd]
    exact hp
  | _ =>
    rw [pending_of_querySchedule (querySchedule_handle rfl rfl)]
    exact hp

/-- No authentication has come yet since some cycle of a lost session. -/
def LossUnsettled (log : List Occurrence) : Prop :=
  ∃ earlier lost since nowMs wallNow io, log = earlier ++ lost :: since ∧
    lost.request = .onCycle nowMs wallNow .sessionLost io ∧
    ∀ o ∈ since, ∀ nowMs write, o.request ≠ .onAuthenticated nowMs write

/-- After a loss the refresh is pending until an authentication comes. -/
theorem Reached.pending (h : Reached (.hostname name port) opts log c) (hlost : LossUnsettled log) :
    c.reconnectRefreshPending = true := by
  obtain ⟨boot, c₀, hboot, hrun⟩ := h
  induction hrun with
  | start =>
    obtain ⟨earlier, lost, since, _, _, _, hlog, -, -⟩ := hlost
    cases earlier with
    | nil => cases hlog
    | cons o os => cases hlog
  | @step log c hrun r ih =>
    have hd : c.isDynamic = true := Reached.isDynamic ⟨boot, c₀, hboot, hrun⟩
    obtain ⟨earlier, lost, since, nowMs, wallNow, io, hlog, hrequest, hsince⟩ := hlost
    obtain rfl | ⟨since, o, rfl⟩ := List.eq_nil_or_concat' since
    · -- the last call is the cycle of the lost session
      obtain ⟨-, hlast⟩ := List.append_inj' hlog rfl
      have hr : r = .onCycle nowMs wallNow .sessionLost io := by
        rw [← hrequest, ← List.singleton_injective hlast]
        rfl
      rw [hr]
      exact pending_onCycle hd rfl nowMs wallNow io
    · rw [← List.cons_append, ← List.append_assoc] at hlog
      obtain ⟨hbefore, hlast⟩ := List.append_inj' hlog rfl
      have ho := List.singleton_injective hlast
      refine pending_handle hd (ih ?_) ?_
      · exact ⟨earlier, lost, since, nowMs, wallNow, io, hbefore, hrequest,
          fun o ho => hsince o (List.mem_append_left _ ho)⟩
      · rw [show r = o.request from congrArg Occurrence.request ho]
        exact hsince o (List.mem_append_right _ (List.mem_singleton_self _))

/-- While the refresh is pending, every cycle asks that the backoff allows. -/
theorem onCycle_asks_of_pending (hd : c.isDynamic = true) (hp : c.reconnectRefreshPending = true)
    (hready : c.backoff.notBeforeMs ≤ nowMs) (wallNow : Nat) (reason : CycleReason) (io : CycleIo) :
    .queried ∈ (c.onCycle nowMs wallNow reason io).2.2 := by
  obtain ⟨-, -, hasked, -⟩ | ⟨hnot, -, -⟩ := onCycle_asks hd nowMs wallNow reason io
  · exact hasked
  · refine absurd ⟨?_, decide_eq_true hready⟩ hnot
    rw [refreshIsDue, pending_noteLoss hp reason]
    simp

/-- A cycle that asks without a lost session does so when the next query is due. -/
theorem Waits.le_of_asked (hw : c.Waits due) (hd : c.isDynamic = true) (hclock : nowMs < u64Max)
    (hreason : reason ≠ .sessionLost)
    (hasked : .queried ∈ (c.onCycle nowMs wallNow reason io).2.2) : due ≤ nowMs := by
  have hsame : c.noteLoss reason = c := if_neg hreason
  obtain ⟨hdue, hready, -, -⟩ | ⟨-, hnot, -⟩ := onCycle_asks hd nowMs wallNow reason io
  · rw [hsame] at hdue
    exact hw nowMs hclock hdue hready
  · exact absurd hasked hnot

/-- The discipline of the DNS queries. A query comes no sooner after the one before it than the
shortest backoff or ten seconds, unless a call since has hastened it. Between a lost session and
the next authentication every cycle asks that the backoff allows. A failure never aborts, and
its delay is in the range of `Backoff::new`. -/
theorem dns_query_discipline {c₀ : Controller}
    (hboot : bootstrap (.hostname name port) opts boot = .ok c₀) (hrun : Runs c₀ log c)
    (hfirst : LongLived boot.answer) (hanswers : ∀ o ∈ log, LongLived o.request.answer) :
    (∀ nowMs wallNow reason io, nowMs < u64Max → reason ≠ .sessionLost →
      (∀ o ∈ sinceQuery log, o.request.hastens = false) →
      .queried ∈ (c.onCycle nowMs wallNow reason io).2.2 →
      lastQuery boot log + min opts.backoffMinMs.toNat 10000 ≤ nowMs) ∧
    (LossUnsettled log → ∀ nowMs wallNow reason io, c.backoff.notBeforeMs ≤ nowMs →
      .queried ∈ (c.onCycle nowMs wallNow reason io).2.2) ∧
    ∀ (b : Backoff) (minMs maxMs : UInt64) nowMs random, b.Ranged minMs.toNat maxMs.toNat →
      ∃ delay, b.onFailureChecked nowMs random = .ok (delay, b.onFailure nowMs random) ∧
        b.minMs ≤ delay ∧ delay ≤ b.maxMs + b.maxMs / 4 := by
  have hreached : Reached (.hostname name port) opts log c := ⟨boot, c₀, hboot, hrun⟩
  have hd : c.isDynamic = true := hreached.isDynamic
  refine ⟨fun nowMs wallNow reason io hclock hreason hcalm hasked => ?_,
    fun hlost nowMs wallNow reason io hready => ?_, fun b minMs maxMs nowMs random hb => ?_⟩
  · have hwaits := (hrun.disciplined hboot hfirst hanswers).waits hcalm
    exact hwaits.le_of_asked hd hclock hreason hasked
  · exact onCycle_asks_of_pending hd (hreached.pending hlost) hready wallNow reason io
  · have hmax : b.maxMs ≤ u64Max := by
      have hminBelow := minMs.toNat_lt
      have hmaxBelow := maxMs.toNat_lt
      rw [hb.max]
      unfold u64Max
      omega
    exact ⟨b.failureDelay random, Backoff.onFailureChecked_eq hb.minMs_le hmax nowMs random,
      Backoff.minMs_le_failureDelay hb.minMs_le random, Backoff.failureDelay_le hb.minMs_le random⟩

/-- A session is lost a minute after the start, and the query for it fails. -/
theorem dns_query_discipline_lost :
    ∃ c₀ log c, bootstrap (.hostname [120] 443) cachedOpts firstBoot = .ok c₀ ∧ Runs c₀ log c ∧
      log ≠ [] ∧ .queried ∈ (c.onCycle 200000 1200 .attemptFailed (answering 200000 none)).2.2 ∧
      lastQuery firstBoot log + min cachedOpts.backoffMinMs.toNat 10000 ≤ 200000 := by
  obtain ⟨c₀, log, c, hboot, hrun, h⟩ := exists_runs_of_replay (.hostname [120] 443) cachedOpts
    firstBoot [.onCycle 60000 1060 .sessionLost (answering 60000 none)] (fun log c =>
      (∀ o ∈ log, LongLived o.request.answer) ∧ (∀ o ∈ sinceQuery log, o.request.hastens = false) ∧
      log ≠ [] ∧ .queried ∈ (c.onCycle 200000 1200 .attemptFailed (answering 200000 none)).2.2)
    (by decide +kernel)
  obtain ⟨hanswers, hcalm, hlog, hasked⟩ := of_decide_eq_true h
  obtain ⟨hspaced, -, -⟩ := dns_query_discipline hboot hrun (by decide) hanswers
  exact ⟨c₀, log, c, hboot, hrun, hlog, hasked,
    hspaced 200000 1200 .attemptFailed _ (by decide) (by decide) hcalm hasked⟩

end Controller

end Udp2raw
