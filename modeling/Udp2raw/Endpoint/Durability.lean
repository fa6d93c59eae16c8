import Udp2raw.Endpoint.Runs

/-!
# The rollback point

With the last-good fallback the committed address is what a failed cutover can
return to, and the cache file is its durable copy. It changes by promotion only,
and the file never names another address, unless a promotion replaces the file
and its write then fails.
-/

namespace Udp2raw

namespace Controller

variable {c : Controller} {log : List Occurrence}

/-- The call keeps the rollback point durable. -/
structure Durable (o : Occurrence) : Prop where
  /-- Once there is a committed address, only a promotion changes it. -/
  changes : ∀ a, o.before.committedGood = some a → o.after.committedGood ≠ some a →
    ∃ expected nowMs write previous, o.request = .promoteCandidate expected nowMs write ∧
      o.reply = .promotion (.promoted previous)
  /-- A promotion has written the cache and commits its candidate. -/
  promotes : ∀ expected nowMs write previous,
    o.request = .promoteCandidate expected nowMs write →
    o.reply = .promotion (.promoted previous) →
    (o.before.saveCache expected write).1 = .written ∧ o.after.committedGood = some expected
  /-- What is written to the cache is the committed address. -/
  caches : ∀ addr, .cacheWritten addr ∈ o.events → o.after.committedGood = some addr

/-- A promotion that had everything it needs, whose cache file was replaced, and whose write
failed after that. -/
def UnsyncedPromotion (o : Occurrence) : Prop :=
  ∃ expected nowMs write p, o.request = .promoteCandidate expected nowMs write ∧
    o.before.probation = some p ∧ o.before.promotionRefusal expected nowMs p = none ∧
    (o.before.saveCache expected write).1 = .unsynced

/-- A call that leaves the committed address and the cache file alone is durable. -/
theorem durable_of_unchanged {o : Occurrence}
    (hcommitted : o.after.committedGood = o.before.committedGood) (hu : Uncached o.events)
    (hreply : ∀ previous, o.reply ≠ .promotion (.promoted previous)) : Durable o where
  changes _ hbefore hafter := absurd (hcommitted.trans hbefore) hafter
  promotes _ _ _ previous _ h := absurd h (hreply previous)
  caches addr h := absurd h (hu addr)

/-- A promotion whose write fails after replacing the file leaves a probationary address in
the cache. -/
theorem not_durable_of_unsynced (r : Request) (hs : Settled c)
    (h : UnsyncedPromotion (c.occurrence r)) : ¬ Durable (c.occurrence r) := by
  obtain ⟨expected, nowMs, write, p, hr, hp, hrefusal, hsaved⟩ := h
  obtain rfl : r = .promoteCandidate expected nowMs write := hr
  change c.probation = some p at hp
  change c.promotionRefusal expected nowMs p = none at hrefusal
  change (c.saveCache expected write).1 = .unsynced at hsaved
  have hprob := hs p hp
  have hcandidate := (promotionRefusal_none hrefusal).1
  have hevents : (c.saveCache expected write).2 = [.cacheWritten expected] := by
    obtain h | h | ⟨done, -, h⟩ := c.saveCache_cases expected write
    · rw [h] at hsaved
      cases hsaved
    · rw [h] at hsaved
      cases hsaved
    · rw [h]
  have hfailed : c.promoteCandidate expected nowMs write
      = (.persistenceFailed, c, [.cacheWritten expected]) := by
    simp only [promoteCandidate, hp, hrefusal, hsaved, hevents, if_neg (by decide :
      ¬ WriteOutcome.unsynced = .written)]
  intro hd
  have hcache := hd.caches expected (by
    change EndpointEvent.cacheWritten expected ∈ (c.promoteCandidate expected nowMs write).2.2
    rw [hfailed]
    exact List.mem_singleton_self _)
  change (c.promoteCandidate expected nowMs write).2.1.committedGood = some expected at hcache
  rw [hfailed, hprob.committed, ← hcandidate] at hcache
  exact hprob.other (Option.some.inj hcache).symm

/-- Every call but an unsynced promotion keeps the rollback point durable. -/
theorem durable_of_not_unsynced (r : Request) (henabled : c.policy.enabled = true)
    (h : ¬ UnsyncedPromotion (c.occurrence r)) : Durable (c.occurrence r) := by
  have hcalled := called c r
  unfold occurrence at h ⊢
  generalize (c.handle r).1 = reply, (c.handle r).2.1 = c', (c.handle r).2.2 = events
    at hcalled h ⊢
  cases hcalled with
  | continues hcont hu hq hreply => exact durable_of_unchanged hcont.committed hu hreply
  | leaves hc => exact durable_of_unchanged hc.committed hc.uncached nofun
  | ended => exact durable_of_unchanged rfl uncached_nil nofun
  | refreshed =>
    refine durable_of_unchanged ?_ uncached_nil nofun
    simp only [requestRefresh]
    split_ifs <;> rfl
  | authenticatedV6 _ _ hcommitted => exact durable_of_unchanged hcommitted uncached_nil nofun
  | @committed nowMs write released c' events cur hcur hwhy ha hcommitted hprobation hevents =>
    refine ⟨fun a hbefore hafter => ?_, nofun, fun addr haddr => ?_⟩
    · obtain hdis | hnone | hsame := hwhy
      · rw [hdis] at henabled
        cases henabled
      · cases hnone.symm.trans hbefore
      · exact absurd (hcommitted.trans (hsame.symm.trans hbefore)) hafter
    · obtain hnil | hwritten := hevents
      · change _ ∈ events at haddr
        rw [hnil] at haddr
        cases haddr
      · change _ ∈ events at haddr
        rw [hwritten, List.mem_singleton] at haddr
        cases haddr
        exact hcommitted
  | begun _ _ _ _ _ hcommitted => exact durable_of_unchanged hcommitted uncached_nil nofun
  | counted hcont => exact durable_of_unchanged hcont.committed uncached_nil nofun
  | authorized hcont hu => exact durable_of_unchanged hcont.committed hu nofun
  | @promoted expected nowMs write p hp hrefusal hsaved =>
    refine ⟨fun a _ _ => ⟨expected, nowMs, write, p.rollback, rfl, rfl⟩, ?_, ?_⟩
    · rintro _ _ _ _ ⟨⟩ _
      exact ⟨hsaved, rfl⟩
    · intro addr haddr
      obtain hnil | hwritten := c.saveCache_events expected write
      · change _ ∈ (c.saveCache expected write).2 at haddr
        rw [hnil] at haddr
        cases haddr
      · change _ ∈ (c.saveCache expected write).2 at haddr
        rw [hwritten, List.mem_singleton] at haddr
        cases haddr
        rfl
  | @promotionFailed expected nowMs write p hp hrefusal hsaved =>
    have hrefused : (c.saveCache expected write).2 = [] := by
      obtain hw | hw | ⟨done, hdone, hw⟩ := c.saveCache_cases expected write
      · exact absurd (congrArg Prod.fst hw) hsaved
      · rw [hw]
      · rw [hw] at hsaved
        cases done with
        | written => exact absurd rfl hsaved
        | refused => exact absurd rfl hdone
        | unsynced =>
          exact absurd ⟨expected, nowMs, write, p, rfl, hp, hrefusal, by rw [hw]⟩ h
    refine durable_of_unchanged rfl ?_ nofun
    change Uncached (c.saveCache expected write).2
    rw [hrefused]
    exact uncached_nil

/-- With the fallback enabled, in every run from a bootstrap: every call is durable if and only
if no promotion's cache write fails after it replaced the file. -/
theorem durable_iff_no_unsynced_promotion {spec : EndpointSpec} {opts : EndpointOptions}
    (hrun : Reached spec opts log c) (henabled : opts.lastGoodFallback.enabled = true) :
    (∀ o ∈ log, Durable o) ↔ ∀ o ∈ log, ¬ UnsyncedPromotion o := by
  have hcall : ∀ o ∈ log, ∃ c r, Settled c ∧ c.policy.enabled = true ∧ o = c.occurrence r := by
    intro o ho
    obtain ⟨io, c₀, hboot, hruns⟩ := hrun
    obtain ⟨earlier, c', r, hearlier, rfl⟩ := hruns.mem ho
    have hreached : Reached spec opts earlier c' := ⟨io, c₀, hboot, hearlier⟩
    refine ⟨c', r, hreached.settled, ?_, rfl⟩
    rwa [policy, hreached.spec_opts.2]
  constructor
  · intro hdurable o ho hunsynced
    obtain ⟨c', r, hs, -, rfl⟩ := hcall o ho
    exact not_durable_of_unsynced r hs hunsynced (hdurable _ ho)
  · intro hno o ho
    obtain ⟨c', r, -, hen, rfl⟩ := hcall o ho
    exact durable_of_not_unsynced r hen (hno _ ho)

/-- The directory sync after the rename fails: the cache names the probationary address, the
committed one is another. -/
theorem cache_may_name_probationary :
    ∃ log c, Reached (.hostname [120] 443) cachedOpts log c ∧
      ∃ o ∈ log, .cacheWritten #v[8, 8, 8, 8] ∈ o.events ∧
        o.after.committedGood = some #v[9, 9, 9, 9] := by
  obtain ⟨log, c, hrun, h⟩ := exists_reached_of_replay (.hostname [120] 443) cachedOpts
    firstBoot
    (cutover ++ [.promoteCandidate #v[8, 8, 8, 8] 33000 .unsynced]) (fun log _ => log.any fun o =>
      .cacheWritten #v[8, 8, 8, 8] ∈ o.events ∧ o.after.committedGood = some #v[9, 9, 9, 9])
    (by decide +kernel)
  obtain ⟨o, ho, hcache⟩ := List.any_eq_true.mp h
  exact ⟨log, c, hrun, o, ho, of_decide_eq_true hcache⟩

/-- The same cutover with a write that succeeds. -/
theorem durable_iff_no_unsynced_promotion_cutover :
    ∃ log c, Reached (.hostname [120] 443) cachedOpts log c ∧
      c.committedGood = some #v[8, 8, 8, 8] ∧
      ((∀ o ∈ log, Durable o) ↔ ∀ o ∈ log, ¬ UnsyncedPromotion o) := by
  obtain ⟨log, c, hrun, h⟩ := exists_reached_of_replay (.hostname [120] 443) cachedOpts
    firstBoot (cutover ++ [.promoteCandidate #v[8, 8, 8, 8] 33000 .written])
    (fun _ c => c.committedGood = some #v[8, 8, 8, 8])
    (by decide +kernel)
  exact ⟨log, c, hrun, of_decide_eq_true h, durable_iff_no_unsynced_promotion hrun rfl⟩

end Controller

end Udp2raw
