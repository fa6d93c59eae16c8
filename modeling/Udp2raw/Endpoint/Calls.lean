import Udp2raw.Endpoint.Steps

/-!
# What the controller's other calls do

Authentications, accepted packets, promotions and rollback authorizations: one
lemma each that says what the call can change.
-/

namespace Udp2raw

namespace Controller

variable {c : Controller}

/-! ## Rollback authority -/

/-- All that a call can do which may authorize a rollback: charge for the committed address, and
mark the current probation. -/
inductive RollbackCalled (c : Controller) (wallNow : Nat) (io : ChargeIo) :
    Controller → List EndpointEvent → Prop where
  | kept {c' : Controller} {events : List EndpointEvent} (h : Keeps c c')
      (hb : Billed c wallNow [io] events) : RollbackCalled c wallNow io c' events
  | authorized {c' : Controller} {events : List EndpointEvent} {p : Probation} (h : Keeps c c')
      (hb : Billed c wallNow [io] events) (hp : c.probation = some p)
      (hcur : c.currentV4 = some p.candidate)
      (hauth : p.directReturn = true ∨ p.rollbackAuthorized = true ∨ Charged events) :
      RollbackCalled c wallNow io
        { c' with probation := some { p with rollbackAuthorized := true } } events

/-- An authorization needs a charge unless the probation has authority already. -/
theorem rollbackCalled_authorizeRollback {p : Probation} (hp : c.probation = some p)
    (hcur : c.currentV4 = some p.candidate) (nowMs wallNow : Nat) (io : ChargeIo) :
    RollbackCalled c wallNow io (c.authorizeRollback nowMs wallNow p.candidate p io).2.1
      (c.authorizeRollback nowMs wallNow p.candidate p io).2.2 := by
  unfold authorizeRollback
  split_ifs with hstale hauth
  · exact .kept (.refl c) billed_nil
  · exact .authorized (.refl c) billed_nil hp hcur (hauth.symm.imp_right .inl)
  · have hkeeps := keeps_chargeFallback c wallNow p.rollback io
    have hb : Billed c wallNow [io] (c.chargeFallback wallNow p.rollback io).2.2 :=
      billed_chargeFallback (List.mem_singleton_self io) hcur (not_not.mp hstale)
    dsimp only
    split_ifs with hgranted
    · exact .authorized hkeeps hb hp hcur (.inr (.inr (charged_chargeFallback hgranted)))
    · exact .kept hkeeps hb

/-- What the call of the probation timer can do. -/
theorem rollbackCalled_due (c : Controller) (nowMs wallNow : Nat) (io : ChargeIo) :
    RollbackCalled c wallNow io (c.probationRollbackDueAt nowMs wallNow io).2.1
      (c.probationRollbackDueAt nowMs wallNow io).2.2 := by
  unfold probationRollbackDueAt
  split
  next cur p hcur hp =>
    split_ifs with h
    · obtain ⟨rfl, -⟩ := h
      exact rollbackCalled_authorizeRollback hp hcur nowMs wallNow io
    · exact .kept (.refl c) billed_nil
  next => exact .kept (.refl c) billed_nil

/-- What the call of the operator can do. -/
theorem rollbackCalled_operator (c : Controller) (expected : Ipv4Addr) (nowMs wallNow : Nat)
    (io : ChargeIo) :
    RollbackCalled c wallNow io (c.authorizeOperatorRollbackAt expected nowMs wallNow io).2.1
      (c.authorizeOperatorRollbackAt expected nowMs wallNow io).2.2 := by
  unfold authorizeOperatorRollbackAt
  split
  next cur p hcur hp =>
    split_ifs with h
    · obtain ⟨rfl, rfl⟩ := h
      exact rollbackCalled_authorizeRollback hp hcur nowMs wallNow io
    · exact .kept (.refl c) billed_nil
  next => exact .kept (.refl c) billed_nil

theorem RollbackCalled.background {wallNow : Nat} {io : ChargeIo} {c' : Controller}
    {events : List EndpointEvent} (h : RollbackCalled c wallNow io c' events) :
    c'.background = c.background := by
  cases h with
  | kept h => exact h.background
  | authorized h => exact h.background

/-! ## Authentication, activity and promotion -/

/-- A cache write that is not refused names the address in the file; without a cache file
there is nothing to write. -/
theorem saveCache_cases (c : Controller) (addr : Ipv4Addr) (write : WriteOutcome) :
    c.saveCache addr write = (.written, []) ∨ c.saveCache addr write = (.refused, []) ∨
    ∃ done, done ≠ .refused ∧ c.saveCache addr write = (done, [.cacheWritten addr]) := by
  unfold saveCache
  split
  · dsimp only
    split_ifs with h
    · exact .inr (.inl (by rw [h]))
    · exact .inr (.inr ⟨_, h, rfl⟩)
  · exact .inl rfl

theorem saveCache_events (c : Controller) (addr : Ipv4Addr) (write : WriteOutcome) :
    (c.saveCache addr write).2 = [] ∨ (c.saveCache addr write).2 = [.cacheWritten addr] := by
  obtain h | h | ⟨done, -, h⟩ := c.saveCache_cases addr write
  · exact .inl (by rw [h])
  · exact .inl (by rw [h])
  · exact .inr (by rw [h])

/-- The endpoint is authenticated; nothing else about it changes. -/
structure Authenticated (c₀ c : Controller) : Prop where
  spec : c.spec = c₀.spec
  opts : c.opts = c₀.opts
  current : c.current = c₀.current
  authenticated : c.currentAuthenticated = true
  attended : c₀.currentV4 ≠ none → c.attendedCutover = false

/-- What an authentication does: on an IPv6 address nothing more; the committed address is
confirmed or made; or, next to another committed address, a probation begins. -/
theorem onAuthenticatedAt_cases (c : Controller) (nowMs : Nat) (write : WriteOutcome) :
    let r := c.onAuthenticatedAt nowMs write
    Authenticated c r.2.1 ∧
    ((c.currentV4 = none ∧ r.2.1.committedGood = c.committedGood ∧
        r.2.1.probation = c.probation ∧ r.2.1.attendedCutover = c.attendedCutover ∧
        r.2.2 = []) ∨
     (∃ cur, c.currentV4 = some cur ∧
        (c.policy.enabled = false ∨ c.committedGood = none ∨ c.committedGood = some cur) ∧
        r.2.1.committedGood = some cur ∧ r.2.1.probation = none ∧
        (r.2.2 = [] ∨ r.2.2 = [.cacheWritten cur])) ∨
     (∃ cur rollback, c.currentV4 = some cur ∧ c.policy.enabled = true ∧
        c.committedGood = some rollback ∧ cur ≠ rollback ∧
        r.2.1.committedGood = c.committedGood ∧
        r.2.1.probation = some ⟨cur, rollback, nowMs, c.attendedCutover,
          c.rollbackAt nowMs, false, none, none, 0⟩ ∧ r.2.2 = [])) := by
  unfold onAuthenticatedAt
  dsimp only
  cases hcur : c.currentV4 with
  | none =>
    have hcur' : ({ c with
        currentAuthenticated := true
        reconnectRefreshPending := false
        backoff := c.backoff.onSuccess } : Controller).currentV4 = none := hcur
    simp only [hcur']
    exact ⟨⟨rfl, rfl, rfl, rfl, fun h => absurd hcur h⟩,
      .inl ⟨trivial, trivial, trivial, trivial, trivial⟩⟩
  | some cur =>
    have hcur' : ({ c with
        currentAuthenticated := true
        reconnectRefreshPending := false
        backoff := c.backoff.onSuccess } : Controller).currentV4 = some cur := hcur
    simp only [hcur']
    split_ifs with hcommit
    · refine ⟨⟨rfl, rfl, rfl, rfl, fun _ => rfl⟩, .inr (.inl ?_)⟩
      exact ⟨cur, rfl, hcommit, rfl, rfl, saveCache_events ..⟩
    · rw [not_or, not_or] at hcommit
      obtain ⟨henabled, hsome, hother⟩ := hcommit
      obtain ⟨rollback, hrollback⟩ := Option.ne_none_iff_exists'.mp hsome
      refine ⟨⟨rfl, rfl, rfl, rfl, fun _ => rfl⟩, .inr (.inr ?_)⟩
      refine ⟨cur, rollback, rfl, by simpa using henabled, hrollback, ?_, rfl, ?_, rfl⟩
      · rintro rfl
        exact hother hrollback
      · exact Option.map_eq_some_iff.mpr ⟨rollback, hrollback, rfl⟩

/-- What an accepted packet does: it may refresh the committed address's activity, and a data
packet of the probation's candidate is counted. -/
theorem onAuthenticatedActivity_cases (c : Controller) (nowMs : Nat) (isData : Bool) :
    ∃ c₁, Continues c c₁ ∧ c₁.probation = c.probation ∧ c₁.attendedCutover = c.attendedCutover ∧
      ((c.onAuthenticatedActivity nowMs isData = c₁ ∧
          ∀ p, c.probation = some p → c.currentV4 = some p.candidate → isData = false) ∨
       (isData = true ∧ ∃ p, c.probation = some p ∧ c.currentV4 = some p.candidate ∧
          c.onAuthenticatedActivity nowMs isData
            = { c₁ with probation := some (countData c.maxGap nowMs p) })) := by
  unfold onAuthenticatedActivity
  split
  next hcur =>
    exact ⟨c, .refl c, rfl, rfl, .inl ⟨rfl, fun p _ h => nomatch hcur.symm.trans h⟩⟩
  next cur hcur =>
    have htouch : ∃ c₁, (if c.healthy then { c with committedRuntimeActivityMs := some nowMs }
        else c) = c₁ ∧ Continues c c₁ ∧ c₁.probation = c.probation ∧
        c₁.attendedCutover = c.attendedCutover := by
      split_ifs
      · exact ⟨_, rfl, ⟨rfl, rfl, rfl, rfl, rfl, id, .inl rfl⟩, rfl, rfl⟩
      · exact ⟨_, rfl, .refl c, rfl, rfl⟩
    obtain ⟨c₁, heq, hcont, hprob, hatt⟩ := htouch
    refine ⟨c₁, hcont, hprob, hatt, ?_⟩
    dsimp only
    rw [heq]
    split_ifs with hdata
    · exact .inl ⟨rfl, fun _ _ _ => hdata⟩
    · rw [hprob]
      cases hp : c.probation with
      | none => exact .inl ⟨rfl, nofun⟩
      | some p =>
        dsimp only
        split_ifs with hcand
        · refine .inr ⟨by simpa using hdata, p, rfl, by rw [hcur, hcand], ?_⟩
          rw [show c₁.maxGap = c.maxGap from by simp only [maxGap, policy, hcont.opts]]
        · refine .inl ⟨rfl, ?_⟩
          rintro _ ⟨⟩ h
          exact absurd (Option.some.inj (hcur.symm.trans h)).symm hcand

/-- What a promotion does: it is refused, it fails at the cache file, or it commits. -/
theorem promoteCandidate_cases (c : Controller) (expected : Ipv4Addr) (nowMs : Nat)
    (write : WriteOutcome) :
    ((c.promoteCandidate expected nowMs write).2 = (c, []) ∧
      ∀ previous, (c.promoteCandidate expected nowMs write).1 ≠ .promoted previous) ∨
    ∃ p, c.probation = some p ∧ c.promotionRefusal expected nowMs p = none ∧
      (((c.saveCache expected write).1 = .written ∧ c.promoteCandidate expected nowMs write
          = (.promoted p.rollback, c.promoteTo expected nowMs, (c.saveCache expected write).2)) ∨
       ((c.saveCache expected write).1 ≠ .written ∧ c.promoteCandidate expected nowMs write
          = (.persistenceFailed, c, (c.saveCache expected write).2))) := by
  unfold promoteCandidate
  split
  · exact .inl ⟨rfl, nofun⟩
  next p hp =>
    split
    next refusal hrefusal =>
      refine .inl ⟨rfl, ?_⟩
      rintro previous rfl
      simp only [promotionRefusal] at hrefusal
      split_ifs at hrefusal <;> cases hrefusal
    next hrefusal =>
      refine .inr ⟨p, hp, hrefusal, ?_⟩
      dsimp only
      split_ifs with hsaved
      · exact .inl ⟨hsaved, rfl⟩
      · exact .inr ⟨hsaved, rfl⟩

/-- What an accepted promotion has checked. -/
theorem promotionRefusal_none {expected : Ipv4Addr} {nowMs : Nat} {p : Probation}
    (h : c.promotionRefusal expected nowMs p = none) :
    p.candidate = expected ∧ c.currentV4 = some expected ∧ c.currentAuthenticated = true ∧
    (∀ d, p.rollbackAtMs = some d →
      nowMs < d ∧ c.committedFresh nowMs expected = some p.rollback) ∧
    minPromotionDataPackets ≤ p.dataPackets ∧ c.policy.probationMs.toNat ≤ spanMs p ∧
    ∀ last, p.lastDataMs = some last → nowMs - last ≤ c.maxGap := by
  unfold promotionRefusal at h
  dsimp only at h
  split_ifs at h with hcandidate hactive hexpired hevidence hstale
  rw [not_or, not_not, Bool.not_eq_false] at hactive
  rw [not_or, Nat.not_lt, Nat.not_lt] at hevidence
  refine ⟨not_not.mp hcandidate, ?_, hactive.2, ?_, hevidence.1, hevidence.2, ?_⟩
  · simp only [currentV4, hactive.1]
  · intro d hd
    rw [hd, Option.any_some, decide_eq_true_eq, not_or, not_not, Nat.not_le] at hexpired
    exact hexpired
  · intro last hlast
    rw [hlast] at hstale
    exact Nat.not_lt.mp hstale

end Controller

end Udp2raw
