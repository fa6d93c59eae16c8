import Udp2raw.Endpoint.Bootstrap
import Udp2raw.Endpoint.Calls

/-!
# Runs of the endpoint controller

A run is a sequence of calls into one controller, starting with a successful
`bootstrap`. The log keeps, for every call, the states around it, the reply and
what it did to the files.
-/

namespace Udp2raw

namespace Controller

/-- A call of the client into its controller, with what it meets. -/
inductive Request where
  | onCycle (nowMs wallNow : Nat) (reason : CycleReason) (io : CycleIo)
  | onAuthenticated (nowMs : Nat) (write : WriteOutcome)
  | onAuthenticatedActivity (nowMs : Nat) (isData : Bool)
  | onSessionEnded
  | requestRefresh
  | probationRollbackDue (nowMs wallNow : Nat) (io : ChargeIo)
  | authorizeOperatorRollback (expected : Ipv4Addr) (nowMs wallNow : Nat) (io : ChargeIo)
  | promoteCandidate (expected : Ipv4Addr) (nowMs : Nat) (write : WriteOutcome)
  deriving DecidableEq, Repr

/-- What a call returns. -/
inductive Reply where
  | switched (switch : Option Switch)
  | authenticated (released : Option Ipv4Addr)
  | done
  | rollback (granted : Bool)
  | promotion (result : PromotionResult)
  deriving DecidableEq, Repr

/-- One call. -/
def handle (c : Controller) : Request → Reply × Controller × List EndpointEvent
  | .onCycle nowMs wallNow reason io =>
    let r := c.onCycle nowMs wallNow reason io
    (.switched r.1, r.2)
  | .onAuthenticated nowMs write =>
    let r := c.onAuthenticatedAt nowMs write
    (.authenticated r.1, r.2)
  | .onAuthenticatedActivity nowMs isData => (.done, c.onAuthenticatedActivity nowMs isData, [])
  | .onSessionEnded => (.done, c.onSessionEnded, [])
  | .requestRefresh => (.done, c.requestRefresh, [])
  | .probationRollbackDue nowMs wallNow io =>
    let r := c.probationRollbackDueAt nowMs wallNow io
    (.rollback r.1, r.2)
  | .authorizeOperatorRollback expected nowMs wallNow io =>
    let r := c.authorizeOperatorRollbackAt expected nowMs wallNow io
    (.rollback r.1, r.2)
  | .promoteCandidate expected nowMs write =>
    let r := c.promoteCandidate expected nowMs write
    (.promotion r.1, r.2)

/-- A call that was made. -/
structure Occurrence where
  before : Controller
  request : Request
  reply : Reply
  events : List EndpointEvent
  after : Controller
  deriving DecidableEq, Repr

/-- The call as it goes in this state. -/
def occurrence (c : Controller) (r : Request) : Occurrence :=
  ⟨c, r, (c.handle r).1, (c.handle r).2.2, (c.handle r).2.1⟩

/-- The calls made from a state, in order, and the state they lead to. -/
inductive Runs (c₀ : Controller) : List Occurrence → Controller → Prop where
  | start : Runs c₀ [] c₀
  | step {log : List Occurrence} {c : Controller} (h : Runs c₀ log c) (r : Request) :
      Runs c₀ (log ++ [c.occurrence r]) (c.handle r).2.1

/-- A run that starts with a successful `bootstrap`. -/
def Reached (spec : EndpointSpec) (opts : EndpointOptions) (log : List Occurrence)
    (c : Controller) : Prop :=
  ∃ io c₀, bootstrap spec opts io = .ok c₀ ∧ Runs c₀ log c

variable {c₀ c : Controller} {log : List Occurrence}

variable {spec : EndpointSpec} {opts : EndpointOptions} {io : BootIo} {c' : Controller}

/-- A call goes on with the run. -/
theorem Reached.call (h : Reached spec opts log c) (r : Request) :
    Reached spec opts (log ++ [c.occurrence r]) (c.handle r).2.1 := by
  obtain ⟨io, c₀, hboot, hrun⟩ := h
  exact ⟨io, c₀, hboot, hrun.step r⟩

/-- What holds at the start and is kept by every call holds after every run. -/
theorem Runs.invariant {I : List Occurrence → Controller → Prop} (h : Runs c₀ log c)
    (hstart : I [] c₀)
    (hstep : ∀ log c r, Runs c₀ log c → I log c → I (log ++ [c.occurrence r]) (c.handle r).2.1) :
    I log c := by
  induction h with
  | start => exact hstart
  | step h r ih => exact hstep _ _ r h ih

/-- Every call of a run was made in a state the run had reached. -/
theorem Runs.mem (h : Runs c₀ log c) {o : Occurrence} (ho : o ∈ log) :
    ∃ earlier c' r, Runs c₀ earlier c' ∧ o = c'.occurrence r := by
  induction h with
  | start => cases ho
  | @step log c h r ih =>
    obtain ho | ho := List.mem_append.mp ho
    · exact ih ho
    · exact ⟨log, c, r, h, List.mem_singleton.mp ho⟩

/-- The state after some calls. -/
def afterCalls (c : Controller) (rs : List Request) : Controller :=
  rs.foldl (fun c r => (c.handle r).2.1) c

/-- The log of some calls. -/
def logOf (c : Controller) : List Request → List Occurrence
  | [] => []
  | r :: rs => c.occurrence r :: logOf (c.handle r).2.1 rs

theorem Runs.calls (h : Runs c₀ log c) (rs : List Request) :
    Runs c₀ (log ++ c.logOf rs) (c.afterCalls rs) := by
  induction rs generalizing log c with
  | nil => simpa [logOf, afterCalls] using h
  | cons r rs ih => simpa [logOf, afterCalls] using ih (h.step r)

theorem runs_calls (c : Controller) (rs : List Request) : Runs c (c.logOf rs) (c.afterCalls rs) :=
  Runs.start.calls rs

/-- The log of a bootstrap and some calls, and the state they lead to. -/
def replay (spec : EndpointSpec) (opts : EndpointOptions) (io : BootIo) (rs : List Request) :
    Option (List Occurrence × Controller) :=
  (bootstrap spec opts io).toOption.map fun c => (c.logOf rs, c.afterCalls rs)

/-- A replay with some property is a run with it. -/
theorem exists_runs_of_replay (spec : EndpointSpec) (opts : EndpointOptions) (io : BootIo)
    (rs : List Request) (P : List Occurrence → Controller → Bool)
    (h : (replay spec opts io rs).any (fun r => P r.1 r.2) = true) :
    ∃ c₀ log c, bootstrap spec opts io = .ok c₀ ∧ Runs c₀ log c ∧ P log c = true := by
  unfold replay at h
  cases hboot : bootstrap spec opts io with
  | error e =>
    rw [hboot] at h
    cases h
  | ok c₀ =>
    rw [hboot] at h
    exact ⟨c₀, _, _, rfl, runs_calls c₀ rs, h⟩

/-- What a replay shows is reached. -/
theorem exists_reached_of_replay (spec : EndpointSpec) (opts : EndpointOptions) (io : BootIo)
    (rs : List Request) (P : List Occurrence → Controller → Bool)
    (h : (replay spec opts io rs).any (fun r => P r.1 r.2) = true) :
    ∃ log c, Reached spec opts log c ∧ P log c = true := by
  obtain ⟨c₀, log, c, hboot, hrun, hP⟩ := exists_runs_of_replay spec opts io rs P h
  exact ⟨log, c, ⟨io, c₀, hboot, hrun⟩, hP⟩

/-! ## The first state -/

/-- What a controller has when it starts. -/
structure Fresh (spec : EndpointSpec) (opts : EndpointOptions) (c : Controller) : Prop where
  spec : c.spec = spec
  opts : c.opts = opts
  authenticated : c.currentAuthenticated = false
  attended : c.attendedCutover = false
  probation : c.probation = none

theorem Continues.fresh (h : Continues c₀ c) (hf : Fresh spec opts c₀) : Fresh spec opts c where
  spec := h.spec.trans hf.spec
  opts := h.opts.trans hf.opts
  authenticated := h.authenticated.trans hf.authenticated
  attended := Bool.eq_false_iff.mpr fun ha => Bool.eq_false_iff.mp hf.attended (h.attended ha)
  probation := h.probation.elim (fun hp => hp.trans hf.probation) id

/-- Loading the limits keeps the candidates and the background. -/
theorem keeps_loadLimits (c : Controller) (io : BootIo) : Keeps c (c.loadLimits io) := by
  unfold loadLimits
  split
  · exact .refl c
  dsimp only
  split
  · split
    · exact ⟨⟨rfl, rfl, rfl, rfl, rfl, id, .inl rfl⟩, rfl, rfl⟩
    · split
      all_goals exact ⟨⟨rfl, rfl, rfl, rfl, rfl, id, .inl rfl⟩, rfl, rfl⟩
  · exact ⟨⟨rfl, rfl, rfl, rfl, rfl, id, .inl rfl⟩, rfl, rfl⟩

/-- A host name starts afresh. -/
theorem fresh_bootstrapHost (h : bootstrapHost spec opts io = some c) : Fresh spec opts c := by
  have hremembered : Fresh spec opts (remembered spec opts io) := ⟨rfl, rfl, rfl, rfl, rfl⟩
  have hlimits := (keeps_loadLimits _ io).fresh hremembered
  have hround := (keeps_startPreferredRound _ io.nowMs).fresh hlimits
  have hquery := (continues_query _ io.nowMs io.answer io.random).fresh hround
  obtain ⟨chosen, -, rfl⟩ := Option.map_eq_some_iff.mp h
  exact ⟨hquery.spec, hquery.opts, hquery.authenticated, hquery.attended, hquery.probation⟩

/-- The start of a host name is that of its helper. -/
theorem bootstrapHost_of_bootstrap {name : List UInt8} {port : UInt16}
    (h : bootstrap (.hostname name port) opts io = .ok c) :
    bootstrapHost (.hostname name port) opts io = some c := by
  unfold bootstrap at h
  dsimp only at h
  split at h
  · cases h
  · split at h
    next c' hc' =>
      cases h
      exact hc'
    next => cases h

/-- Every start is fresh. -/
theorem fresh_bootstrap (h : bootstrap spec opts io = .ok c) : Fresh spec opts c := by
  unfold bootstrap at h
  split at h
  · cases h
    exact ⟨rfl, rfl, rfl, rfl, rfl⟩
  · split at h
    · cases h
    · split at h
      next c' hc' =>
        cases h
        exact fresh_bootstrapHost hc'
      next => cases h

/-! ## What a call can do -/

/-- The call authenticates nothing and brings no data of the current probation. -/
def Quiet (c : Controller) (r : Request) : Prop :=
  (∀ nowMs write, r ≠ .onAuthenticated nowMs write) ∧
  ∀ nowMs, r = .onAuthenticatedActivity nowMs true →
    ∀ p, c.probation = some p → c.currentV4 ≠ some p.candidate

/-- All that a call can do to the endpoint, the committed address, the authority to return to
it and the cache file. -/
inductive Called (c : Controller) :
    Request → Reply → Controller → List EndpointEvent → Prop where
  | continues {r : Request} {reply : Reply} {c' : Controller} {events : List EndpointEvent}
      (hcont : Continues c c') (hu : Uncached events) (hq : Quiet c r)
      (hreply : ∀ previous, reply ≠ .promotion (.promoted previous))
      (hstay : ∀ s, reply ≠ .switched (some s)) (hrefresh : r ≠ .requestRefresh) :
      Called c r reply c' events
  | leaves {nowMs wallNow : Nat} {reason : CycleReason} {io : CycleIo} {s : Switch}
      {c' : Controller} {events : List EndpointEvent} (h : Cycled c (some s) c' events) :
      Called c (.onCycle nowMs wallNow reason io) (.switched (some s)) c' events
  | ended : Called c .onSessionEnded .done c.onSessionEnded []
  | refreshed : Called c .requestRefresh .done c.requestRefresh []
  | authenticatedV6 {nowMs : Nat} {write : WriteOutcome} {released : Option Ipv4Addr}
      {c' : Controller} (hcur : c.currentV4 = none) (ha : Authenticated c c')
      (hcommitted : c'.committedGood = c.committedGood) (hprobation : c'.probation = c.probation)
      (hattended : c'.attendedCutover = c.attendedCutover) :
      Called c (.onAuthenticated nowMs write) (.authenticated released) c' []
  | committed {nowMs : Nat} {write : WriteOutcome} {released : Option Ipv4Addr}
      {c' : Controller} {events : List EndpointEvent} {cur : Ipv4Addr}
      (hcur : c.currentV4 = some cur) (hwhy : c.policy.enabled = false ∨
        c.committedGood = none ∨ c.committedGood = some cur) (ha : Authenticated c c')
      (hcommitted : c'.committedGood = some cur) (hprobation : c'.probation = none)
      (hevents : events = [] ∨ events = [.cacheWritten cur]) :
      Called c (.onAuthenticated nowMs write) (.authenticated released) c' events
  | begun {nowMs : Nat} {write : WriteOutcome} {released : Option Ipv4Addr} {c' : Controller}
      {cur rollback : Ipv4Addr} (hcur : c.currentV4 = some cur)
      (henabled : c.policy.enabled = true) (hrollback : c.committedGood = some rollback)
      (hne : cur ≠ rollback) (ha : Authenticated c c')
      (hcommitted : c'.committedGood = c.committedGood)
      (hprobation : c'.probation = some ⟨cur, rollback, nowMs, c.attendedCutover,
        c.rollbackAt nowMs, false, none, none, 0⟩) :
      Called c (.onAuthenticated nowMs write) (.authenticated released) c' []
  | counted {nowMs : Nat} {c₁ : Controller} {p : Probation} (hcont : Continues c c₁)
      (hp : c.probation = some p) (hcur : c.currentV4 = some p.candidate) :
      Called c (.onAuthenticatedActivity nowMs true) .done
        { c₁ with probation := some (countData c.maxGap nowMs p) } []
  | authorized {r : Request} {granted : Bool} {c₁ : Controller} {events : List EndpointEvent}
      {p : Probation} (hcont : Continues c c₁) (hu : Uncached events) (hq : Quiet c r)
      (hrefresh : r ≠ .requestRefresh)
      (hp : c.probation = some p) (hcur : c.currentV4 = some p.candidate)
      (hauth : p.directReturn = true ∨ p.rollbackAuthorized = true ∨ Charged events) :
      Called c r (.rollback granted)
        { c₁ with probation := some { p with rollbackAuthorized := true } } events
  | promoted {expected : Ipv4Addr} {nowMs : Nat} {write : WriteOutcome} {p : Probation}
      (hp : c.probation = some p) (hrefusal : c.promotionRefusal expected nowMs p = none)
      (hsaved : (c.saveCache expected write).1 = .written) :
      Called c (.promoteCandidate expected nowMs write) (.promotion (.promoted p.rollback))
        (c.promoteTo expected nowMs) (c.saveCache expected write).2
  | promotionFailed {expected : Ipv4Addr} {nowMs : Nat} {write : WriteOutcome} {p : Probation}
      (hp : c.probation = some p) (hrefusal : c.promotionRefusal expected nowMs p = none)
      (hsaved : (c.saveCache expected write).1 ≠ .written) :
      Called c (.promoteCandidate expected nowMs write) (.promotion .persistenceFailed) c
        (c.saveCache expected write).2

/-- What a cycle can do. -/
theorem called_onCycle (c : Controller) (nowMs wallNow : Nat) (reason : CycleReason)
    (io : CycleIo) :
    let r := c.onCycle nowMs wallNow reason io
    Called c (.onCycle nowMs wallNow reason io) (.switched r.1) r.2.1 r.2.2 := by
  intro r
  have h : Cycled c r.1 r.2.1 r.2.2 := cycled_onCycle c nowMs wallNow reason io
  cases hs : r.1 with
  | some s => exact .leaves (hs ▸ h)
  | none =>
    obtain ⟨hcur, hauth⟩ := h.stays hs
    refine .continues ⟨h.spec, h.opts, hcur, hauth, h.committed, h.attended, h.probation⟩
      h.uncached ⟨nofun, nofun⟩ nofun nofun nofun

/-- What authentication can do. -/
theorem called_onAuthenticated (c : Controller) (nowMs : Nat) (write : WriteOutcome) :
    let r := c.onAuthenticatedAt nowMs write
    Called c (.onAuthenticated nowMs write) (.authenticated r.1) r.2.1 r.2.2 := by
  intro r
  obtain ⟨ha, ⟨hcur, hcommitted, hprobation, hattended, hevents⟩ |
    ⟨cur, hcur, hwhy, hcommitted, hprobation, hevents⟩ |
    ⟨cur, rollback, hcur, henabled, hrollback, hne, hcommitted, hprobation, hevents⟩⟩ :=
    onAuthenticatedAt_cases c nowMs write
  · rw [show r.2.2 = [] from hevents]
    exact .authenticatedV6 hcur ha hcommitted hprobation hattended
  · exact .committed hcur hwhy ha hcommitted hprobation hevents
  · rw [show r.2.2 = [] from hevents]
    exact .begun hcur henabled hrollback hne ha hcommitted hprobation

/-- A call that may authorize a rollback. -/
theorem called_rollback {wallNow : Nat} {io : ChargeIo} {c' : Controller}
    {events : List EndpointEvent} (h : RollbackCalled c wallNow io c' events) (request : Request)
    (hq : Quiet c request) (hrefresh : request ≠ .requestRefresh) (granted : Bool) :
    Called c request (.rollback granted) c' events := by
  cases h with
  | kept h hb => exact .continues h.toContinues hb.uncached hq nofun nofun hrefresh
  | authorized h hb hp hcur hauth =>
    exact .authorized h.toContinues hb.uncached hq hrefresh hp hcur hauth

/-- Every call does one of these. -/
theorem called (c : Controller) (r : Request) :
    Called c r (c.handle r).1 (c.handle r).2.1 (c.handle r).2.2 := by
  cases r with
  | onCycle nowMs wallNow reason io => exact called_onCycle c nowMs wallNow reason io
  | onAuthenticated nowMs write => exact called_onAuthenticated c nowMs write
  | onAuthenticatedActivity nowMs isData =>
    obtain ⟨c₁, hcont, -, -, ⟨h, hquiet⟩ | ⟨rfl, p, hp, hcur, h⟩⟩ :=
      onAuthenticatedActivity_cases c nowMs isData
    · simp only [handle, h]
      refine .continues hcont uncached_nil ⟨nofun, ?_⟩ nofun nofun nofun
      rintro _ ⟨⟩ p hp hcur
      cases hquiet p hp hcur
    · simp only [handle, h]
      exact .counted hcont hp hcur
  | onSessionEnded => exact .ended
  | requestRefresh => exact .refreshed
  | probationRollbackDue nowMs wallNow io =>
    exact called_rollback (rollbackCalled_due ..) (.probationRollbackDue nowMs wallNow io)
      ⟨nofun, nofun⟩ nofun _
  | authorizeOperatorRollback expected nowMs wallNow io =>
    exact called_rollback (rollbackCalled_operator ..)
      (.authorizeOperatorRollback expected nowMs wallNow io) ⟨nofun, nofun⟩ nofun _
  | promoteCandidate expected nowMs write =>
    obtain ⟨h, hnot⟩ | ⟨p, hp, hrefusal, ⟨hsaved, h⟩ | ⟨hsaved, h⟩⟩ :=
      promoteCandidate_cases c expected nowMs write
    · simp only [handle, h]
      refine .continues (.refl c) uncached_nil ⟨nofun, nofun⟩ ?_ nofun nofun
      rintro previous hprev
      exact hnot previous (Reply.promotion.inj hprev)
    · simp only [handle, h]
      exact .promoted hp hrefusal hsaved
    · simp only [handle, h]
      exact .promotionFailed hp hrefusal hsaved

/-! ## What no call changes -/

/-- No call changes the endpoint or the options. -/
theorem handle_spec_opts (c : Controller) (r : Request) :
    (c.handle r).2.1.spec = c.spec ∧ (c.handle r).2.1.opts = c.opts := by
  have h := called c r
  generalize (c.handle r).1 = reply, (c.handle r).2.1 = c', (c.handle r).2.2 = events at h ⊢
  cases h with
  | continues hcont => exact ⟨hcont.spec, hcont.opts⟩
  | leaves h => exact ⟨h.spec, h.opts⟩
  | ended => exact ⟨rfl, rfl⟩
  | refreshed =>
    unfold requestRefresh
    split_ifs <;> exact ⟨rfl, rfl⟩
  | authenticatedV6 _ ha => exact ⟨ha.spec, ha.opts⟩
  | committed _ _ ha => exact ⟨ha.spec, ha.opts⟩
  | begun _ _ _ _ ha => exact ⟨ha.spec, ha.opts⟩
  | counted hcont => exact ⟨hcont.spec, hcont.opts⟩
  | authorized hcont => exact ⟨hcont.spec, hcont.opts⟩
  | promoted => exact ⟨rfl, rfl⟩
  | promotionFailed => exact ⟨rfl, rfl⟩

theorem Runs.spec_opts (h : Runs c₀ log c) : c.spec = c₀.spec ∧ c.opts = c₀.opts := by
  refine h.invariant (I := fun _ c => c.spec = c₀.spec ∧ c.opts = c₀.opts) ⟨rfl, rfl⟩ ?_
  intro log c r _ ih
  obtain ⟨hspec, hopts⟩ := handle_spec_opts c r
  exact ⟨hspec.trans ih.1, hopts.trans ih.2⟩

theorem Reached.spec_opts (h : Reached spec opts log c) : c.spec = spec ∧ c.opts = opts := by
  obtain ⟨io, c₀, hboot, hrun⟩ := h
  have hfresh := fresh_bootstrap hboot
  exact ⟨hrun.spec_opts.1.trans hfresh.spec, hrun.spec_opts.2.trans hfresh.opts⟩

/-- The controller of a host name stays dynamic. -/
theorem Reached.isDynamic {name : List UInt8} {port : UInt16}
    (h : Reached (.hostname name port) opts log c) : c.isDynamic = true := by
  rw [Controller.isDynamic, h.spec_opts.1]
  rfl

/-! ## Probations -/

/-- What is true of a probation as long as it lasts: it is of the endpoint an authenticated
controller uses, and returns to the committed address, which is another one. -/
structure Probationary (c : Controller) (p : Probation) : Prop where
  enabled : c.policy.enabled = true
  committed : c.committedGood = some p.rollback
  other : p.candidate ≠ p.rollback
  v4 : c.currentV4 ≠ none
  active : c.currentAuthenticated = true → c.currentV4 = some p.candidate

theorem currentV4_congr (h : c'.current = c.current) : c'.currentV4 = c.currentV4 := by
  simp only [currentV4, h]

/-- The controller's probation, if there is one, is in order. -/
def Settled (c : Controller) : Prop := ∀ p, c.probation = some p → Probationary c p

/-- A probation stays in order while the endpoint is kept, whatever else becomes of it. -/
theorem Continues.probationary {p : Probation} (h : Continues c c') (hp : Probationary c p)
    (p' : Probation) (hcandidate : p'.candidate = p.candidate)
    (hrollback : p'.rollback = p.rollback) : Probationary c' p' where
  enabled := by simpa only [policy, h.opts] using hp.enabled
  committed := by rw [h.committed, hp.committed, hrollback]
  other := by
    rw [hcandidate, hrollback]
    exact hp.other
  v4 := by
    rw [h.currentV4]
    exact hp.v4
  active := by
    rw [h.currentV4, h.authenticated, hcandidate]
    exact hp.active

theorem Continues.settled (h : Continues c c') (hs : Settled c) : Settled c' := by
  intro p hp
  obtain hsame | hnone := h.probation
  · exact h.probationary (hs p (hsame ▸ hp)) p rfl rfl
  · rw [hnone] at hp
    cases hp

/-- Every call keeps probations in order. -/
theorem settled_handle (r : Request) (hs : Settled c) : Settled (c.handle r).2.1 := by
  have h := called c r
  generalize (c.handle r).1 = reply, (c.handle r).2.1 = c', (c.handle r).2.2 = events at h ⊢
  cases h with
  | continues hcont => exact hcont.settled hs
  | leaves h =>
    obtain ⟨target, hto, hcur, hauth, -⟩ := h.leaves _ rfl
    intro p hp
    obtain hsame | hnone := h.probation
    · obtain ⟨henabled, hcommitted, hother, -, -⟩ := hs p (hsame ▸ hp)
      refine ⟨?_, h.committed.trans hcommitted, hother, ?_, ?_⟩
      · simpa only [policy, h.opts] using henabled
      · simp [currentV4, hcur, hto]
      · rw [hauth]
        intro h
        cases h
    · rw [hnone] at hp
      cases hp
  | ended =>
    intro p hp
    obtain ⟨henabled, hcommitted, hother, hv4, -⟩ := hs p hp
    refine ⟨henabled, hcommitted, hother, hv4, fun h => ?_⟩
    cases h
  | refreshed =>
    unfold requestRefresh
    split_ifs
    · intro p hp
      obtain ⟨h1, h2, h3, h4, h5⟩ := hs p hp
      exact ⟨h1, h2, h3, h4, h5⟩
    · exact hs
  | authenticatedV6 hcur ha hcommitted hprobation =>
    intro p hp
    exact absurd hcur (hs p (hprobation ▸ hp)).v4
  | committed _ _ _ _ hprobation =>
    intro p hp
    rw [hprobation] at hp
    cases hp
  | begun hcur henabled hrollback hne ha hcommitted hprobation =>
    intro p hp
    have hcur' := (currentV4_congr ha.current).trans hcur
    obtain rfl := Option.some.inj (hprobation.symm.trans hp)
    refine ⟨?_, hcommitted.trans hrollback, hne, ?_, fun _ => hcur'⟩
    · simpa only [policy, ha.opts] using henabled
    · rw [hcur']
      exact Option.some_ne_none _
  | @counted nowMs c₁ p hcont hp hcur =>
    rintro _ ⟨⟩
    obtain ⟨h1, h2, h3, h4, h5⟩ := hcont.probationary (hs p hp) (countData c.maxGap nowMs p)
      rfl rfl
    exact ⟨h1, h2, h3, h4, h5⟩
  | @authorized r granted c₁ events p hcont hu hq hrefresh hp =>
    rintro _ ⟨⟩
    obtain ⟨h1, h2, h3, h4, h5⟩ := hcont.probationary (hs p hp)
      { p with rollbackAuthorized := true } rfl rfl
    exact ⟨h1, h2, h3, h4, h5⟩
  | promoted =>
    intro p hp
    cases hp
  | promotionFailed => exact hs

/-- Every reached controller is settled. -/
theorem Reached.settled (h : Reached spec opts log c) : Settled c := by
  obtain ⟨io, c₀, hboot, hrun⟩ := h
  refine hrun.invariant (I := fun _ => Settled) ?_ fun _ _ r _ ih => settled_handle r ih
  intro p hp
  rw [(fresh_bootstrap hboot).probation] at hp
  cases hp

/-! ## A cutover

The runs of the tests: `x:443` resolves to `9.9.9.9` and later to `8.8.8.8`. -/

/-- A cache file and the default limits. -/
def cachedOpts : EndpointOptions := { cacheFile := true, lastGoodFallback := { enabled := true } }

/-- A first start that resolves the name to `9.9.9.9`. -/
def firstBoot : BootIo :=
  ⟨0, 1000, .absent, true, .absent, some ⟨[#v[9, 9, 9, 9]], 60⟩, 0⟩

/-- A cycle whose query answers with one address, or fails, and that is granted no charge. -/
def answering (nowMs : Nat) (answer : Option Ipv4Addr) : CycleIo :=
  ⟨answer.map fun ip => ⟨[ip], 60⟩, 0, nowMs, 1002, ⟨false, .absent, .refused⟩,
    ⟨false, .absent, .refused⟩⟩

/-- `9.9.9.9` is committed, an attended reconnect leads to `8.8.8.8`, and that delivers data
for 30 seconds. -/
def cutover : List Request :=
  [.onAuthenticated 1000 .written, .requestRefresh, .onSessionEnded,
    .onCycle 2000 1002 .forced (answering 2000 (some #v[8, 8, 8, 8])),
    .onAuthenticated 3000 .written]
  ++ [3000, 8000, 13000, 18000, 23000, 28000, 33000].map (.onAuthenticatedActivity · true)

end Controller

end Udp2raw
