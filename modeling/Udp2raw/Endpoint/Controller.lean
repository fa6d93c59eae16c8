import Udp2raw.Client.State
import Udp2raw.Endpoint.Budget

/-!
# The endpoint controller

`EndpointController` decides which relay address the client uses: it keeps the
candidates of the last usable DNS answer, the committed address the cache file
remembers, and, with the last-good fallback, the probation of an address that is
not committed yet. Clocks, DNS answers, random numbers and the ends of file
operations are arguments; log lines are left out.
-/

namespace Udp2raw

/-- `TIMER_INTERVAL_MS`. -/
def timerIntervalMs : Nat := 400

/-- `MIN_PROMOTION_DATA_PACKETS`. -/
def minPromotionDataPackets : Nat := 3

/-- `EndpointOptions`; of the cache file only whether one is set. -/
structure EndpointOptions where
  allowPrivate : Bool := false
  cacheFile : Bool := false
  bootstrap : Option Ipv4Addr := none
  backoffMinMs : UInt64 := 2000
  backoffMaxMs : UInt64 := 60000
  lastGoodFallback : LastGoodFallbackPolicy := {}
  deriving DecidableEq, Repr

/-! ## Backoff -/

/-- `Backoff`. -/
structure Backoff where
  failures : Nat
  notBeforeMs : Nat
  minMs : Nat
  maxMs : Nat
  deriving DecidableEq, Repr

namespace Backoff

/-- `Backoff::new`. -/
def new (minMs maxMs : Nat) : Backoff := ⟨0, 0, max minMs 1, max maxMs (max minMs 1)⟩

/-- `Backoff::ready`. -/
def ready (b : Backoff) (nowMs : Nat) : Bool := b.notBeforeMs ≤ nowMs

/-- The delay `Backoff::on_failure` returns; the sum wraps in a release build. -/
def failureDelay (b : Backoff) (random : UInt32) : Nat :=
  let base := min (satMul b.minMs (2 ^ min b.failures 20)) b.maxMs
  let jitterSpan := base / 2
  let jitter := if jitterSpan = 0 then 0 else random.toNat % (jitterSpan + 1)
  max (min b.minMs b.maxMs)
    (min ((base - base / 4 + jitter) % 2 ^ 64) (satAdd b.maxMs (b.maxMs / 4)))

/-- `Backoff::on_failure`. -/
def onFailure (b : Backoff) (nowMs : Nat) (random : UInt32) : Backoff :=
  { b with failures := satAdd32 b.failures 1, notBeforeMs := satAdd nowMs (b.failureDelay random) }

/-- `Backoff::on_success`. -/
def onSuccess (b : Backoff) : Backoff := { b with failures := 0, notBeforeMs := 0 }

/-- `Backoff::on_pending_success`. -/
def onPendingSuccess (b : Backoff) (nowMs : Nat) : Backoff :=
  { b with failures := 0, notBeforeMs := satAdd nowMs b.minMs }

end Backoff

/-! ## State -/

/-- `Probation`. -/
structure Probation where
  candidate : Ipv4Addr
  rollback : Ipv4Addr
  authenticatedAtMs : Nat
  directReturn : Bool
  rollbackAtMs : Option Nat
  rollbackAuthorized : Bool := false
  firstDataMs : Option Nat := none
  lastDataMs : Option Nat := none
  dataPackets : Nat := 0
  deriving DecidableEq, Repr

/-- `EndpointController`, without its resolver and the query counter of the logs. -/
structure Controller where
  spec : EndpointSpec
  opts : EndpointOptions
  current : IpAddr × UInt16
  currentAuthenticated : Bool := false
  committedGood : Option Ipv4Addr := none
  cacheFreshUntilMs : Option Nat := none
  committedRuntimeActivityMs : Option Nat := none
  candidates : List Ipv4Addr := []
  expiresAtMs : Option Nat := none
  backoff : Backoff
  forceRefresh : Bool := false
  reconnectRefreshPending : Bool := false
  preferredFailures : Nat := 0
  preferredRoundDeadlineMs : Option Nat := none
  preferredAttempts : Nat := 0
  attendedCutover : Bool := false
  probation : Option Probation := none
  fallbackState : FallbackState
  /-- `fallback_state_path.is_some()`. -/
  fallbackStatePath : Bool := false
  fallbackStateUsable : Bool := true
  deriving DecidableEq, Repr

/-- `Switch::why`, one constructor per text. -/
inductive SwitchWhy where
  /-- "rolling back to preserved committed-good {rollback}" -/
  | rollback (rollback : Ipv4Addr)
  /-- "attended FIFO cutover to DNS-preferred {target}" -/
  | attendedCutover (target : Ipv4Addr)
  /-- "probationary {cur} failed; returning directly to committed-good {rollback}" -/
  | probationFailed (cur rollback : Ipv4Addr)
  /-- "attended candidate {cur} failed; returning directly to preserved {rollback}" -/
  | attendedFailed (cur rollback : Ipv4Addr)
  /-- "committed endpoint {cur} failed; trying bounded DNS candidate {next}" -/
  | committedFailed (cur next : Ipv4Addr)
  /-- "preferred round failed; pre-charged rollback probe of committed-good {good}" -/
  | preferredRoundFailed (good : Ipv4Addr)
  /-- "handshake with {cur} failed; trying next bounded DNS candidate {next}" -/
  | handshakeFailed (cur next : Ipv4Addr)
  /-- "probationary session {cur} was lost; returning to {rollback}" -/
  | probationLost (cur rollback : Ipv4Addr)
  /-- "failed committed endpoint {cur} is no longer in DNS" -/
  | committedUnlisted (cur : Ipv4Addr)
  deriving DecidableEq, Repr

/-- `Switch`. -/
structure Switch where
  from_ : IpAddr × UInt16
  to_ : IpAddr × UInt16
  why : SwitchWhy
  deriving DecidableEq, Repr

/-- `PromotionResult`; the text of a failed write is left out. -/
inductive PromotionResult where
  | promoted (previous : Ipv4Addr)
  | notProbationary
  | wrongCandidate
  | notActive
  | rollbackExpired
  | staleEvidence (idleMs : Nat)
  | insufficientEvidence (packets spanMs : Nat)
  | persistenceFailed
  deriving DecidableEq, Repr

/-- What a call does to the world besides its reply. -/
inductive EndpointEvent where
  /-- `resolve_a` was called. -/
  | queried
  /-- The cache file was replaced by one that names the address. -/
  | cacheWritten (addr : Ipv4Addr)
  /-- The state file was replaced; `synced` says that the write also returned `Ok`. -/
  | stateWritten (state : FallbackState) (synced : Bool)
  deriving DecidableEq, Repr

/-- The parts of a `DnsAnswer` the controller reads. -/
structure DnsAnswer where
  addrs : List Ipv4Addr
  ttl : UInt32
  deriving DecidableEq, Repr

namespace Controller

variable (c : Controller)

/-- The fallback policy. -/
abbrev policy : LastGoodFallbackPolicy := c.opts.lastGoodFallback

/-- The current address, if it is an IPv4 one. -/
def currentV4 : Option Ipv4Addr :=
  match c.current.1 with
  | .v4 ip => some ip
  | .v6 _ => none

/-- `is_dynamic`. -/
def isDynamic : Bool := c.spec.isDynamic

/-- The current endpoint is authenticated and committed. -/
def healthy : Bool := c.currentAuthenticated && c.currentV4.isSome && c.committedGood == c.currentV4

/-! ## Freshness and rounds -/

/-- `committed_health_deadline`. -/
def committedHealthDeadline (nowMs : Nat) : Option (Ipv4Addr × Nat) :=
  if c.policy.enabled = false then none
  else
    c.committedGood.bind fun committed =>
      let runtimeDeadline := (c.committedRuntimeActivityMs.map
        fun last => satAdd last c.policy.rollbackWindowMs.toNat).filter (nowMs ≤ ·)
      let cacheDeadline := c.cacheFreshUntilMs.filter (nowMs ≤ ·)
      (runtimeDeadline.toList ++ cacheDeadline.toList).max?.map fun deadline =>
        (committed, deadline)

/-- `committed_fresh`. -/
def committedFresh (nowMs : Nat) (cur : Ipv4Addr) : Option Ipv4Addr :=
  (c.committedHealthDeadline nowMs).bind fun d => if d.1 ≠ cur then some d.1 else none

/-- `start_preferred_round`. -/
def startPreferredRound (nowMs : Nat) : Controller :=
  if c.policy.enabled ∧ c.preferredRoundDeadlineMs = none then
    { c with
      preferredRoundDeadlineMs := some (satAdd nowMs c.policy.preferredRoundTimeoutMs.toNat)
      preferredAttempts := 0 }
  else c

/-- `round_expired`, and `preferred_round_expired`. -/
def roundExpired (nowMs : Nat) : Bool := c.preferredRoundDeadlineMs.any (· ≤ nowMs)

/-! ## Candidates -/

/-- `canonical_candidates`. -/
def canonicalCandidates : List Ipv4Addr := (sortDedup c.candidates).take maxEndpointCandidates

/-- `next_dns_candidate`. -/
def nextDnsCandidate (cur : Ipv4Addr) : Option Ipv4Addr :=
  let set := c.canonicalCandidates
  if set = [] then none
  else set[((set.findIdx? (· = cur)).map fun i => (i + 1) % set.length).getD 0]?

/-- `order_candidates`. -/
def orderCandidates : Controller :=
  let cur := c.currentV4
  let rest := sortDedup
    (c.candidates.filter fun ip => some ip ≠ cur ∧ some ip ≠ c.committedGood)
  let first := cur.filter (· ∈ c.candidates)
  let second := c.committedGood.filter fun good => good ∈ c.candidates ∧ some good ≠ cur
  { c with
    candidates := (first.toList ++ second.toList ++ rest).take maxEndpointCandidates }

/-- The addresses of an answer that `query` keeps, in the answer's order. -/
def usable (addrs : List Ipv4Addr) : List Ipv4Addr :=
  addrs.foldl (fun safe ip =>
    if endpointIpOk ip c.opts.allowPrivate ∧ ip ∉ safe then safe ++ [ip] else safe) []

/-- The part of `query` after a usable answer. -/
def acceptAnswer (nowMs : Nat) (ttl : UInt32) (safe : List Ipv4Addr) : Controller :=
  let safe := (sortDedup safe).take maxEndpointCandidates
  let changed := safe ≠ c.canonicalCandidates
  { c with
    backoff := if c.reconnectRefreshPending then c.backoff.onPendingSuccess nowMs
      else c.backoff.onSuccess
    expiresAtMs := some (satAdd nowMs (satMul ttl.toNat 1000))
    preferredFailures := if changed then 0 else c.preferredFailures
    preferredAttempts := if changed then 0 else c.preferredAttempts
    candidates := safe }.orderCandidates

/-- `query`: whether a usable answer arrived. -/
def query (nowMs : Nat) (answer : Option DnsAnswer) (random : UInt32) : Bool × Controller :=
  if c.spec.name? = none then (false, c)
  else
    match answer with
    | none => (false, { c with backoff := c.backoff.onFailure nowMs random })
    | some ans =>
      if c.usable ans.addrs = [] then
        (false, { c with backoff := c.backoff.onFailure nowMs random })
      else (true, c.acceptAnswer nowMs ans.ttl (c.usable ans.addrs))

/-! ## Charges -/

/-- `charge_fallback`: whether the charge is granted. -/
def chargeFallback (wallNow : Nat) (candidate : Ipv4Addr) (io : ChargeIo) :
    Bool × Controller × List EndpointEvent :=
  if c.fallbackStateUsable = false ∨ c.fallbackStatePath = false then (false, c, [])
  else
    match c.spec.name? with
    | none => (false, c, [])
    | some name =>
      match lockedCharge c.policy name c.spec.port c.opts.allowPrivate wallNow candidate
          c.canonicalCandidates io with
      | .charged next => (true, { c with fallbackState := next }, [.stateWritten next true])
      | .denied => (false, c, [])
      | .failed => (false, { c with fallbackStateUsable := false }, [])
      | .unsynced next =>
        (false, { c with fallbackStateUsable := false }, [.stateWritten next false])

/-! ## Authentication and activity -/

/-- `save_cache_with_policy`, given how writing the file would end. -/
def saveCacheWithPolicy (host : List UInt8) (port : UInt16) (addr : Ipv4Addr)
    (allowPrivate : Bool) (write : WriteOutcome) : WriteOutcome :=
  if (validateHostname host).toOption = none then .refused
  else if host ≠ canonicalHostname host then .refused
  else if port = 0 then .refused
  else if endpointIpOk addr allowPrivate = false then .refused
  else write

/-- The cache write of `persist_committed` and `promote_candidate`, if there is a cache file:
how it ends and what it leaves. -/
def saveCache (addr : Ipv4Addr) (write : WriteOutcome) : WriteOutcome × List EndpointEvent :=
  match c.opts.cacheFile, c.spec.name? with
  | true, some name =>
    let done := saveCacheWithPolicy name c.spec.port addr c.opts.allowPrivate write
    (done, if done = .refused then [] else [.cacheWritten addr])
  | _, _ => (.written, [])

/-- `on_session_ended`. -/
def onSessionEnded : Controller := { c with currentAuthenticated := false }

/-- `request_refresh`. -/
def requestRefresh : Controller :=
  if c.isDynamic then
    { c with
      attendedCutover := c.healthy
      forceRefresh := true
      backoff := c.backoff.onSuccess }
  else c

/-- The `rollback_at_ms` of a probation that starts now. -/
def rollbackAt (nowMs : Nat) : Option Nat :=
  let rollbackGraceMs := 2 * timerIntervalMs
  let freshnessDeadline := (c.committedHealthDeadline nowMs).map fun d =>
    min d.2 (satAdd nowMs c.policy.rollbackWindowMs.toNat)
  let requiredRollbackHorizonMs :=
    satAdd (satAdd nowMs c.policy.probationMs.toNat) rollbackGraceMs
  (freshnessDeadline.filter (requiredRollbackHorizonMs ≤ ·)).map (· - rollbackGraceMs)

/-- `on_authenticated_at`: the address that is no longer committed, if it changed. -/
def onAuthenticatedAt (nowMs : Nat) (write : WriteOutcome) :
    Option Ipv4Addr × Controller × List EndpointEvent :=
  let c := { c with
    currentAuthenticated := true
    reconnectRefreshPending := false
    backoff := c.backoff.onSuccess }
  match c.currentV4 with
  | none => (none, c, [])
  | some cur =>
    let c := { c with
      preferredFailures := 0, preferredAttempts := 0, preferredRoundDeadlineMs := none }
    let prev := c.committedGood
    if c.policy.enabled = false ∨ prev = none ∨ prev = some cur then
      let c := { c with
        committedGood := some cur
        committedRuntimeActivityMs := some nowMs
        cacheFreshUntilMs := none
        probation := none
        attendedCutover := false }
      (prev.filter (· ≠ cur), c.orderCandidates, (c.saveCache cur write).2)
    else
      let probation := prev.map fun rollback => {
        candidate := cur
        rollback := rollback
        authenticatedAtMs := nowMs
        directReturn := c.attendedCutover
        rollbackAtMs := c.rollbackAt nowMs }
      (none, { c with probation := probation, attendedCutover := false }.orderCandidates, [])

/-- The largest gap between two data packets of one piece of evidence. -/
def maxGap : Nat := max 1 (min c.policy.probationMs.toNat 5000)

/-- A data packet of the candidate, as `on_authenticated_activity` counts it. -/
def countData (gap nowMs : Nat) (p : Probation) : Probation :=
  let stale := p.lastDataMs.any fun last => gap < nowMs - last
  let first := if stale then none else p.firstDataMs
  let packets := if stale then 0 else p.dataPackets
  { p with
    firstDataMs := some (first.getD nowMs)
    lastDataMs := some nowMs
    dataPackets := satAdd32 packets 1 }

/-- `on_authenticated_activity`. -/
def onAuthenticatedActivity (nowMs : Nat) (isData : Bool) : Controller :=
  match c.currentV4 with
  | none => c
  | some cur =>
    let c := if c.healthy then { c with committedRuntimeActivityMs := some nowMs } else c
    if isData = false then c
    else
      match c.probation with
      | none => c
      | some p =>
        if p.candidate = cur then
          { c with probation := some (countData c.maxGap nowMs p) }
        else c

/-- The `span_ms` of a probation's evidence. -/
def spanMs (p : Probation) : Nat :=
  match p.lastDataMs, p.firstDataMs with
  | some last, some first => last - first
  | _, _ => 0

/-- What `promote_candidate` refuses with before it writes the cache. -/
def promotionRefusal (expected : Ipv4Addr) (nowMs : Nat) (p : Probation) :
    Option PromotionResult :=
  let idleMs := (p.lastDataMs.map (nowMs - ·)).getD u64Max
  if p.candidate ≠ expected then some .wrongCandidate
  else if c.current.1 ≠ .v4 expected ∨ c.currentAuthenticated = false then some .notActive
  else if p.rollbackAtMs.any fun deadline =>
      deadline ≤ nowMs ∨ c.committedFresh nowMs expected ≠ some p.rollback then
    some .rollbackExpired
  else if p.dataPackets < minPromotionDataPackets ∨ spanMs p < c.policy.probationMs.toNat then
    some (.insufficientEvidence p.dataPackets (spanMs p))
  else if c.maxGap < idleMs then some (.staleEvidence idleMs)
  else none

/-- The state after a promotion. -/
def promoteTo (expected : Ipv4Addr) (nowMs : Nat) : Controller :=
  { c with
    committedGood := some expected
    committedRuntimeActivityMs := some nowMs
    cacheFreshUntilMs := none
    probation := none
    attendedCutover := false }.orderCandidates

/-- `promote_candidate`. -/
def promoteCandidate (expected : Ipv4Addr) (nowMs : Nat) (write : WriteOutcome) :
    PromotionResult × Controller × List EndpointEvent :=
  match c.probation with
  | none => (.notProbationary, c, [])
  | some p =>
    match c.promotionRefusal expected nowMs p with
    | some refusal => (refusal, c, [])
    | none =>
      let saved := c.saveCache expected write
      if saved.1 = .written then
        (.promoted p.rollback, c.promoteTo expected nowMs, saved.2)
      else (.persistenceFailed, c, saved.2)

/-! ## Rollback authority -/

/-- The common end of `probation_rollback_due_at` and `authorize_operator_rollback_at`: a
fresh rollback point is charged for, unless that is not needed, and authorized. -/
def authorizeRollback (nowMs wallNow : Nat) (cur : Ipv4Addr) (p : Probation) (io : ChargeIo) :
    Bool × Controller × List EndpointEvent :=
  if c.committedFresh nowMs cur ≠ some p.rollback then (false, c, [])
  else if p.rollbackAuthorized ∨ p.directReturn then
    (true, { c with probation := some { p with rollbackAuthorized := true } }, [])
  else
    let charge := c.chargeFallback wallNow p.rollback io
    if charge.1 then
      (true, { charge.2.1 with probation := some { p with rollbackAuthorized := true } },
        charge.2.2)
    else (false, charge.2)

/-- `probation_rollback_due_at`. -/
def probationRollbackDueAt (nowMs wallNow : Nat) (io : ChargeIo) :
    Bool × Controller × List EndpointEvent :=
  match c.currentV4, c.probation with
  | some cur, some p =>
    if p.candidate = cur ∧ p.rollbackAtMs.any (· ≤ nowMs) then
      c.authorizeRollback nowMs wallNow cur p io
    else (false, c, [])
  | _, _ => (false, c, [])

/-- `authorize_operator_rollback_at`. -/
def authorizeOperatorRollbackAt (expected : Ipv4Addr) (nowMs wallNow : Nat) (io : ChargeIo) :
    Bool × Controller × List EndpointEvent :=
  match c.currentV4, c.probation with
  | some cur, some p =>
    if cur = expected ∧ p.candidate = expected then
      c.authorizeRollback nowMs wallNow cur p io
    else (false, c, [])
  | _, _ => (false, c, [])

end Controller

end Udp2raw
