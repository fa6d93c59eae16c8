import Udp2raw.Endpoint.Controller

/-!
# Cycles of the endpoint controller

The client asks the controller at the start of every attempt. A cycle refreshes
the candidates when that is due and then decides, by the reason of the attempt,
whether to leave the current address, and for which.
-/

namespace Udp2raw

namespace Controller

variable (c : Controller)

/-- What one cycle meets: the resolver's answer, a random number, the clocks after the query
and the files its charges find. -/
structure CycleIo where
  answer : Option DnsAnswer
  random : UInt32
  laterMs : Nat
  laterWall : Nat
  /-- For the charge a probation needs. -/
  returnCharge : ChargeIo
  /-- For the charge of a failed preferred round. -/
  probeCharge : ChargeIo
  deriving DecidableEq, Repr

/-- `switch_to`. -/
def switchTo (target : Ipv4Addr) (why : SwitchWhy) : Option Switch × Controller :=
  match c.currentV4 with
  | none => (none, c)
  | some cur =>
    if target = cur then (none, c)
    else
      let next : IpAddr × UInt16 := (.v4 target, c.spec.port)
      (some ⟨c.current, next, why⟩,
        { c with current := next, currentAuthenticated := false }.orderCandidates)

/-- `select` for `ProbationExpired` and `OperatorRollback`. -/
def selectRollback : Option Switch × Controller :=
  match c.probation with
  | none => (none, c)
  | some p =>
    if p.rollbackAuthorized = false then (none, c)
    else
      { c with probation := none, attendedCutover := false }.switchTo p.rollback
        (.rollback p.rollback)

/-- The committed endpoint stays fresh through an attended cutover, its handshake and its
probation. -/
def freshThroughCutover (nowMs : Nat) : Bool :=
  let roundDeadline := c.preferredRoundDeadlineMs.getD nowMs
  let requiredThrough := satAdd (satAdd (satAdd roundDeadline clientHandshakeTimeoutMs.toNat)
    c.policy.probationMs.toNat) (2 * timerIntervalMs)
  (c.committedHealthDeadline nowMs).any fun d => requiredThrough ≤ d.2

/-- `select` for `Forced`. -/
def selectForced (nowMs : Nat) (cur : Ipv4Addr) (querySucceeded : Option Bool) :
    Option Switch × Controller :=
  if c.roundExpired nowMs then
    (none, { c with preferredRoundDeadlineMs := none, attendedCutover := false })
  else if querySucceeded ≠ some true then (none, { c with attendedCutover := false })
  else
    match c.candidates with
    | [] => (none, { c with attendedCutover := false })
    | target :: _ =>
      if target = cur then (none, { c with attendedCutover := false })
      else
        let c := c.startPreferredRound nowMs
        if c.policy.enabled ∧ c.committedGood = some cur ∧ c.freshThroughCutover nowMs = false
        then (none, { c with attendedCutover := false })
        else c.switchTo target (.attendedCutover target)

/-- The return from a probationary endpoint on `AttemptFailed` and `SessionLost`: where to,
if it is fresh and needs no charge or gets one. -/
def returnDue (nowMs wallNow : Nat) (cur : Ipv4Addr) (io : ChargeIo) :
    Option Ipv4Addr × Controller × List EndpointEvent :=
  match c.probation with
  | none => (none, c, [])
  | some p =>
    if p.candidate = cur ∧ c.committedFresh nowMs cur = some p.rollback then
      if p.directReturn then (some p.rollback, c, [])
      else
        let charge := c.chargeFallback wallNow p.rollback io
        (if charge.1 then some p.rollback else none, charge.2)
    else (none, c, [])

/-- `AttemptFailed` on the committed endpoint. -/
def retryCommitted (nowMs : Nat) (cur : Ipv4Addr) : Option Switch × Controller :=
  if c.roundExpired nowMs then
    (none, { c with preferredRoundDeadlineMs := none, preferredAttempts := 0 })
  else
    let c := c.startPreferredRound nowMs
    match (c.nextDnsCandidate cur).filter (· ≠ cur) with
    | some next => c.switchTo next (.committedFailed cur next)
    | none => (none, c)

/-- One more failed attempt on a DNS candidate. -/
def countFailure (nowMs : Nat) : Controller :=
  let c := c.startPreferredRound nowMs
  { c with
    preferredFailures := satAdd32 c.preferredFailures 1
    preferredAttempts := satAdd32 c.preferredAttempts 1 }

/-- `fallback_due`. -/
def fallbackDue (nowMs : Nat) : Bool :=
  c.roundExpired nowMs
    || (c.policy.afterFailures.toNat ≤ c.preferredFailures
      && max c.canonicalCandidates.length 1 ≤ c.preferredAttempts)

/-- The pre-charged probe of a failed preferred round: its target, if it is granted. -/
def probeDue (nowMs wallNow : Nat) (cur : Ipv4Addr) (io : ChargeIo) :
    Option Ipv4Addr × Controller × List EndpointEvent :=
  if c.fallbackDue nowMs then
    match c.committedFresh nowMs cur with
    | some good =>
      let charge := c.chargeFallback wallNow good io
      (if charge.1 then some good else none, charge.2)
    | none => (none, c, [])
  else (none, c, [])

/-- The next DNS candidate, as long as the round lasts. -/
def nextInRound (nowMs : Nat) (cur : Ipv4Addr) : Option Switch × Controller :=
  if c.roundExpired nowMs then
    (none, { c with preferredRoundDeadlineMs := none, preferredAttempts := 0 })
  else
    match (c.nextDnsCandidate cur).filter (· ≠ cur) with
    | some next => c.switchTo next (.handshakeFailed cur next)
    | none => (none, c)

/-- `AttemptFailed` on an endpoint that is not committed. -/
def candidateFailed (nowMs wallNow : Nat) (cur : Ipv4Addr) (io : ChargeIo) :
    Option Switch × Controller × List EndpointEvent :=
  match (c.countFailure nowMs).probeDue nowMs wallNow cur io with
  | (some good, c, events) =>
    let switched := { c with preferredRoundDeadlineMs := none }.switchTo good
      (.preferredRoundFailed good)
    (switched.1, switched.2, events)
  | (none, c, events) =>
    let switched := c.nextInRound nowMs cur
    (switched.1, switched.2, events)

/-- The rest of `AttemptFailed`, when the endpoint is not left for a probation's rollback. -/
def attemptFailed (nowMs wallNow : Nat) (cur : Ipv4Addr) (io : ChargeIo) :
    Option Switch × Controller × List EndpointEvent :=
  match if c.attendedCutover then c.committedGood.filter (· ≠ cur) else none with
  | some rollback =>
    let switched := { c with attendedCutover := false }.switchTo rollback
      (.attendedFailed cur rollback)
    (switched.1, switched.2, [])
  | none =>
    if c.committedGood = some cur then
      let switched := c.retryCommitted nowMs cur
      (switched.1, switched.2, [])
    else c.candidateFailed nowMs wallNow cur io

/-- `select` for `AttemptFailed`. -/
def selectAttemptFailed (nowMs wallNow : Nat) (cur : Ipv4Addr) (io : CycleIo) :
    Option Switch × Controller × List EndpointEvent :=
  match c.returnDue nowMs wallNow cur io.returnCharge with
  | (some rollback, c, events) =>
    let switched := { c with probation := none }.switchTo rollback
      (.probationFailed cur rollback)
    (switched.1, switched.2, events)
  | (none, c, events) =>
    let rest := c.attemptFailed nowMs wallNow cur io.probeCharge
    (rest.1, rest.2.1, events ++ rest.2.2)

/-- A lost committed endpoint that DNS no longer lists is left for the first candidate. -/
def leaveUnlisted (nowMs : Nat) (cur : Ipv4Addr) : Option Switch × Controller :=
  if c.committedGood = some cur ∧ cur ∉ c.candidates then
    let c := c.startPreferredRound nowMs
    match c.canonicalCandidates.head? with
    | some target => c.switchTo target (.committedUnlisted cur)
    | none => (none, c)
  else (none, c)

/-- `select` for `SessionLost`. -/
def selectSessionLost (nowMs wallNow : Nat) (cur : Ipv4Addr) (io : CycleIo) :
    Option Switch × Controller × List EndpointEvent :=
  match c.returnDue nowMs wallNow cur io.returnCharge with
  | (some rollback, c, events) =>
    let switched := { c with probation := none }.switchTo rollback
      (.probationLost cur rollback)
    (switched.1, switched.2, events)
  | (none, c, events) =>
    let switched := c.leaveUnlisted nowMs cur
    (switched.1, switched.2, events)

/-- `select`. -/
def select (nowMs wallNow : Nat) (reason : CycleReason) (querySucceeded : Option Bool)
    (io : CycleIo) : Option Switch × Controller × List EndpointEvent :=
  match c.currentV4 with
  | none => (none, c, [])
  | some cur =>
    match reason with
    | .probationExpired => (c.selectRollback.1, c.selectRollback.2, [])
    | .operatorRollback => (c.selectRollback.1, c.selectRollback.2, [])
    | .forced =>
      let switched := c.selectForced nowMs cur querySucceeded
      (switched.1, switched.2, [])
    | .attemptFailed => c.selectAttemptFailed nowMs wallNow cur io
    | .sessionLost => c.selectSessionLost nowMs wallNow cur io
    | .startup => (none, c, [])

/-- A refresh is due at the start of a cycle. -/
def refreshIsDue (nowMs : Nat) : Bool :=
  c.forceRefresh || c.reconnectRefreshPending || c.expiresAtMs.all (· ≤ nowMs)
    || c.candidates.isEmpty

/-- The reasons for which a cycle that refreshes starts a preferred round. -/
def openRound (nowMs : Nat) (reason : CycleReason) : Controller :=
  if reason = .forced ∨ reason = .sessionLost ∨ reason = .attemptFailed then
    c.startPreferredRound nowMs
  else c

/-- The refresh of a cycle: whether a query succeeded, if one was made. -/
def refresh (nowMs : Nat) (reason : CycleReason) (io : CycleIo) :
    Option Bool × Controller × List EndpointEvent :=
  let c := c.openRound nowMs reason
  if c.backoff.ready nowMs then
    let queried := { c with forceRefresh := false }.query nowMs io.answer io.random
    (some queried.1, queried.2, [.queried])
  else (none, c, [])

/-- A lost session keeps the refresh pending. -/
def noteLoss (reason : CycleReason) : Controller :=
  if reason = .sessionLost then { c with reconnectRefreshPending := true } else c

/-- `on_cycle_with_clock`. -/
def onCycle (nowMs wallNow : Nat) (reason : CycleReason) (io : CycleIo) :
    Option Switch × Controller × List EndpointEvent :=
  if c.isDynamic = false then (none, c, [])
  else
    let c := c.noteLoss reason
    if c.refreshIsDue nowMs then
      let refreshed := c.refresh nowMs reason io
      let selected := refreshed.2.1.select io.laterMs io.laterWall reason refreshed.1 io
      (selected.1, selected.2.1, refreshed.2.2 ++ selected.2.2)
    else c.select nowMs wallNow reason none io

end Controller

end Udp2raw
