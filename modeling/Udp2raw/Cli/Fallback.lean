import Udp2raw.Endpoint.Controller

/-!
# The fallback policy of the command line

The part of `parse_args` that checks the options of the last-good fallback, each
within its range, and makes the policy of them. An enabled policy keeps the committed
address a rollback target for longer than any attended cutover can take.
-/

namespace Udp2raw

/-- The fields of `Cli` the policy is made of; of `--fifo` only whether it is given. -/
structure FallbackArgs where
  endpointCache : Option String := none
  fifo : Bool := false
  lastGoodFallback : Bool := false
  lastGoodFallbackAfter : Option UInt32 := none
  lastGoodFallbackMaxAttempts : Option UInt32 := none
  lastGoodFallbackCooldown : Option UInt64 := none
  lastGoodFallbackMaxAge : Option UInt64 := none
  lastGoodFallbackGlobalAttempts : Option UInt32 := none
  lastGoodFallbackGlobalRefill : Option UInt64 := none
  lastGoodFallbackRoundTimeout : Option UInt64 := none
  lastGoodFallbackProbation : Option UInt64 := none
  lastGoodFallbackRollbackWindow : Option UInt64 := none
  deriving DecidableEq, Repr

/-- `endpoint_cache.is_some()`: by default a host name has a cache file. -/
def FallbackArgs.hasCache (cli : FallbackArgs) (remote : EndpointSpec) : Bool :=
  match cli.endpointCache with
  | some p => p ≠ "none" && p ≠ ""
  | none => remote.isDynamic

/-- `fallback_tuning_present`. -/
def FallbackArgs.tuningPresent (cli : FallbackArgs) : Bool :=
  cli.lastGoodFallbackAfter.isSome || cli.lastGoodFallbackMaxAttempts.isSome
    || cli.lastGoodFallbackCooldown.isSome || cli.lastGoodFallbackMaxAge.isSome
    || cli.lastGoodFallbackGlobalAttempts.isSome || cli.lastGoodFallbackGlobalRefill.isSome
    || cli.lastGoodFallbackRoundTimeout.isSome || cli.lastGoodFallbackProbation.isSome
    || cli.lastGoodFallbackRollbackWindow.isSome

/-! ## Ranges -/

/-- A value within its bounds. -/
def bounded {α : Type} [LE α] [DecidableLE α] [ToString α] (name : String) (value min max : α) :
    Except String α :=
  if min ≤ value ∧ value ≤ max then .ok value
  else .error s!"{name} must be between {min} and {max}"

/-- `bounded_u32`. -/
def boundedU32 (name : String) (value min max : UInt32) : Except String UInt32 :=
  bounded name value min max

/-- `bounded_u64`. -/
def boundedU64 (name : String) (value min max : UInt64) : Except String UInt64 :=
  bounded name value min max

/-- `bounded_u64` of a number of seconds, then `saturating_mul(1000)`. -/
def boundedMs (name : String) (secs min max : UInt64) : Except String UInt64 := do
  let secs ← boundedU64 name secs min max
  .ok (UInt64.ofNat (satMul secs.toNat 1000))

/-- What passes is in its bounds. -/
theorem bounded_eq_ok {α : Type} [LE α] [DecidableLE α] [ToString α] {name : String}
    {value min max r : α} (h : bounded name value min max = .ok r) : min ≤ r ∧ r ≤ max := by
  unfold bounded at h
  split_ifs at h with hrange
  cases h
  exact hrange

theorem boundedMs_eq_ok {name : String} {secs min max r : UInt64}
    (h : boundedMs name secs min max = .ok r) (hmax : max.toNat * 1000 ≤ u64Max) :
    min.toNat * 1000 ≤ r.toNat ∧ r.toNat ≤ max.toNat * 1000 := by
  obtain ⟨s, hs, h⟩ := Checked.bind_eq_ok.mp h
  cases h
  obtain ⟨hmin, hle⟩ := bounded_eq_ok hs
  rw [UInt64.le_iff_toNat_le] at hmin hle
  have hexact : satMul s.toNat 1000 = s.toNat * 1000 := by
    unfold satMul
    omega
  have hlt : s.toNat * 1000 < 2 ^ 64 := by
    unfold u64Max at hmax
    omega
  rw [hexact, UInt64.toNat_ofNat_of_lt' hlt]
  omega

/-! ## The policy -/

/-- `required_rollback_ms`: the longest an attended cutover and its probation can take. -/
def requiredRollbackMs (preferredRoundTimeoutMs probationMs : UInt64) : Nat :=
  satAdd (satAdd (satAdd (satAdd clientConnTimeoutMs.toNat preferredRoundTimeoutMs.toNat)
    clientHandshakeTimeoutMs.toNat) probationMs.toNat) (2 * timerIntervalMs)

/-- The text of `required_rollback_ms as f64 / 1000.0` with one decimal, a whole number of
tenths. -/
def tenthsText (ms : Nat) : String := s!"{ms / 1000}.{ms / 100 % 10}"

/-- The fallback policy of `parse_args`. -/
def fallbackPolicy (cli : FallbackArgs) (remote : EndpointSpec) :
    Except String LastGoodFallbackPolicy :=
  if cli.tuningPresent && !cli.lastGoodFallback then
    .error "last-good fallback tuning requires explicit --last-good-fallback opt-in"
  else if cli.lastGoodFallback && !remote.isDynamic then
    .error "--last-good-fallback requires a hostname -r"
  else if cli.lastGoodFallback && !cli.hasCache remote then
    .error "--last-good-fallback requires an owner-only --endpoint-cache for persistent limits"
  else if cli.lastGoodFallback && !cli.fifo then
    .error "--last-good-fallback requires --fifo for attended promotion and rollback"
  else do
    let probationMs ← boundedMs "--last-good-fallback-probation"
      (cli.lastGoodFallbackProbation.getD 30) 1 86400
    let rollbackWindowMs ← boundedMs "--last-good-fallback-rollback-window"
      (cli.lastGoodFallbackRollbackWindow.getD 300) 2 (7 * 86400)
    let preferredRoundTimeoutMs ← boundedMs "--last-good-fallback-round-timeout"
      (cli.lastGoodFallbackRoundTimeout.getD 30) 5 600
    let required := requiredRollbackMs preferredRoundTimeoutMs probationMs
    if cli.lastGoodFallback ∧ rollbackWindowMs.toNat ≤ required then
      .error ("--last-good-fallback-rollback-window must exceed connection-loss detection + "
        ++ "preferred round + one handshake + probation + two timer intervals ("
        ++ tenthsText required ++ "s)")
    else do
      let afterFailures ← boundedU32 "--last-good-fallback-after"
        (cli.lastGoodFallbackAfter.getD 3) 1 100
      let maxAttempts ← boundedU32 "--last-good-fallback-max-attempts"
        (cli.lastGoodFallbackMaxAttempts.getD 2) 1 100
      let cooldownMs ← boundedMs "--last-good-fallback-cooldown"
        (cli.lastGoodFallbackCooldown.getD 300) 1 86400
      let maxAgeMs ← boundedMs "--last-good-fallback-max-age"
        (cli.lastGoodFallbackMaxAge.getD 86400) 1 (31 * 86400)
      let globalCapacity ← boundedU32 "--last-good-fallback-global-attempts"
        (cli.lastGoodFallbackGlobalAttempts.getD 4) 1 100
      let globalRefillMs ← boundedMs "--last-good-fallback-global-refill"
        (cli.lastGoodFallbackGlobalRefill.getD 900) 1 (7 * 86400)
      .ok {
        enabled := cli.lastGoodFallback
        afterFailures, maxAttempts, cooldownMs, maxAgeMs, globalCapacity, globalRefillMs
        preferredRoundTimeoutMs, probationMs, rollbackWindowMs }

/-- What `parse_args` makes sure of. -/
structure LastGoodFallbackPolicy.Accepted (policy : LastGoodFallbackPolicy) : Prop where
  probation : policy.probationMs.toNat ≤ 86400 * 1000
  roundTimeout : policy.preferredRoundTimeoutMs.toNat ≤ 600 * 1000
  cooldown : policy.cooldownMs.toNat ≤ 86400 * 1000
  capacity : 1 ≤ policy.globalCapacity ∧ policy.globalCapacity ≤ 100
  maxAttempts : 1 ≤ policy.maxAttempts ∧ policy.maxAttempts ≤ 100
  window : policy.enabled = true →
    10000 + policy.preferredRoundTimeoutMs.toNat + 5000 + policy.probationMs.toNat + 800
      < policy.rollbackWindowMs.toNat

/-- What the options give is in all its bounds. -/
theorem fallbackPolicy_accepted {cli : FallbackArgs} {remote : EndpointSpec}
    {policy : LastGoodFallbackPolicy} (h : fallbackPolicy cli remote = .ok policy) :
    policy.Accepted := by
  unfold fallbackPolicy at h
  split_ifs at h
  obtain ⟨probationMs, hprobation, h⟩ := Checked.bind_eq_ok.mp h
  obtain ⟨rollbackWindowMs, _, h⟩ := Checked.bind_eq_ok.mp h
  obtain ⟨preferredRoundTimeoutMs, hround, h⟩ := Checked.bind_eq_ok.mp h
  dsimp only at h
  split_ifs at h with hrequired
  obtain ⟨afterFailures, _, h⟩ := Checked.bind_eq_ok.mp h
  obtain ⟨maxAttempts, hattempts, h⟩ := Checked.bind_eq_ok.mp h
  obtain ⟨cooldownMs, hcooldown, h⟩ := Checked.bind_eq_ok.mp h
  obtain ⟨maxAgeMs, _, h⟩ := Checked.bind_eq_ok.mp h
  obtain ⟨globalCapacity, hcapacity, h⟩ := Checked.bind_eq_ok.mp h
  obtain ⟨globalRefillMs, _, h⟩ := Checked.bind_eq_ok.mp h
  cases h
  have hprobation := (boundedMs_eq_ok hprobation (by decide)).2
  have hround := (boundedMs_eq_ok hround (by decide)).2
  refine ⟨hprobation, hround, (boundedMs_eq_ok hcooldown (by decide)).2,
    bounded_eq_ok hcapacity, bounded_eq_ok hattempts, ?_⟩
  intro henabled
  have hlt : requiredRollbackMs preferredRoundTimeoutMs probationMs < rollbackWindowMs.toNat := by
    by_contra hle
    exact hrequired ⟨henabled, Nat.le_of_not_lt hle⟩
  have hexact : requiredRollbackMs preferredRoundTimeoutMs probationMs
      = 10000 + preferredRoundTimeoutMs.toNat + 5000 + probationMs.toNat + 800 := by
    change probationMs.toNat ≤ 86400 * 1000 at hprobation
    change preferredRoundTimeoutMs.toNat ≤ 600 * 1000 at hround
    simp only [requiredRollbackMs, satAdd, u64Max, timerIntervalMs, clientConnTimeoutMs,
      clientHandshakeTimeoutMs, UInt64.reduceToNat]
    omega
  exact hexact ▸ hlt

end Udp2raw
