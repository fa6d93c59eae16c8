import Udp2raw.Core.TokenBucket
import Udp2raw.Endpoint.Address

/-!
# The budget of old-address probes

An unattended probe of an address that DNS no longer lists is charged, before it
starts, to a state file that controllers of the same endpoint share: one token of
a global bucket and one attempt of the pair of address and DNS set. Numbers of the
source are naturals here; where the source saturates, so does the model.
-/

namespace Udp2raw

/-- `u64::MAX`. -/
def u64Max : Nat := 2 ^ 64 - 1

/-- `u32::MAX`. -/
def u32Max : Nat := 2 ^ 32 - 1

/-- `u64::saturating_add`. -/
def satAdd (a b : Nat) : Nat := min (a + b) u64Max

/-- `u64::saturating_mul`. -/
def satMul (a b : Nat) : Nat := min (a * b) u64Max

/-- `u32::saturating_add`. -/
def satAdd32 (a b : Nat) : Nat := min (a + b) u32Max

/-- `LastGoodFallbackPolicy`. -/
structure LastGoodFallbackPolicy where
  enabled : Bool := false
  afterFailures : UInt32 := 3
  maxAttempts : UInt32 := 2
  cooldownMs : UInt64 := 300000
  maxAgeMs : UInt64 := 86400000
  globalCapacity : UInt32 := 4
  globalRefillMs : UInt64 := 900000
  preferredRoundTimeoutMs : UInt64 := 30000
  probationMs : UInt64 := 30000
  rollbackWindowMs : UInt64 := 300000
  deriving DecidableEq, Repr

/-- `refill_secs` of `precharge_fallback_state`. -/
def LastGoodFallbackPolicy.refillSecs (policy : LastGoodFallbackPolicy) : Nat :=
  satAdd policy.globalRefillMs.toNat 999 / 1000

/-- `cooldown_secs` of `precharge_fallback_state`. -/
def LastGoodFallbackPolicy.cooldownSecs (policy : LastGoodFallbackPolicy) : Nat :=
  satAdd policy.cooldownMs.toNat 999 / 1000

/-- `BudgetEntry`. -/
structure BudgetEntry where
  candidate : Ipv4Addr
  dnsSet : List Ipv4Addr
  charged : Nat
  notBeforeUnixSecs : Nat
  lastUsedUnixSecs : Nat
  deriving DecidableEq, Repr

/-- `FallbackState`. -/
structure FallbackState where
  globalTokens : Nat
  globalUpdatedUnixSecs : Nat
  entries : List BudgetEntry
  deriving DecidableEq, Repr

/-- `FallbackState::new`. -/
def FallbackState.new (capacity wallNow : Nat) : FallbackState := ⟨capacity, wallNow, []⟩

/-- `MAX_BUDGET_ENTRIES`. -/
def maxBudgetEntries : Nat := 16

/-- `MAX_PERSISTED_COOLDOWN_SECS`. -/
def maxPersistedCooldownSecs : Nat := 86400

/-! ## One charge -/

/-- The refill at the start of `precharge_fallback_state`. -/
def refillGlobal (policy : LastGoodFallbackPolicy) (wallNow : Nat) (next : FallbackState) :
    Except Checked.Panic FallbackState :=
  if next.globalUpdatedUnixSecs ≤ wallNow ∧ 0 < policy.refillSecs then do
    let elapsed ← Checked.sub wallNow next.globalUpdatedUnixSecs
    let elapsedIntervals := elapsed / policy.refillSecs
    if 0 < elapsedIntervals then
      let minted := min elapsedIntervals u32Max
      .ok { next with
        globalTokens := min (satAdd32 next.globalTokens minted) policy.globalCapacity.toNat
        globalUpdatedUnixSecs := satAdd next.globalUpdatedUnixSecs
          (satMul elapsedIntervals policy.refillSecs) }
    else .ok next
  else .ok next

/-- The entry of a pair of address and DNS set is charged, or made. -/
def chargeEntry (policy : LastGoodFallbackPolicy) (wallNow : Nat) (candidate : Ipv4Addr)
    (dnsSet : List Ipv4Addr) (entries : List BudgetEntry) :
    Except Checked.Panic (Option (List BudgetEntry)) :=
  match entries.findIdx? fun e => e.candidate = candidate ∧ e.dnsSet = dnsSet with
  | some pos => do
      let entry ← Checked.readAt entries pos
      if policy.maxAttempts.toNat ≤ entry.charged ∨ wallNow < entry.notBeforeUnixSecs then
        .ok none
      else
        .ok (some (entries.set pos { entry with
          charged := satAdd32 entry.charged 1
          notBeforeUnixSecs := satAdd wallNow policy.cooldownSecs
          lastUsedUnixSecs := wallNow }))
  | none =>
    if maxBudgetEntries ≤ entries.length then .ok none
    else .ok (some (entries ++ [{
      candidate := candidate, dnsSet := dnsSet, charged := 1
      notBeforeUnixSecs := satAdd wallNow policy.cooldownSecs
      lastUsedUnixSecs := wallNow }]))

/-- `precharge_fallback_state`. -/
def prechargeFallbackState (next : FallbackState) (policy : LastGoodFallbackPolicy)
    (wallNow : Nat) (candidate : Ipv4Addr) (dnsSet : List Ipv4Addr) :
    Except Checked.Panic (Option FallbackState) := do
  let next ← refillGlobal policy wallNow next
  if next.globalTokens = 0 then .ok none
  else
    match ← chargeEntry policy wallNow candidate dnsSet next.entries with
    | none => .ok none
    | some entries => do
        let globalTokens ← Checked.sub next.globalTokens 1
        .ok (some { next with
          globalTokens := globalTokens
          entries := entries.insertionSort fun a b => b.lastUsedUnixSecs ≤ a.lastUsedUnixSecs })

/-- The global bucket of a state. -/
def FallbackState.bucket (s : FallbackState) : TokenBucket.Bucket :=
  ⟨s.globalTokens, s.globalUpdatedUnixSecs⟩

/-- The refill is the bucket's, as long as the clock fits and the bucket is not overfull. -/
theorem refillGlobal_returns (policy : LastGoodFallbackPolicy) (wallNow : Nat) (s : FallbackState) :
    Checked.Returns (refillGlobal policy wallNow s) fun t => t.entries = s.entries ∧
      (wallNow ≤ u64Max → s.globalTokens ≤ policy.globalCapacity.toNat →
        t.bucket = s.bucket.refill policy.globalCapacity.toNat policy.refillSecs wallNow) := by
  have hcap : policy.globalCapacity.toNat ≤ u32Max := Nat.le_sub_one_of_lt
    policy.globalCapacity.toNat_lt
  unfold refillGlobal
  split_ifs with hguard
  · rw [Checked.sub_eq_ok hguard.1, Checked.ok_bind]
    have hmul : (wallNow - s.globalUpdatedUnixSecs) / policy.refillSecs * policy.refillSecs
        ≤ wallNow - s.globalUpdatedUnixSecs := Nat.div_mul_le_self _ _
    dsimp only
    split_ifs with hintervals
    · refine Checked.returns_ok ⟨rfl, fun hwall htokens => ?_⟩
      simp only [FallbackState.bucket, TokenBucket.Bucket.refill, TokenBucket.Bucket.mk.injEq,
        satAdd, satMul, satAdd32]
      generalize (wallNow - s.globalUpdatedUnixSecs) / policy.refillSecs = n at hmul ⊢
      generalize n * policy.refillSecs = minted at hmul ⊢
      omega
    · refine Checked.returns_ok ⟨rfl, fun hwall htokens => ?_⟩
      have hzero : (wallNow - s.globalUpdatedUnixSecs) / policy.refillSecs = 0 :=
        Nat.eq_zero_of_not_pos hintervals
      simp only [FallbackState.bucket, TokenBucket.Bucket.refill, hzero,
        TokenBucket.Bucket.mk.injEq]
      omega
  · refine Checked.returns_ok ⟨rfl, fun hwall htokens => ?_⟩
    have hzero : (wallNow - s.globalUpdatedUnixSecs) / policy.refillSecs = 0 := by
      rcases Nat.eq_zero_or_pos policy.refillSecs with h | h
      · rw [h, Nat.div_zero]
      · rw [Nat.sub_eq_zero_of_le (by omega), Nat.zero_div]
    simp only [FallbackState.bucket, TokenBucket.Bucket.refill, hzero,
      TokenBucket.Bucket.mk.injEq]
    omega

/-- Charging an entry never panics. -/
theorem chargeEntry_returns (policy : LastGoodFallbackPolicy) (wallNow : Nat) (candidate : Ipv4Addr)
    (dnsSet : List Ipv4Addr) (entries : List BudgetEntry) :
    Checked.Returns (chargeEntry policy wallNow candidate dnsSet entries) fun _ => True := by
  unfold chargeEntry
  split
  next pos hpos =>
      have hlt : pos < entries.length := (List.findIdx?_eq_some_iff_getElem.mp hpos).1
      rw [Checked.readAt_eq_ok hlt, Checked.ok_bind]
      split_ifs
      · exact Checked.returns_ok trivial
      · exact Checked.returns_ok trivial
  next =>
      split_ifs
      · exact Checked.returns_ok trivial
      · exact Checked.returns_ok trivial

/-- A charge never aborts, and a granted one takes one token of the refilled bucket. -/
theorem prechargeFallbackState_returns (s : FallbackState) (policy : LastGoodFallbackPolicy)
    (wallNow : Nat) (candidate : Ipv4Addr) (dnsSet : List Ipv4Addr) :
    Checked.Returns (prechargeFallbackState s policy wallNow candidate dnsSet) fun r =>
      ∀ t, r = some t → wallNow ≤ u64Max → s.globalTokens ≤ policy.globalCapacity.toNat →
        let refilled := s.bucket.refill policy.globalCapacity.toNat policy.refillSecs wallNow
        refilled.tokens ≠ 0 ∧ t.bucket = refilled.spend := by
  unfold prechargeFallbackState
  refine (refillGlobal_returns policy wallNow s).bind fun next hnext => ?_
  split_ifs with hempty
  · exact Checked.returns_ok fun t ht => nomatch ht
  · refine (chargeEntry_returns policy wallNow candidate dnsSet next.entries).bind
      fun charged _ => ?_
    cases charged with
    | none => exact Checked.returns_ok fun t ht => nomatch ht
    | some entries =>
      dsimp only
      rw [Checked.sub_eq_ok (Nat.one_le_iff_ne_zero.mpr hempty), Checked.ok_bind]
      refine Checked.returns_ok fun t ht hwall htokens => ?_
      cases ht
      rw [← hnext.2 hwall htokens]
      exact ⟨hempty, rfl⟩

/-- What `precharge_fallback_state` returns; it never aborts. -/
def precharged (next : FallbackState) (policy : LastGoodFallbackPolicy) (wallNow : Nat)
    (candidate : Ipv4Addr) (dnsSet : List Ipv4Addr) : Option FallbackState :=
  Checked.value (prechargeFallbackState next policy wallNow candidate dnsSet)
    ((prechargeFallbackState_returns next policy wallNow candidate dnsSet).mono
      fun _ _ => trivial)

/-- A charge refills the bucket and takes one token. -/
theorem precharged_bucket {s t : FallbackState} {policy : LastGoodFallbackPolicy} {wallNow : Nat}
    {candidate : Ipv4Addr} {dnsSet : List Ipv4Addr}
    (h : precharged s policy wallNow candidate dnsSet = some t) (hwall : wallNow ≤ u64Max)
    (htokens : s.globalTokens ≤ policy.globalCapacity.toNat) :
    let refilled := s.bucket.refill policy.globalCapacity.toNat policy.refillSecs wallNow
    refilled.tokens ≠ 0 ∧ t.bucket = refilled.spend := by
  obtain ⟨r, hr, hpost⟩ :=
    prechargeFallbackState_returns s policy wallNow candidate dnsSet
  rw [precharged, Checked.value_eq_of_ok hr] at h
  exact hpost t h hwall htokens

/-! ## The state file -/

/-- How `atomic_write_owner_only` ends. -/
inductive WriteOutcome where
  /-- It returns `Ok`: the file is replaced and its directory is synced. -/
  | written
  /-- It returns an error and the file is as before. -/
  | refused
  /-- The file is replaced, then checking or syncing the directory fails: it returns an
  error. -/
  | unsynced
  deriving DecidableEq, Repr

/-- What the pathname of the state file leads to. -/
inductive StateFile where
  | absent
  /-- Anything `load_fallback_state` cannot take for a document, and a file that may not
  be read. -/
  | unreadable
  | document (host : List UInt8) (port : UInt16) (state : FallbackState)
  deriving DecidableEq, Repr

/-- The checks `load_fallback_state` makes of one entry. -/
def BudgetEntry.loadable (e : BudgetEntry) (allowPrivate : Bool) (wallNow : Nat) : Bool :=
  endpointIpOk e.candidate allowPrivate
    && e.charged ≠ 0
    && e.lastUsedUnixSecs ≤ satAdd wallNow 300
    && e.lastUsedUnixSecs ≤ e.notBeforeUnixSecs
    && e.notBeforeUnixSecs - e.lastUsedUnixSecs ≤ maxPersistedCooldownSecs
    && (e.dnsSet.all fun ip => endpointIpOk ip allowPrivate)
    && e.dnsSet = sortDedup e.dnsSet
    && e.dnsSet ≠ []
    && e.dnsSet.length ≤ maxEndpointCandidates

/-- `load_fallback_state`, from the document on. -/
def loadFallbackState (file : StateFile) (host : List UInt8) (port : UInt16) (capacity : Nat)
    (allowPrivate : Bool) (wallNow : Nat) : Except Unit (Option FallbackState) :=
  match file with
  | .absent => .ok none
  | .unreadable => .error ()
  | .document h p s =>
    if maxBudgetEntries < s.entries.length then .error ()
    else if h ≠ host ∨ p ≠ port then .error ()
    else if capacity < s.globalTokens then .error ()
    else if satAdd wallNow 300 < s.globalUpdatedUnixSecs then .error ()
    else if ¬ (s.entries.all fun e => e.loadable allowPrivate wallNow) then .error ()
    else if ¬ (s.entries.map fun e => (e.candidate, e.dnsSet)).Nodup then .error ()
    else .ok (some s)

/-- What one locked charge meets: whether the lock is taken, the file it finds and how
its write ends. A process that dies in the charge leaves the file as one of the ends of
the write does. -/
structure ChargeIo where
  locked : Bool
  file : StateFile
  write : WriteOutcome
  deriving DecidableEq, Repr

/-- How the locked part of `charge_fallback` ends. -/
inductive LockedCharge where
  /-- `Ok(Some(next))`: the charged state is in the file. -/
  | charged (next : FallbackState)
  /-- `Ok(None)`: the limits refuse the charge. -/
  | denied
  /-- An error, with the file as before. -/
  | failed
  /-- An error after the charged state replaced the file. -/
  | unsynced (next : FallbackState)
  deriving DecidableEq, Repr

/-- The locked part of `charge_fallback`. -/
def lockedCharge (policy : LastGoodFallbackPolicy) (host : List UInt8) (port : UInt16)
    (allowPrivate : Bool) (wallNow : Nat) (candidate : Ipv4Addr) (dnsSet : List Ipv4Addr)
    (io : ChargeIo) : LockedCharge :=
  if io.locked = false then .failed
  else
    match loadFallbackState io.file host port policy.globalCapacity.toNat allowPrivate
        wallNow with
    | .error _ => .failed
    | .ok loaded =>
      let current := loaded.getD (.new policy.globalCapacity.toNat wallNow)
      match precharged current policy wallNow candidate dnsSet with
      | none => .denied
      | some next =>
        match io.write with
        | .written => .charged next
        | .refused => .failed
        | .unsynced => .unsynced next

end Udp2raw
