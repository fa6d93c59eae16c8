import Udp2raw.Endpoint.Bootstrap
import Udp2raw.Endpoint.Steps

/-!
# One budget for many controllers

Controllers of one endpoint share the state file. Each charge is atomic under the
lock, so a history of the file is a list of charges, each by some controller in
some state, with its own clock. A restart is a charge by another controller, and
a crash is one of the ways a write can end. Whatever the history, the bucket in
the file bounds the charges that were granted.
-/

namespace Udp2raw

open TokenBucket

/-! ## Histories of the file -/

/-- One `charge_fallback` by one of the controllers that share the file. -/
structure ChargeCall where
  controller : Controller
  wallNow : UInt64
  candidate : Ipv4Addr
  locked : Bool
  write : WriteOutcome
  deriving DecidableEq, Repr

namespace ChargeCall

variable (call : ChargeCall)

/-- The call on the file as it stands. -/
def charge (file : StateFile) : Bool × Controller × List EndpointEvent :=
  call.controller.chargeFallback call.wallNow.toNat call.candidate
    ⟨call.locked, file, call.write⟩

/-- The call grants its probe. -/
def granted (file : StateFile) : Bool := (call.charge file).1

/-- The call is refused although nothing failed: the controller may go on charging. -/
def refusedByLimits (file : StateFile) : Bool :=
  !call.granted file && (call.charge file).2.1.fallbackStateUsable

/-- What the call leaves in the file. -/
def fileAfter (file : StateFile) : StateFile :=
  match call.controller.spec.name?, (call.charge file).2.2 with
  | some name, [.stateWritten state _] => .document name call.controller.spec.port state
  | _, _ => file

end ChargeCall

/-- The file after some calls. -/
def fileAfterCalls (file : StateFile) : List ChargeCall → StateFile
  | [] => file
  | call :: calls => fileAfterCalls (call.fileAfter file) calls

/-- The calls that were granted. -/
def grants (file : StateFile) : List ChargeCall → Nat
  | [] => 0
  | call :: calls => (call.granted file).toNat + grants (call.fileAfter file) calls

/-- The largest wall time of some calls. -/
def latestWall (calls : List ChargeCall) : Nat :=
  (calls.map fun call => call.wallNow.toNat).foldr max 0

/-- The file holds no more tokens than the capacity. -/
def StateFile.within (capacity : Nat) : StateFile → Prop
  | .document _ _ s => s.globalTokens ≤ capacity
  | _ => True

variable {policy : LastGoodFallbackPolicy} {file : StateFile} {call : ChargeCall}

/-- One call: nothing happens, or what the file holds, or a new state if there is none, is
charged and written. -/
theorem fileAfter_cases (hpolicy : call.controller.policy = policy) :
    (call.granted file = false ∧ call.fileAfter file = file) ∨
    ∃ h p s t, (file = .absent ∧ s = .new policy.globalCapacity.toNat call.wallNow.toNat ∨
        file = .document h p s ∧ s.globalTokens ≤ policy.globalCapacity.toNat) ∧
      call.fileAfter file = .document h p t ∧
      precharged s policy call.wallNow.toNat call.candidate call.controller.canonicalCandidates
        = some t := by
  obtain ⟨hgrant, hevents⟩ | ⟨name, loaded, t, hname, hload, ht, hevents⟩ :=
    call.controller.chargeFallback_cases call.wallNow.toNat call.candidate
      ⟨call.locked, file, call.write⟩
  · left
    refine ⟨hgrant, ?_⟩
    simp only [ChargeCall.fileAfter, ChargeCall.charge, hevents]
    cases call.controller.spec.name? <;> rfl
  · right
    subst hpolicy
    have hafter : call.fileAfter file = .document name call.controller.spec.port t := by
      simp only [ChargeCall.fileAfter, ChargeCall.charge, hname, hevents]
    cases loaded with
    | none => exact ⟨name, _, _, t, .inl ⟨loadFallbackState_none hload, rfl⟩, hafter, ht⟩
    | some s => exact ⟨name, _, s, t, .inr (loadFallbackState_some hload), hafter, ht⟩

/-- One call, seen from the bucket: nothing happens, or the loaded bucket, which is the file's
if there is one, is refilled and a token is taken, for at most one grant. -/
theorem charge_bucket (hpolicy : call.controller.policy = policy) :
    (call.granted file = false ∧ call.fileAfter file = file) ∨
    ∃ h p s t, (file = .absent ∨ file = .document h p s) ∧
      call.fileAfter file = .document h p t ∧ s.globalTokens ≤ policy.globalCapacity.toNat ∧
      let refilled := s.bucket.refill policy.globalCapacity.toNat policy.refillSecs
        call.wallNow.toNat
      refilled.tokens ≠ 0 ∧ t.bucket = refilled.spend := by
  have hwall : call.wallNow.toNat ≤ u64Max := Nat.le_sub_one_of_lt call.wallNow.toNat_lt
  refine (fileAfter_cases hpolicy).imp_right ?_
  rintro ⟨h, p, s, t, ⟨hfile, rfl⟩ | ⟨hfile, htokens⟩, hafter, ht⟩
  · exact ⟨h, p, _, t, .inl hfile, hafter, Nat.le_refl _,
      precharged_bucket ht hwall (Nat.le_refl _)⟩
  · exact ⟨h, p, s, t, .inr hfile, hafter, htokens, precharged_bucket ht hwall htokens⟩

/-- Every call keeps the tokens within the capacity. -/
theorem fileAfter_within (hpolicy : call.controller.policy = policy)
    (hfile : file.within policy.globalCapacity.toNat) :
    (call.fileAfter file).within policy.globalCapacity.toNat := by
  obtain ⟨-, hafter⟩ | ⟨h, p, s, t, -, hafter, -, -, hbucket⟩ :=
    @charge_bucket policy file call hpolicy
  · rw [hafter]
    exact hfile
  · rw [hafter]
    have htokens : t.globalTokens = _ := congrArg Bucket.tokens hbucket
    have hle := @tokens_refill_le policy.globalCapacity.toNat policy.refillSecs
      call.wallNow.toNat s.bucket
    simp only [StateFile.within, htokens, Bucket.spend]
    omega

/-- Any calls keep the tokens within the capacity. -/
theorem fileAfterCalls_within {calls : List ChargeCall}
    (hpolicy : ∀ call ∈ calls, call.controller.policy = policy)
    (hfile : file.within policy.globalCapacity.toNat) :
    (fileAfterCalls file calls).within policy.globalCapacity.toNat := by
  induction calls generalizing file with
  | nil => exact hfile
  | cons call calls ih =>
    exact ih (fun c hc => hpolicy c (List.mem_cons_of_mem _ hc))
      (fileAfter_within (hpolicy call List.mem_cons_self) hfile)

/-- One call keeps the account of a bucket that was in the file before. -/
theorem since_fileAfter {b₀ : Bucket} {used latest : Nat} {h : List UInt8} {p : UInt16}
    {s : FallbackState} (hpolicy : call.controller.policy = policy)
    (hs : Since policy.refillSecs b₀ used latest s.bucket) :
    ∃ h' p' t, call.fileAfter (.document h p s) = .document h' p' t ∧
      Since policy.refillSecs b₀ (used + (call.granted (.document h p s)).toNat)
        (max latest call.wallNow.toNat) t.bucket := by
  obtain ⟨hgrant, hafter⟩ | ⟨h', p', s', t, hfile, hafter, -, hne, hbucket⟩ :=
    @charge_bucket policy (.document h p s) call hpolicy
  · refine ⟨h, p, s, hafter, ?_⟩
    rw [hgrant]
    exact hs.later (Nat.le_max_left _ _)
  · obtain hfile | hfile := hfile
    · cases hfile
    cases hfile
    refine ⟨_, _, t, hafter, ?_⟩
    rw [hbucket]
    exact (hs.refill).spend hne (Bool.toNat_le _)

/-- Along any calls the tokens pay for the grants. -/
theorem since_fileAfterCalls {b₀ : Bucket} {used latest : Nat} {h : List UInt8} {p : UInt16}
    {s : FallbackState} {calls : List ChargeCall}
    (hpolicy : ∀ call ∈ calls, call.controller.policy = policy)
    (hs : Since policy.refillSecs b₀ used latest s.bucket) :
    ∃ t, Since policy.refillSecs b₀ (used + grants (.document h p s) calls)
      (max latest (latestWall calls)) t := by
  induction calls generalizing used latest h p s with
  | nil => exact ⟨_, by simpa [grants, latestWall] using hs⟩
  | cons call calls ih =>
    obtain ⟨h', p', t, hafter, ht⟩ := since_fileAfter (h := h) (p := p)
      (hpolicy call List.mem_cons_self) hs
    obtain ⟨t', ht'⟩ := ih (fun c hc => hpolicy c (List.mem_cons_of_mem _ hc)) ht
    refine ⟨t', ?_⟩
    have hlatest : max (max latest call.wallNow.toNat) (latestWall calls)
        = max latest (latestWall (call :: calls)) := Nat.max_assoc _ _ _
    rw [grants, hafter, ← Nat.add_assoc, ← hlatest]
    exact ht'

/-- A refusal that is not an error leaves the file as it is. -/
theorem fileAfter_of_refusedByLimits (h : call.refusedByLimits file = true) :
    call.fileAfter file = file := by
  have hevents : (call.charge file).2.2 = [] := by
    simp only [ChargeCall.refusedByLimits, ChargeCall.granted, Bool.and_eq_true,
      Bool.not_eq_true'] at h
    obtain ⟨hgrant, husable⟩ := h
    simp only [ChargeCall.charge, Controller.chargeFallback] at hgrant husable ⊢
    split_ifs at hgrant husable ⊢
    · rfl
    · split at hgrant
      · rfl
      · split at hgrant
        all_goals simp_all
  simp only [ChargeCall.fileAfter, hevents]
  cases call.controller.spec.name? <;> rfl

/-- A policy whose refill is at least a second has a period. -/
theorem refillSecs_pos (h : 1000 ≤ policy.globalRefillMs.toNat) : 0 < policy.refillSecs := by
  have hlt := policy.globalRefillMs.toNat_lt
  simp only [LastGoodFallbackPolicy.refillSecs, satAdd, u64Max]
  omega

/-- Controllers with one policy that share a state file, whatever their clocks, the ends of
their writes and the order of their charges: the file never holds more tokens than the
capacity; the charges granted since the file held some state are at most that state's tokens
and one per whole refill period up to the latest clock; a charge the limits refuse leaves the
file as it is; and the update neither aborts nor saturates the bucket. -/
theorem shared_charges_bounded {policy : LastGoodFallbackPolicy} {file : StateFile}
    {calls : List ChargeCall} (hrefill : 1000 ≤ policy.globalRefillMs.toNat)
    (hpolicy : ∀ call ∈ calls, call.controller.policy = policy)
    (hfile : file.within policy.globalCapacity.toNat) :
    (fileAfterCalls file calls).within policy.globalCapacity.toNat ∧
    (∀ earlier later h p s, calls = earlier ++ later →
      fileAfterCalls file earlier = .document h p s →
      grants (.document h p s) later ≤ s.globalTokens
        + (latestWall later - s.globalUpdatedUnixSecs) / policy.refillSecs) ∧
    (∀ (f : StateFile) (call : ChargeCall), call.refusedByLimits f = true →
      call.fileAfter f = f) ∧
    ∀ (s : FallbackState) (wallNow : UInt64) (candidate : Ipv4Addr) (dnsSet : List Ipv4Addr),
      ∃ r, prechargeFallbackState s policy wallNow.toNat candidate dnsSet = .ok r ∧
        ∀ t, r = some t → s.globalTokens ≤ policy.globalCapacity.toNat →
          let periods := (wallNow.toNat - s.globalUpdatedUnixSecs) / policy.refillSecs
          t.globalTokens + 1 = min policy.globalCapacity.toNat (s.globalTokens + periods) ∧
          t.globalUpdatedUnixSecs = s.globalUpdatedUnixSecs + periods * policy.refillSecs := by
  refine ⟨fileAfterCalls_within hpolicy hfile, ?_, fun f call => fileAfter_of_refusedByLimits,
    ?_⟩
  · rintro earlier later h p s rfl -
    have hlater : ∀ call ∈ later, call.controller.policy = policy :=
      fun call hc => hpolicy call (List.mem_append_right _ hc)
    obtain ⟨t, ht⟩ := since_fileAfterCalls (h := h) (p := p) hlater
      (.refl : Since policy.refillSecs s.bucket 0 0 s.bucket)
    have hbound := ht.used_le (refillSecs_pos hrefill)
    rw [Nat.zero_add, Nat.zero_max] at hbound
    exact hbound
  · intro s wallNow candidate dnsSet
    obtain ⟨r, hr, hpost⟩ :=
      prechargeFallbackState_returns s policy wallNow.toNat candidate dnsSet
    refine ⟨r, hr, fun t ht htokens => ?_⟩
    obtain ⟨hne, hbucket⟩ :=
      hpost t ht (Nat.le_sub_one_of_lt wallNow.toNat_lt) htokens
    have htok : t.globalTokens = _ := congrArg Bucket.tokens hbucket
    have hstamp : t.globalUpdatedUnixSecs = _ := congrArg Bucket.stamp hbucket
    refine ⟨?_, hstamp⟩
    rw [htok]
    exact Nat.sub_add_cancel (Nat.one_le_iff_ne_zero.mpr hne)

/-- Two charges of one token bucket: the second meets an empty bucket. -/
theorem shared_charges_bounded_two_calls :
    let policy : LastGoodFallbackPolicy := { enabled := true, globalCapacity := 1 }
    let controller : Controller :=
      { Controller.blank (.hostname [120] 443) { lastGoodFallback := policy } 0 with
        candidates := [#v[9, 9, 9, 9]], fallbackStatePath := true }
    let call : ChargeCall := ⟨controller, 50, #v[8, 8, 8, 8], true, .written⟩
    grants .absent [call, call] = 1 ∧
      (fileAfterCalls .absent [call, call]).within policy.globalCapacity.toNat := by
  refine ⟨by decide +kernel, ?_⟩
  refine (@shared_charges_bounded { enabled := true, globalCapacity := 1 } .absent _
    (by decide) ?_ trivial).1
  exact List.forall_mem_cons.mpr ⟨rfl, List.forall_mem_cons.mpr ⟨rfl, List.forall_mem_nil _⟩⟩

end Udp2raw
