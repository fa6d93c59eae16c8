import Udp2raw.Core.Cursor
import Udp2raw.Endpoint.Attended
import Udp2raw.Endpoint.Rounds

/-!
# Every candidate gets its turn

Failed attempts go through the DNS candidates in their order, at least every second
one to the next. The walk starts over after a return to the committed address, which
authority allows once and the budget a bounded number of times. Until a candidate has
had its turn, each failed attempt brings it closer or uses up some of that.
-/

namespace Udp2raw

namespace Controller

variable {c c' : Controller} {log : List Occurrence} {t : Nat} {cur : Ipv4Addr}
  {s : List Ipv4Addr}

/-! ## Authority to return -/

/-- The controller holds the operator's authority or a probation, not both. -/
def Exclusive (c : Controller) : Prop := c.attendedCutover = true → c.probation = none

theorem Continues.exclusive (h : Continues c c') (hx : c.Exclusive) : c'.Exclusive := by
  intro hattended
  obtain hsame | hnone := h.probation
  · exact hsame.trans (hx (h.attended hattended))
  · exact hnone

/-- No call gives both an authority and a probation. -/
theorem exclusive_handle (r : Request) (hs : Settled c) (hx : c.Exclusive) :
    (c.handle r).2.1.Exclusive := by
  have h := called c r
  generalize (c.handle r).1 = reply, (c.handle r).2.1 = c', (c.handle r).2.2 = events at h ⊢
  cases h with
  | continues hcont => exact hcont.exclusive hx
  | leaves h =>
    intro hattended
    obtain hsame | hnone := h.probation
    · exact hsame.trans (hx (h.attended hattended))
    · exact hnone
  | ended => exact hx
  | refreshed =>
    unfold requestRefresh
    split_ifs
    · intro hattended
      obtain ⟨-, -, -, hnone⟩ := committed_of_healthy hs hattended
      exact hnone
    · exact hx
  | authenticatedV6 _ _ _ hprobation hattended =>
    intro h
    exact hprobation.trans (hx (hattended ▸ h))
  | committed _ _ _ _ hprobation => exact fun _ => hprobation
  | begun hcur _ _ _ ha =>
    intro hattended
    rw [ha.attended (by rw [hcur]; exact Option.some_ne_none _)] at hattended
    cases hattended
  | counted hcont hp =>
    intro hattended
    rw [hx (hcont.attended hattended)] at hp
    cases hp
  | authorized hcont _ _ _ hp =>
    intro hattended
    rw [hx (hcont.attended hattended)] at hp
    cases hp
  | promoted => exact fun _ => rfl
  | promotionFailed => exact hx

variable {opts : EndpointOptions} {p : Nat} {file : StateFile}

/-- No reached controller has both. -/
theorem Reached.exclusive {spec : EndpointSpec} (h : Reached spec opts log c) : c.Exclusive := by
  obtain ⟨io, c₀, hboot, hrun⟩ := h
  refine hrun.invariant (I := fun _ => Exclusive) ?_ fun log c r hrun ih => ?_
  · intro hattended
    exact (fresh_bootstrap hboot).probation
  · exact exclusive_handle r (Reached.settled ⟨io, c₀, hboot, hrun⟩) ih

/-- The returns the controller may make without a charge of a probe. -/
def authority (c : Controller) : Nat := c.attendedCutover.toNat + c.probation.isSome.toNat

/-- At most one return is free. -/
theorem Exclusive.authority_le (h : c.Exclusive) : c.authority ≤ 1 := by
  unfold authority
  cases hattended : c.attendedCutover with
  | true =>
    rw [h hattended]
    rfl
  | false =>
    rw [Bool.toNat_false, Nat.zero_add]
    exact Bool.toNat_le _

theorem authority_le (hattended : c'.attendedCutover = true → c.attendedCutover = true)
    (hprobation : c'.probation = c.probation ∨ c'.probation = none) :
    c'.authority ≤ c.authority := by
  have ha : c'.attendedCutover.toNat ≤ c.attendedCutover.toNat := by
    cases h : c'.attendedCutover with
    | true => rw [hattended h]
    | false => exact Nat.zero_le _
  have hp : c'.probation.isSome.toNat ≤ c.probation.isSome.toNat := by
    obtain h | h := hprobation
    · rw [h]
    · rw [h]
      exact Nat.zero_le _
  exact Nat.add_le_add ha hp

/-- Authority that is used is gone. -/
theorem authority_lt (hattended : c'.attendedCutover = true → c.attendedCutover = true)
    (hprobation : c'.probation = c.probation ∨ c'.probation = none)
    (hused : (c.probation ≠ none ∧ c'.probation = none) ∨
      (c.attendedCutover = true ∧ c'.attendedCutover = false)) :
    c'.authority + 1 ≤ c.authority := by
  obtain ⟨hsome, hnone⟩ | ⟨htrue, hfalse⟩ := hused
  · have ha : c'.attendedCutover.toNat ≤ c.attendedCutover.toNat := by
      cases h : c'.attendedCutover with
      | true => rw [hattended h]
      | false => exact Nat.zero_le _
    obtain ⟨p, hp⟩ := Option.ne_none_iff_exists'.mp hsome
    rw [authority, authority, hnone, hp]
    simp only [Option.isSome_none, Option.isSome_some, Bool.toNat_false, Bool.toNat_true]
    omega
  · have hp : c'.probation.isSome.toNat ≤ c.probation.isSome.toNat := by
      obtain h | h := hprobation
      · rw [h]
      · rw [h]
        exact Nat.zero_le _
    rw [authority, authority, htrue, hfalse, Bool.toNat_false, Bool.toNat_true]
    omega

/-! ## The walk through the candidates -/

/-- The next candidate stands at the next position of the cursor. -/
theorem nextDnsCandidate_eq (hs : c.canonicalCandidates = s) (hne : s ≠ []) (cur : Ipv4Addr) :
    c.nextDnsCandidate cur = s[Cursor.position s.length (Cursor.behind s cur)]? := by
  rw [Cursor.position_behind hne]
  unfold nextDnsCandidate
  rw [hs]
  exact if_neg hne

/-- How many steps of the walk lead to position `p`. -/
def toGo (s : List Ipv4Addr) (p : Nat) (cur : Ipv4Addr) : Nat :=
  Cursor.ahead s.length (Cursor.behind s cur) p + 1

/-- A walk around the set reaches every position. -/
theorem toGo_le (hp : p < s.length) (cur : Ipv4Addr) : toGo s p cur ≤ s.length :=
  Cursor.ahead_lt hp _

/-- A step to another candidate comes closer. -/
theorem toGo_next {next : Ipv4Addr} (hp : p < s.length) (hnodup : s.Nodup)
    (hnext : s[Cursor.position s.length (Cursor.behind s cur)]? = some next)
    (hother : next ≠ s[p]) : toGo s p next + 1 ≤ toGo s p cur := by
  obtain ⟨hlt, rfl⟩ := List.getElem?_eq_some_iff.mp hnext
  have hne : Cursor.position s.length (Cursor.behind s cur) ≠ p := by
    intro heq
    exact hother (by simp only [heq])
  have hvisit := Cursor.ahead_visit hp (Nat.le_refl _) hne
  unfold toGo
  rw [Cursor.behind_getElem hnodup hlt]
  omega

/-! ## What a failed attempt writes to the state file -/

/-- The states that some events write to the state file. -/
def written (events : List EndpointEvent) : List FallbackState :=
  events.filterMap fun
    | .stateWritten state _ => some state
    | _ => none

/-- Nothing is written, or one state, which records a charge of the committed address and the
candidates in a file the cycle found. -/
def WritesOnce (c : Controller) (found : List StateFile) (events : List EndpointEvent) : Prop :=
  written events = [] ∨
  ∃ state file wallNow good, written events = [state] ∧ file ∈ found ∧
    c.committedGood = some good ∧
    Recorded c.policy wallNow (good, c.canonicalCandidates) file.entries state.entries

theorem WritesOnce.mono {found found' : List StateFile} {events : List EndpointEvent}
    (h : c.WritesOnce found events) (hfound : ∀ file ∈ found, file ∈ found') :
    c.WritesOnce found' events := by
  refine h.imp_right ?_
  rintro ⟨state, file, wallNow, good, hwritten, hfile, hrest⟩
  exact ⟨state, file, wallNow, good, hwritten, hfound file hfile, hrest⟩

/-- Only the policy, the address, the candidates and the writes matter. -/
theorem WritesOnce.congr {found : List StateFile} {events events' : List EndpointEvent}
    (h : c'.WritesOnce found events) (hopts : c'.opts = c.opts)
    (hgood : c'.committedGood = c.committedGood) (hcandidates : c'.candidates = c.candidates)
    (hevents : written events' = written events) : c.WritesOnce found events' := by
  unfold WritesOnce
  rw [hevents, ← hgood, canonicalCandidates, ← hcandidates, policy, ← hopts]
  exact h

/-- A charge of the committed address writes once. One that writes but is not granted ends the
use of the file. -/
theorem writesOnce_chargeFallback {good : Ipv4Addr} (hgood : c.committedGood = some good)
    (wallNow : Nat) (io : ChargeIo) :
    c.WritesOnce [io.file] (c.chargeFallback wallNow good io).2.2 ∧
    ((c.chargeFallback wallNow good io).1 = false →
      (c.chargeFallback wallNow good io).2.2 = [] ∨
      (c.chargeFallback wallNow good io).2.1.fallbackStateUsable = false) := by
  constructor
  · obtain ⟨-, hevents⟩ | ⟨name, loaded, next, -, hload, hnext, hevents⟩ :=
      c.chargeFallback_cases wallNow good io
    · rw [hevents]
      exact .inl rfl
    · have hrecorded := precharged_recorded hnext
      have hentries : (loaded.getD (.new c.policy.globalCapacity.toNat wallNow)).entries
          = io.file.entries := by
        cases loaded with
        | none =>
          rw [loadFallbackState_none hload]
          rfl
        | some s =>
          rw [(loadFallbackState_some hload).1]
          rfl
      rw [hentries] at hrecorded
      rw [hevents]
      exact .inr ⟨next, io.file, wallNow, good, rfl, List.mem_singleton_self _, hgood, hrecorded⟩
  · unfold chargeFallback
    split_ifs
    · exact fun _ => .inl rfl
    · split
      · exact fun _ => .inl rfl
      · split
        · exact fun h => nomatch h
        · exact fun _ => .inl rfl
        · exact fun _ => .inl rfl
        · exact fun _ => .inr rfl

theorem chargeFallback_unusable {wallNow : Nat} {good : Ipv4Addr} {io : ChargeIo}
    (h : c.fallbackStateUsable = false) : (c.chargeFallback wallNow good io).2.2 = [] := by
  rw [chargeFallback, if_pos (.inl h)]

/-- A return writes once, and a refused one ends the use of the file. -/
theorem writesOnce_returnDue (c : Controller) (nowMs wallNow : Nat) (cur : Ipv4Addr)
    (io : ChargeIo) :
    c.WritesOnce [io.file] (c.returnDue nowMs wallNow cur io).2.2 ∧
    ((c.returnDue nowMs wallNow cur io).1 = none →
      (c.returnDue nowMs wallNow cur io).2.2 = [] ∨
      (c.returnDue nowMs wallNow cur io).2.1.fallbackStateUsable = false) := by
  unfold returnDue
  split
  · exact ⟨.inl rfl, fun _ => .inl rfl⟩
  next p hp =>
    split_ifs with hfresh hdirect
    · exact ⟨.inl rfl, fun _ => .inl rfl⟩
    · obtain ⟨hwrites, hdenied⟩ := writesOnce_chargeFallback
        (committed_of_committedFresh hfresh.2) wallNow io
      refine ⟨hwrites, fun h => hdenied ?_⟩
      dsimp only at h
      split_ifs at h with hgranted
      exact Bool.eq_false_iff.mpr hgranted
    · exact ⟨.inl rfl, fun _ => .inl rfl⟩

/-- A probe writes once. -/
theorem writesOnce_probeDue (c : Controller) (nowMs wallNow : Nat) (cur : Ipv4Addr)
    (io : ChargeIo) :
    c.WritesOnce [io.file] (c.probeDue nowMs wallNow cur io).2.2 ∧
    (c.fallbackStateUsable = false → (c.probeDue nowMs wallNow cur io).2.2 = []) := by
  unfold probeDue
  split_ifs
  · split
    next good hfresh =>
      exact ⟨(writesOnce_chargeFallback (committed_of_committedFresh hfresh) _ _).1,
        chargeFallback_unusable⟩
    · exact ⟨.inl rfl, fun _ => rfl⟩
  · exact ⟨.inl rfl, fun _ => rfl⟩

/-- A failed attempt writes once. -/
theorem writesOnce_attemptFailed (c : Controller) (nowMs wallNow : Nat) (cur : Ipv4Addr)
    (io : ChargeIo) :
    c.WritesOnce [io.file] (c.attemptFailed nowMs wallNow cur io).2.2 ∧
    (c.fallbackStateUsable = false → (c.attemptFailed nowMs wallNow cur io).2.2 = []) := by
  unfold attemptFailed
  split
  · exact ⟨.inl rfl, fun _ => rfl⟩
  · split_ifs
    · exact ⟨.inl rfl, fun _ => rfl⟩
    · have hcount := keeps_countFailure c nowMs
      have husable : (c.countFailure nowMs).fallbackStateUsable = c.fallbackStateUsable := by
        unfold countFailure startPreferredRound
        split_ifs <;> rfl
      obtain ⟨hwrites, hunusable⟩ :=
        writesOnce_probeDue (c.countFailure nowMs) nowMs wallNow cur io
      have hevents : (c.candidateFailed nowMs wallNow cur io).2.2
          = ((c.countFailure nowMs).probeDue nowMs wallNow cur io).2.2 := by
        unfold candidateFailed
        split
        next heq => rw [heq]
        next heq => rw [heq]
      rw [hevents, ← husable]
      exact ⟨hwrites.congr hcount.opts hcount.committed hcount.candidates rfl, hunusable⟩

/-- After a charge of a return that writes, the cycle makes no other. -/
theorem writesOnce_selectAttemptFailed (hcur : c.currentV4 = some cur) (nowMs wallNow : Nat)
    (io : CycleIo) :
    c.WritesOnce [io.returnCharge.file, io.probeCharge.file]
      (c.selectAttemptFailed nowMs wallNow cur io).2.2 := by
  obtain ⟨hreturn, hdenied⟩ :=
    writesOnce_returnDue c nowMs wallNow cur io.returnCharge
  have hsame := (returnDue_spec (List.mem_singleton_self io.returnCharge) hcur nowMs wallNow).1
  unfold selectAttemptFailed
  split
  next rollback c₁ events heq =>
    rw [heq] at hreturn
    exact hreturn.mono fun file hfile => List.mem_cons.mpr (.inl (List.mem_singleton.mp hfile))
  next c₁ events heq =>
    rw [heq] at hreturn hdenied hsame
    obtain ⟨hprobe, hunusable⟩ :=
      writesOnce_attemptFailed c₁ nowMs wallNow cur io.probeCharge
    obtain hnil | hoff := hdenied rfl
    · have hnil : events = [] := hnil
      refine (hprobe.mono fun file hfile => List.mem_cons_of_mem _ hfile).congr hsame.opts
        hsame.committed hsame.candidates ?_
      rw [hnil]
      rfl
    · have hrest := hunusable hoff
      dsimp only
      rw [hrest, List.append_nil]
      exact hreturn.mono fun file hfile => List.mem_cons.mpr (.inl (List.mem_singleton.mp hfile))

/-- A cycle after a failed attempt writes the state file at most once. -/
theorem writesOnce_onCycle (hd : c.isDynamic = true) (hcur : c.currentV4 = some cur)
    (nowMs wallNow : Nat) (io : CycleIo) :
    (c.prepared nowMs io).WritesOnce [io.returnCharge.file, io.probeCharge.file]
      (c.onCycle nowMs wallNow .attemptFailed io).2.2 := by
  have hprepared := (continues_prepared c nowMs io).currentV4.trans hcur
  have hqueried := (asked_spec c nowMs .attemptFailed io).2
  simp only [onCycle_eq hd, (asked_attemptFailed c nowMs wallNow io).1, select, hprepared]
  generalize c.decidedAt nowMs wallNow .attemptFailed io = clocks
  refine (writesOnce_selectAttemptFailed hprepared clocks.1 clocks.2 io).congr rfl rfl rfl ?_
  rw [written, List.filterMap_append, List.filterMap_eq_nil_iff.mpr, List.nil_append, written]
  intro e he
  rw [hqueried e he]

/-! ## Failed attempts in a row -/

/-- What a charge meets besides the file: the charges other controllers make first, and how
taking the lock and writing end. -/
structure Turn where
  others : List ChargeCall
  locked : Bool
  write : WriteOutcome
  deriving DecidableEq, Repr

/-- A cycle after a failed attempt. -/
structure Retry where
  nowMs : Nat
  wallNow : Nat
  answer : Option DnsAnswer
  random : UInt32
  laterWall : Nat
  returnTurn : Turn
  probeTurn : Turn
  deriving DecidableEq, Repr

/-- The file as the charge of a return finds it. -/
def Retry.forReturn (r : Retry) (file : StateFile) : StateFile :=
  fileAfterCalls file r.returnTurn.others

/-- The file as the charge of a probe finds it. There is none after a return's charge that
wrote. -/
def Retry.forProbe (r : Retry) (file : StateFile) : StateFile :=
  fileAfterCalls (r.forReturn file) r.probeTurn.others

/-- What the cycle meets when the file is `file` before: it decides at the time it starts. -/
def Retry.meets (r : Retry) (file : StateFile) : CycleIo where
  answer := r.answer
  random := r.random
  laterMs := r.nowMs
  laterWall := r.laterWall
  returnCharge := ⟨r.returnTurn.locked, r.forReturn file, r.returnTurn.write⟩
  probeCharge := ⟨r.probeTurn.locked, r.forProbe file, r.probeTurn.write⟩

/-- The call of the cycle. -/
def Retry.request (r : Retry) (file : StateFile) : Request :=
  .onCycle r.nowMs r.wallNow .attemptFailed (r.meets file)

/-- What the cycle leaves in the file: what it wrote, or what the others did. -/
def fileLeft (c : Controller) (file : StateFile) (r : Retry) : StateFile :=
  match c.spec.name?, written (c.handle (r.request file)).2.2 with
  | some name, [state] => .document name c.spec.port state
  | _, _ => r.forProbe file

/-- The controller and the file after the cycle. -/
def afterRetry (x : Controller × StateFile) (r : Retry) : Controller × StateFile :=
  ((x.1.handle (r.request x.2)).2.1, x.1.fileLeft x.2 r)

/-- The two after some of them. -/
def afterRetries (x : Controller × StateFile) (rs : List Retry) : Controller × StateFile :=
  rs.foldl afterRetry x

/-- The candidates of every decision are `s`. -/
def CandidatesStay (s : List Ipv4Addr) (x : Controller × StateFile) : List Retry → Prop
  | [] => True
  | r :: rs => (x.1.prepared r.nowMs (r.meets x.2)).canonicalCandidates = s ∧
      CandidatesStay s (afterRetry x r) rs

instance decidableCandidatesStay (s : List Ipv4Addr) (x : Controller × StateFile)
    (rs : List Retry) : Decidable (CandidatesStay s x rs) :=
  match rs with
  | [] => .isTrue trivial
  | r :: rs =>
    have := decidableCandidatesStay s (afterRetry x r) rs
    inferInstanceAs (Decidable ((x.1.prepared r.nowMs (r.meets x.2)).canonicalCandidates = s ∧
      CandidatesStay s (afterRetry x r) rs))

/-- The charges the file records for the committed address and the candidates `s`. -/
def spent (s : List Ipv4Addr) (x : Controller × StateFile) : Nat :=
  x.1.committedGood.elim 0 fun good => chargesFor (good, s) x.2.entries

/-- No charge is taken back by the charges of others, whatever their policies. -/
theorem chargesFor_fileAfterCalls (key : Ipv4Addr × List Ipv4Addr) (file : StateFile)
    (calls : List ChargeCall) :
    chargesFor key file.entries ≤ chargesFor key (fileAfterCalls file calls).entries := by
  induction calls generalizing file with
  | nil => exact Nat.le_refl _
  | cons call calls ih =>
    refine le_trans ?_ (ih (call.fileAfter file))
    obtain ⟨-, hsame⟩ | hrecorded := @fileAfter_recorded _ file call rfl
    · rw [hsame]
    · rw [hrecorded.chargesFor key]
      exact Nat.le_add_right _ _

theorem chargesFor_forReturn (key : Ipv4Addr × List Ipv4Addr) (r : Retry) (file : StateFile) :
    chargesFor key file.entries ≤ chargesFor key (r.forReturn file).entries :=
  chargesFor_fileAfterCalls key file _

theorem chargesFor_forProbe (key : Ipv4Addr × List Ipv4Addr) (r : Retry) (file : StateFile) :
    chargesFor key file.entries ≤ chargesFor key (r.forProbe file).entries :=
  (chargesFor_forReturn key r file).trans (chargesFor_fileAfterCalls key _ _)

/-- No cycle takes a charge back, and a granted one is recorded. -/
theorem spent_afterRetry {r : Retry} (hd : c.isDynamic = true) (hcur : c.currentV4 = some cur)
    (hset : (c.prepared r.nowMs (r.meets file)).canonicalCandidates = s) :
    spent s (c, file) ≤ spent s (afterRetry (c, file) r) ∧
    (Charged (c.handle (r.request file)).2.2 →
      spent s (c, file) + 1 ≤ spent s (afterRetry (c, file) r)) := by
  have hcont := continues_prepared c r.nowMs (r.meets file)
  have hcycled := cycled_onCycle c r.nowMs r.wallNow .attemptFailed (r.meets file)
  have hcommitted : (c.handle (r.request file)).2.1.committedGood = c.committedGood :=
    hcycled.committed
  have hwrites := writesOnce_onCycle hd hcur r.nowMs r.wallNow (r.meets file)
  obtain ⟨name, hname⟩ := Option.ne_none_iff_exists'.mp (name_ne_none hd)
  unfold spent afterRetry fileLeft
  dsimp only
  rw [hcommitted, hname]
  obtain hnone | ⟨state, found, wallNow, good, hwritten, hfound, hgood, hrecorded⟩ := hwrites
  · have hnone : written (c.handle (r.request file)).2.2 = [] := hnone
    rw [hnone]
    refine ⟨?_, ?_⟩
    · cases c.committedGood with
      | none => exact Nat.le_refl 0
      | some good => exact chargesFor_forProbe (good, s) r file
    · rintro ⟨state, hmem⟩
      have hmem : state ∈ written (c.handle (r.request file)).2.2 :=
        List.mem_filterMap.mpr ⟨_, hmem, rfl⟩
      rw [hnone] at hmem
      cases hmem
  · have hwritten : written (c.handle (r.request file)).2.2 = [state] := hwritten
    rw [hcont.committed] at hgood
    have hfound : chargesFor (good, s) file.entries ≤ chargesFor (good, s) found.entries := by
      obtain rfl | hfound := List.mem_cons.mp hfound
      · exact chargesFor_forReturn _ r file
      · rw [List.mem_singleton.mp hfound]
        exact chargesFor_forProbe _ r file
    have hone := hrecorded.chargesFor (good, s)
    rw [hset, if_pos rfl] at hone
    have hless : chargesFor (good, s) file.entries + 1 ≤ chargesFor (good, s) state.entries := by
      omega
    rw [hwritten, hgood]
    exact ⟨Nat.le_of_succ_le hless, fun _ => hless⟩

/-- How often the walk may start over: on the authority there is, and with the charges left of
the budget, which has at least one. -/
def walks (s : List Ipv4Addr) (x : Controller × StateFile) : Nat :=
  x.1.authority + (max 1 x.1.policy.maxAttempts.toNat - spent s x)

/-- What a failed attempt makes less: the steps to position `p`, each of which may take two
attempts, and the walks that may start over. -/
def patience (s : List Ipv4Addr) (p : Nat) (x : Controller × StateFile) (cur : Ipv4Addr) : Nat :=
  2 * toGo s p cur + x.1.preferredRoundDeadlineMs.isSome.toNat + 2 * s.length * walks s x

theorem two_le_patience (p : Nat) (x : Controller × StateFile) (cur : Ipv4Addr) :
    2 ≤ patience s p x cur := by
  unfold patience toGo
  omega

/-- A walk that may not start over any more. -/
theorem walk_over (n : Nat) {fewer more : Nat} (h : fewer + 1 ≤ more) :
    2 * n * fewer + 2 * n ≤ 2 * n * more := by
  calc 2 * n * fewer + 2 * n = 2 * n * (fewer + 1) := (Nat.mul_succ _ _).symm
    _ ≤ 2 * n * more := Nat.mul_le_mul_left _ h

/-- A round ends by expiry only if it was open before the cycle. -/
theorem open_of_expired {nowMs : Nat} {io : CycleIo}
    (htimeout : 0 < c.policy.preferredRoundTimeoutMs.toNat) (hclock : nowMs < u64Max)
    (h : ((c.prepared nowMs io).startPreferredRound nowMs).roundExpired nowMs = true) :
    c.preferredRoundDeadlineMs ≠ none := by
  intro hnone
  have hclosed : c.roundExpired nowMs = false := by
    rw [roundExpired, hnone]
    rfl
  have hnow : nowMs < nowMs + c.policy.preferredRoundTimeoutMs.toNat := by omega
  have hprepared : (c.prepared nowMs io).roundExpired nowMs = false := by
    obtain hsame | ⟨-, hopened⟩ := round_prepared c nowMs io
    · exact (roundExpired_congr hsame).trans hclosed
    · exact (roundExpired_congr hopened).trans
        (roundExpired_startPreferredRound hclosed hnow hclock)
  have hpolicy : (c.prepared nowMs io).policy = c.policy :=
    congrArg EndpointOptions.lastGoodFallback (continues_prepared c nowMs io).opts
  rw [roundExpired_startPreferredRound hprepared (hpolicy ▸ hnow) hclock] at h
  cases h

/-- One failed attempt, as long as the candidate has not had its turn. -/
theorem patience_afterRetry {r : Retry} {next : Ipv4Addr} (hp : p < s.length)
    (hd : c.isDynamic = true) (hcur : c.currentV4 = some cur)
    (htimeout : 0 < c.policy.preferredRoundTimeoutMs.toNat) (hclock : r.nowMs < u64Max)
    (hset : (c.prepared r.nowMs (r.meets file)).canonicalCandidates = s) (hnodup : s.Nodup)
    (hnext : (afterRetry (c, file) r).1.currentV4 = some next) (hother : next ≠ s[p]) :
    patience s p (afterRetry (c, file) r) next + 1 ≤ patience s p (c, file) cur := by
  have hcycled := cycled_onCycle c r.nowMs r.wallNow .attemptFailed (r.meets file)
  have hcont := continues_prepared c r.nowMs (r.meets file)
  have hretried := retried_onCycle hd hcur r.nowMs r.wallNow (r.meets file)
  have hdecision : c.decisionMs r.nowMs (r.meets file) = r.nowMs := ite_self _
  have hpolicy : (afterRetry (c, file) r).1.policy = c.policy :=
    congrArg EndpointOptions.lastGoodFallback hcycled.opts
  have hauthority : (afterRetry (c, file) r).1.authority ≤ c.authority :=
    authority_le hcycled.attended hcycled.probation
  obtain ⟨hspent, hcharge⟩ := spent_afterRetry hd hcur hset
  have hfewer : walks s (afterRetry (c, file) r) ≤ walks s (c, file) := by
    unfold walks
    rw [hpolicy]
    dsimp only
    omega
  have hwalks := Nat.mul_le_mul_left (2 * s.length) hfewer
  have htoGo := toGo_le hp next
  have hstart : 1 ≤ toGo s p cur := Nat.le_add_left 1 _
  have hopen := Bool.toNat_le (afterRetry (c, file) r).1.preferredRoundDeadlineMs.isSome
  rw [hdecision] at hretried
  unfold patience
  cases hretried with
  | returned _ _ _ _ hused =>
    have hgone : (afterRetry (c, file) r).1.authority + 1 ≤ c.authority := by
      refine authority_lt hcycled.attended hcycled.probation (hused.imp ?_ ?_)
      · rintro ⟨hsome, hnone⟩
        refine ⟨fun h => hsome ?_, hnone⟩
        exact hcont.probation.elim (fun hsame => hsame.trans h) id
      · rintro ⟨htrue, hfalse⟩
        exact ⟨hcont.attended htrue, hfalse⟩
    have hless : walks s (afterRetry (c, file) r) + 1 ≤ walks s (c, file) := by
      unfold walks
      rw [hpolicy]
      dsimp only
      omega
    have hover := walk_over s.length hless
    omega
  | probed hgood _ _ hround hcharged hleft =>
    rw [hcont.committed] at hgood
    rw [hset, policy, hcont.opts, ← policy] at hleft
    -- the file of this cycle's start had attempts left too, and now has one less
    have hbefore : spent s (c, file) < max 1 c.policy.maxAttempts.toNat := by
      unfold spent
      rw [hgood]
      exact (chargesFor_forProbe _ r file).trans_lt hleft
    have hnew := hcharge hcharged
    have hless : walks s (afterRetry (c, file) r) + 1 ≤ walks s (c, file) := by
      unfold walks
      rw [hpolicy]
      dsimp only
      omega
    have hover := walk_over s.length hless
    omega
  | ended hexpired hsame hround =>
    obtain rfl : cur = next := Option.some.inj (hsame.symm.trans hnext)
    have hclosed : (afterRetry (c, file) r).1.preferredRoundDeadlineMs.isSome = false := by
      rw [show (afterRetry (c, file) r).1.preferredRoundDeadlineMs = none from hround]
      rfl
    have hwas : c.preferredRoundDeadlineMs.isSome = true :=
      Option.isSome_iff_ne_none.mpr (open_of_expired htimeout hclock hexpired)
    rw [hclosed, hwas, Bool.toNat_false, Bool.toNat_true]
    omega
  | continued _ hmoved _ =>
    have hne : s ≠ [] := List.ne_nil_of_length_pos (Nat.zero_lt_of_lt hp)
    have hlt := Cursor.position_lt (Nat.zero_lt_of_lt hp) (Cursor.behind s cur)
    rw [nextDnsCandidate_eq hset hne, List.getElem?_eq_getElem hlt, Option.getD_some] at hmoved
    have hcloser : toGo s p next + 1 ≤ toGo s p cur := by
      refine toGo_next hp hnodup ?_ hother
      rw [List.getElem?_eq_getElem hlt]
      exact hmoved.symm.trans hnext
    omega

/-- With as many failed attempts as there is patience, the candidate has its turn. -/
theorem turn_of_patience {name : List UInt8} {port : UInt16} {retries : List Retry}
    (hreached : Reached (.hostname name port) opts log c)
    (htimeout : 0 < opts.lastGoodFallback.preferredRoundTimeoutMs.toNat) (hp : p < s.length)
    (hnodup : s.Nodup) (hclock : ∀ r ∈ retries, r.nowMs < u64Max)
    (hset : CandidatesStay s (c, file) retries) (hcur : c.currentV4 = some cur)
    (hle : patience s p (c, file) cur ≤ retries.length + 1) :
    ∃ k ≤ retries.length, (afterRetries (c, file) (retries.take k)).1.currentV4 = some s[p] := by
  by_cases hturn : cur = s[p]
  · exact ⟨0, Nat.zero_le _, hturn ▸ hcur⟩
  induction retries generalizing log c cur file with
  | nil =>
    have htwo := two_le_patience p (c, file) cur (s := s)
    rw [List.length_nil] at hle
    omega
  | cons r rs ih =>
    obtain ⟨-, hopts⟩ := hreached.spec_opts
    have hd : c.isDynamic = true := hreached.isDynamic
    have hnow : Reached (.hostname name port) opts (log ++ [c.occurrence (r.request file)])
        (afterRetry (c, file) r).1 := hreached.call (r.request file)
    obtain ⟨next, hnext, -⟩ := hnow.addressSafe.placed
    by_cases hthere : next = s[p]
    · refine ⟨1, Nat.le_add_left 1 _, ?_⟩
      rw [← hthere]
      exact hnext
    · have hless : patience s p (afterRetry (c, file) r) next + 1 ≤ patience s p (c, file) cur :=
        patience_afterRetry hp hd hcur (by rwa [policy, hopts]) (hclock r List.mem_cons_self)
          hset.1 hnodup hnext hthere
      obtain ⟨k, hk, hturn⟩ := ih hnow (fun r' hr' => hclock r' (List.mem_cons_of_mem _ hr'))
        hset.2 hnext (Nat.le_of_succ_le_succ (hless.trans hle)) hthere
      exact ⟨k + 1, Nat.add_le_add_right hk 1, hturn⟩

/-- Every DNS candidate gets its turn. From every state a host name's controller reaches, with or
without the fallback, and any content of the state file: after `(max_attempts + 3) * (2 n + 1)`
failed attempts, decided at the times they start among the same `n` candidates, each of these has
been the endpoint. Other controllers may charge the shared file in between, and locks and
writes may end in any way. -/
theorem every_candidate_has_its_turn {name : List UInt8} {port : UInt16} {retries : List Retry}
    (hreached : Reached (.hostname name port) opts log c)
    (htimeout : 0 < opts.lastGoodFallback.preferredRoundTimeoutMs.toNat)
    (hlen : (opts.lastGoodFallback.maxAttempts.toNat + 3) * (2 * s.length + 1) ≤ retries.length)
    (hclock : ∀ r ∈ retries, r.nowMs < u64Max) (hset : CandidatesStay s (c, file) retries) :
    ∀ ip ∈ s, ∃ k ≤ retries.length,
      (afterRetries (c, file) (retries.take k)).1.currentV4 = some ip := by
  intro ip hip
  obtain ⟨p, hp, rfl⟩ := List.getElem_of_mem hip
  obtain ⟨cur, hcur, -⟩ := hreached.addressSafe.placed
  have hpolicy : c.policy = opts.lastGoodFallback :=
    congrArg EndpointOptions.lastGoodFallback hreached.spec_opts.2
  have hnodup : s.Nodup := by
    cases retries with
    | nil =>
      refine absurd hlen (Nat.not_le.mpr (Nat.mul_pos ?_ ?_))
      · exact Nat.succ_pos _
      · exact Nat.succ_pos _
    | cons r rs =>
      rw [← hset.1]
      refine List.Nodup.sublist (List.take_sublist _ _) ?_
      exact (pairwise_sortDedup _).imp fun h heq => absurd (congrArg Ipv4Addr.toU32 heq) h.ne
  refine turn_of_patience hreached htimeout hp hnodup hclock hset hcur ?_
  have hauthority := hreached.exclusive.authority_le
  have htoGo := toGo_le hp cur
  have hopen := Bool.toNat_le c.preferredRoundDeadlineMs.isSome
  have hwalks : 2 * s.length * walks s (c, file)
      ≤ 2 * s.length * (opts.lastGoodFallback.maxAttempts.toNat + 2) := by
    refine Nat.mul_le_mul_left _ ?_
    unfold walks
    dsimp only
    rw [hpolicy]
    omega
  have hall : (opts.lastGoodFallback.maxAttempts.toNat + 3) * (2 * s.length + 1)
      = 2 * s.length * (opts.lastGoodFallback.maxAttempts.toNat + 2) + 2 * s.length
        + opts.lastGoodFallback.maxAttempts.toNat + 3 := by ring
  unfold patience
  dsimp only
  omega

/-- Failed attempts six seconds apart without an answer from DNS, whose charges get the lock and
are written; another controller charges first. -/
def failedAttempts : List Retry :=
  (List.range 25).map fun i => ⟨8000 + 6000 * i, 1008 + 6 * i, none, 0, 1008 + 6 * i,
    ⟨if i = 0 then [chargeAt 1005] else [], true, .written⟩, ⟨[], true, .written⟩⟩

/-- `9.9.9.9` is committed when DNS lists two other addresses instead. Both are tried, and a probe
of `9.9.9.9` is charged on the way. -/
theorem every_candidate_has_its_turn_two :
    ∃ log c k, Reached (.hostname [120] 443) cachedOpts log c ∧
      chargesFor (.replicate 4 9, [.replicate 4 7, .replicate 4 8])
        (afterRetries (c, .absent) failedAttempts).2.entries = 1 ∧
      (afterRetries (c, .absent) (failedAttempts.take k)).1.currentV4 = some (.replicate 4 8) := by
  obtain ⟨log, c, hrun, h⟩ := exists_reached_of_replay (.hostname [120] 443) cachedOpts firstBoot
    [.onAuthenticated 1000 .written, .onCycle 2000 1002 .sessionLost { answering 2000 none with
      answer := some ⟨[.replicate 4 8, .replicate 4 7], 60⟩ }] (fun _ c =>
      CandidatesStay [.replicate 4 7, .replicate 4 8] (c, .absent) failedAttempts ∧
      chargesFor (.replicate 4 9, [.replicate 4 7, .replicate 4 8])
        (afterRetries (c, .absent) failedAttempts).2.entries = 1) (by decide +kernel)
  obtain ⟨hset, hcharged⟩ := of_decide_eq_true h
  obtain ⟨k, -, hturn⟩ := every_candidate_has_its_turn hrun (by decide) (by decide) (by decide)
    hset (.replicate 4 8) (by decide)
  exact ⟨log, c, k, hrun, hcharged, hturn⟩

end Controller

end Udp2raw
