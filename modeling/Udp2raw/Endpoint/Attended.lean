import Udp2raw.Endpoint.Candidates
import Udp2raw.Endpoint.Runs

/-!
# Repeated attended reconnects

A `reconnect` command requests a refresh and ends the session; the next cycle is
forced. The request records the authority to return to the endpoint it interrupts,
which a second command, made while that endpoint is already down, takes back. The
forced cycle itself is the same, and nothing is lost if it does not switch.
-/

namespace Udp2raw

namespace Controller

variable {c : Controller} {log : List Occurrence}

/-- What a `reconnect` command does to the controller. -/
def reconnect (c : Controller) : Controller := c.requestRefresh.onSessionEnded

/-- The controller without the authority of an attended cutover. -/
def giveUp (c : Controller) : Controller := { c with attendedCutover := false }

/-- What the client acts on in a reply: of a switch the two endpoints, not the text, which is
only logged. -/
inductive Seen where
  | switched (endpoints : Option ((IpAddr × UInt16) × (IpAddr × UInt16)))
  | other (reply : Reply)
  deriving DecidableEq, Repr

/-- What is seen of a reply. -/
def Reply.seen : Reply → Seen
  | .switched s => .switched (s.map fun s => (s.from_, s.to_))
  | r => .other r

/-- What some calls reply and do to the files. -/
def observed (c : Controller) (rs : List Request) : List (Seen × List EndpointEvent) :=
  (c.logOf rs).map fun o => (o.reply.seen, o.events)

/-! ## The commands -/

/-- A command to a controller whose session is already over records no authority, whatever was
recorded before. -/
theorem reconnect_attended (c : Controller) (hd : c.isDynamic = true) (attended : Bool) :
    { c.reconnect with attendedCutover := attended }.reconnect = c.reconnect.giveUp := by
  have hd' : ∀ a f b, ({ c with
      attendedCutover := a
      forceRefresh := f
      backoff := b
      currentAuthenticated := false } : Controller).isDynamic = true := fun _ _ _ => hd
  simp only [reconnect, requestRefresh, onSessionEnded, hd, if_true, hd', giveUp, healthy,
    Bool.false_and, Backoff.onSuccess]

/-- From the second command on, the authority is gone and nothing else changes. -/
theorem iterate_reconnect (c : Controller) (hd : c.isDynamic = true) (k : Nat) :
    reconnect^[k + 2] c = c.reconnect.giveUp := by
  induction k with
  | zero => exact reconnect_attended c hd c.reconnect.attendedCutover
  | succ k ih =>
    rw [Function.iterate_succ_apply', ih]
    exact reconnect_attended c hd false

/-- One command: the authority is recorded if the endpoint is in use, and the session is over. -/
theorem reconnect_eq (hd : c.isDynamic = true) :
    c.reconnect = { c with
      attendedCutover := c.healthy
      forceRefresh := true
      backoff := c.backoff.onSuccess
      currentAuthenticated := false } := by
  simp only [reconnect, requestRefresh, hd, if_true, onSessionEnded]

/-! ## The forced cycle does not read the authority -/

theorem giveUp_startPreferredRound (c : Controller) (nowMs : Nat) :
    c.giveUp.startPreferredRound nowMs = (c.startPreferredRound nowMs).giveUp := by
  unfold startPreferredRound
  by_cases h : c.policy.enabled = true ∧ c.preferredRoundDeadlineMs = none
  · rw [if_pos h]
    exact if_pos h
  · rw [if_neg h]
    exact if_neg h

theorem giveUp_openRound (c : Controller) (nowMs : Nat) (reason : CycleReason) :
    c.giveUp.openRound nowMs reason = (c.openRound nowMs reason).giveUp := by
  unfold openRound
  split_ifs
  · exact giveUp_startPreferredRound c nowMs
  · rfl

/-- A query is the same with and without the authority. -/
theorem giveUp_query (c : Controller) (nowMs : Nat) (answer : Option DnsAnswer) (random : UInt32) :
    c.giveUp.query nowMs answer random
      = ((c.query nowMs answer random).1, (c.query nowMs answer random).2.giveUp) := by
  unfold query
  simp only [show c.giveUp.spec = c.spec from rfl]
  split_ifs
  · rfl
  · cases answer with
    | none => rfl
    | some ans =>
      simp only [show c.giveUp.usable ans.addrs = c.usable ans.addrs from rfl]
      split_ifs <;> rfl

theorem giveUp_refresh (c : Controller) (nowMs : Nat) (reason : CycleReason) (io : CycleIo) :
    c.giveUp.refresh nowMs reason io = ((c.refresh nowMs reason io).1,
      (c.refresh nowMs reason io).2.1.giveUp, (c.refresh nowMs reason io).2.2) := by
  unfold refresh
  simp only [giveUp_openRound]
  generalize c.openRound nowMs reason = c₁
  have hquery := giveUp_query { c₁ with forceRefresh := false } nowMs io.answer io.random
  by_cases hready : c₁.backoff.ready nowMs = true
  · rw [if_pos hready, if_pos (show c₁.giveUp.backoff.ready nowMs = true from hready)]
    exact congrArg (fun q => (some q.1, q.2, [EndpointEvent.queried])) hquery
  · rw [if_neg hready, if_neg (show ¬ c₁.giveUp.backoff.ready nowMs = true from hready)]

theorem giveUp_switchTo (c : Controller) (target : Ipv4Addr) (why : SwitchWhy) :
    c.giveUp.switchTo target why
      = ((c.switchTo target why).1, (c.switchTo target why).2.giveUp) := by
  unfold switchTo
  simp only [show c.giveUp.currentV4 = c.currentV4 from rfl]
  split
  · rfl
  · split_ifs <;> rfl

/-- A forced cycle decides the same with and without the authority. -/
theorem giveUp_selectForced (c : Controller) (nowMs : Nat) (cur : Ipv4Addr)
    (querySucceeded : Option Bool) :
    c.giveUp.selectForced nowMs cur querySucceeded
      = ((c.selectForced nowMs cur querySucceeded).1,
        (c.selectForced nowMs cur querySucceeded).2.giveUp) := by
  unfold selectForced
  simp only [show c.giveUp.roundExpired nowMs = c.roundExpired nowMs from rfl,
    show c.giveUp.candidates = c.candidates from rfl, giveUp_startPreferredRound]
  generalize c.startPreferredRound nowMs = c₁
  simp only [show c₁.giveUp.policy = c₁.policy from rfl,
    show c₁.giveUp.committedGood = c₁.committedGood from rfl,
    show c₁.giveUp.freshThroughCutover nowMs = c₁.freshThroughCutover nowMs from rfl,
    giveUp_switchTo]
  cases c.candidates with
  | nil => split_ifs <;> rfl
  | cons target rest =>
    dsimp only
    split_ifs <;> rfl

/-- A forced cycle decides the same without the authority. -/
theorem giveUp_onCycle_forced (c : Controller) (nowMs wallNow : Nat) (io : CycleIo) :
    c.giveUp.onCycle nowMs wallNow .forced io = ((c.onCycle nowMs wallNow .forced io).1,
      (c.onCycle nowMs wallNow .forced io).2.1.giveUp,
      (c.onCycle nowMs wallNow .forced io).2.2) := by
  have hselect : ∀ (c : Controller) nowMs wallNow q, c.giveUp.select nowMs wallNow .forced q io
      = ((c.select nowMs wallNow .forced q io).1,
        (c.select nowMs wallNow .forced q io).2.1.giveUp,
        (c.select nowMs wallNow .forced q io).2.2) := by
    intro c nowMs wallNow q
    unfold select
    simp only [show c.giveUp.currentV4 = c.currentV4 from rfl, giveUp_selectForced]
    split <;> rfl
  have hloss : ∀ c : Controller, c.noteLoss .forced = c := fun c => if_neg (by decide)
  unfold onCycle
  simp only [hloss, show c.giveUp.isDynamic = c.isDynamic from rfl,
    show c.giveUp.refreshIsDue nowMs = c.refreshIsDue nowMs from rfl, giveUp_refresh, hselect]
  split_ifs <;> rfl

/-! ## When the forced cycle switches -/

/-- When the round ends in which a forced cycle at `nowMs` decides: an open one goes on, and
without one the limits start one. -/
def roundDeadline (c : Controller) (nowMs : Nat) : Option Nat :=
  if c.policy.enabled ∧ c.preferredRoundDeadlineMs = none then
    some (satAdd nowMs c.policy.preferredRoundTimeoutMs.toNat)
  else c.preferredRoundDeadlineMs

/-- When a command at an endpoint that is in use cuts over, by what the controller holds, the
two clocks and the answer. -/
structure CutsOver (c : Controller) (nowMs : Nat) (io : CycleIo) : Prop where
  /-- The answer has permitted addresses, and the current one is not among the lowest of them. -/
  unlisted : ∃ ans, io.answer = some ans ∧ c.usable ans.addrs ≠ [] ∧
    ∀ cur, c.currentV4 = some cur →
      cur ∉ (sortDedup (c.usable ans.addrs)).take maxEndpointCandidates
  /-- It arrives before the round ends. -/
  inTime : ∀ ends, c.roundDeadline nowMs = some ends → io.laterMs < ends
  /-- Under the limits, the committed address is known to be good until after the round, a
  handshake, the probation and two timer intervals. -/
  fresh : c.policy.enabled = true → ∀ ends, c.roundDeadline nowMs = some ends →
    (c.committedHealthDeadline io.laterMs).any fun d =>
      satAdd (satAdd (satAdd ends clientHandshakeTimeoutMs.toNat) c.policy.probationMs.toNat)
        (2 * timerIntervalMs) ≤ d.2

/-- Under the limits there is always a round. -/
theorem exists_roundDeadline (henabled : c.policy.enabled = true) (nowMs : Nat) :
    ∃ ends, c.roundDeadline nowMs = some ends := by
  unfold roundDeadline
  cases hround : c.preferredRoundDeadlineMs with
  | none => exact ⟨_, if_pos ⟨henabled, rfl⟩⟩
  | some ends => exact ⟨ends, if_neg fun h => nomatch h.2⟩

variable {nowMs wallNow : Nat} {cur a : Ipv4Addr} {s : Switch} {io : CycleIo}

/-- A query is answered and puts another address first, if and only if the current one is not
among the lowest permitted addresses of the answer. -/
theorem query_leaves_iff {answer : Option DnsAnswer} {random : UInt32} (hd : c.isDynamic = true)
    (hcur : c.currentV4 = some cur) :
    ((c.query nowMs answer random).1 = true ∧ ∃ target rest,
      (c.query nowMs answer random).2.candidates = target :: rest ∧ target ≠ cur) ↔
    ∃ ans, answer = some ans ∧ c.usable ans.addrs ≠ [] ∧
      cur ∉ (sortDedup (c.usable ans.addrs)).take maxEndpointCandidates := by
  simp only [query, if_neg (name_ne_none hd)]
  cases answer with
  | none => simp
  | some ans =>
    by_cases hsafe : c.usable ans.addrs = []
    · simp [hsafe]
    · have haccepted : (c.acceptAnswer nowMs ans.ttl (c.usable ans.addrs)).candidates = { c with
          candidates := (sortDedup (c.usable ans.addrs)).take maxEndpointCandidates
          }.orderCandidates.candidates := orderCandidates_congr rfl rfl rfl
      simp only [if_neg hsafe, haccepted]
      simp only [true_and, Option.some.injEq, exists_eq_left', ne_eq, hsafe, not_false_eq_true]
      exact head_orderCandidates_ne_iff hcur (take_sortDedup_ne_nil hsafe)

/-- A forced decision at the committed address switches if the round lasts, DNS answered, another
address comes first and the committed one stays fresh. -/
theorem isSome_selectForced_iff {answered : Bool} (hcur : c.currentV4 = some cur)
    (hgood : c.committedGood = some cur) :
    (c.selectForced nowMs cur (some answered)).1.isSome = true ↔
      c.roundExpired nowMs = false ∧
      (answered = true ∧ ∃ target rest, c.candidates = target :: rest ∧ target ≠ cur) ∧
      (c.policy.enabled = true →
        (c.startPreferredRound nowMs).freshThroughCutover nowMs = true) := by
  have hround := keeps_startPreferredRound c nowMs
  have hcur' := hround.currentV4.trans hcur
  have hgood' := hround.committed.trans hgood
  have hpolicy : (c.startPreferredRound nowMs).policy = c.policy :=
    congrArg EndpointOptions.lastGoodFallback hround.opts
  unfold selectForced
  cases hexpired : c.roundExpired nowMs with
  | true => simp
  | false =>
    cases answered with
    | false => simp
    | true =>
      cases c.candidates with
      | nil => simp
      | cons target rest =>
        by_cases htarget : target = cur
        · simp [htarget]
        · simp only [Bool.false_eq_true, if_false, ne_eq, not_true_eq_false, if_neg htarget,
            hpolicy, hgood', true_and, List.cons.injEq]
          split_ifs with hstale
          · simp [hstale]
          · simp only [switchTo_of_ne hcur' htarget, Option.isSome_some, true_iff]
            exact ⟨⟨target, rest, ⟨rfl, rfl⟩, htarget⟩, fun henabled =>
              Bool.not_eq_false _ |>.mp fun h => hstale ⟨henabled, h⟩⟩

/-- A query leaves the knowledge of the committed address as it is. -/
theorem committedHealthDeadline_query (c : Controller) (nowMs : Nat) (answer : Option DnsAnswer)
    (random : UInt32) (t : Nat) :
    (c.query nowMs answer random).2.committedHealthDeadline t = c.committedHealthDeadline t := by
  obtain ⟨_, _, _, _, _, h⟩ := query_frame c nowMs answer random
  rw [h]
  rfl

/-- The controller that asks DNS in the forced cycle after a command. -/
def askedByCommand (c : Controller) (nowMs : Nat) : Controller :=
  { c.reconnect.startPreferredRound nowMs with forceRefresh := false }

/-- It asks within the round, and knows what the controller knew. -/
theorem askedByCommand_spec (hd : c.isDynamic = true) (nowMs : Nat) :
    (c.askedByCommand nowMs).opts = c.opts ∧ (c.askedByCommand nowMs).spec = c.spec ∧
      (c.askedByCommand nowMs).currentV4 = c.currentV4 ∧
      (c.askedByCommand nowMs).committedGood = c.committedGood ∧
      (c.askedByCommand nowMs).preferredRoundDeadlineMs = c.roundDeadline nowMs ∧
      (c.askedByCommand nowMs).backoff.ready nowMs = true ∧
      ∀ t, (c.askedByCommand nowMs).committedHealthDeadline t = c.committedHealthDeadline t := by
  unfold askedByCommand startPreferredRound roundDeadline
  rw [reconnect_eq hd]
  have hready : c.backoff.onSuccess.ready nowMs = true := decide_eq_true (Nat.zero_le nowMs)
  dsimp only [policy]
  split_ifs
  · exact ⟨rfl, rfl, rfl, rfl, rfl, hready, fun _ => rfl⟩
  · exact ⟨rfl, rfl, rfl, rfl, rfl, hready, fun _ => rfl⟩

/-- After a command, the forced cycle asks DNS and decides with what it then knows. -/
theorem onCycle_reconnect (hd : c.isDynamic = true) (hcur : c.currentV4 = some cur) (wallNow : Nat)
    (io : CycleIo) :
    (c.reconnect.onCycle nowMs wallNow .forced io).1
      = (((c.askedByCommand nowMs).query nowMs io.answer io.random).2.selectForced io.laterMs cur
        (some ((c.askedByCommand nowMs).query nowMs io.answer io.random).1)).1 := by
  obtain ⟨-, -, hcur₁, -, -, hready, -⟩ := askedByCommand_spec hd nowMs
  have hcur₂ : ((c.askedByCommand nowMs).query nowMs io.answer io.random).2.currentV4 = some cur :=
    (continues_query ..).currentV4.trans (hcur₁.trans hcur)
  have hloss : c.reconnect.noteLoss .forced = c.reconnect := if_neg (by decide)
  have hd' : c.reconnect.isDynamic = true := by
    rw [reconnect_eq hd]
    exact hd
  have hdue : c.reconnect.refreshIsDue nowMs = true := by
    rw [reconnect_eq hd]
    rfl
  have hrefresh : c.reconnect.refresh nowMs .forced io
      = (some ((c.askedByCommand nowMs).query nowMs io.answer io.random).1,
        ((c.askedByCommand nowMs).query nowMs io.answer io.random).2, [.queried]) := if_pos hready
  simp only [onCycle, hd', hloss, hdue, Bool.true_eq_false, if_false, if_true, hrefresh, select,
    hcur₂]

/-- After a command at the committed address, the forced cycle switches if and only if the state,
the clocks and the answer call for it. -/
theorem isSome_onCycle_reconnect_iff (hd : c.isDynamic = true) (hcur : c.currentV4 = some cur)
    (hgood : c.committedGood = some cur) (nowMs wallNow : Nat) (io : CycleIo) :
    (c.reconnect.onCycle nowMs wallNow .forced io).1.isSome = true ↔ c.CutsOver nowMs io := by
  obtain ⟨hopts, hspec, hcur₁, hgood₁, hround, -, hdeadline⟩ := askedByCommand_spec hd nowMs
  have hd₁ : (c.askedByCommand nowMs).isDynamic = true := by
    rw [isDynamic, hspec]
    exact hd
  have hquery := continues_query (c.askedByCommand nowMs) nowMs io.answer io.random
  have hround₂ := (round_query (c.askedByCommand nowMs) nowMs io.answer io.random).trans hround
  have hdeadline₂ := fun t => (committedHealthDeadline_query (c.askedByCommand nowMs) nowMs
    io.answer io.random t).trans (hdeadline t)
  have hpolicy : ((c.askedByCommand nowMs).query nowMs io.answer io.random).2.policy = c.policy :=
    congrArg EndpointOptions.lastGoodFallback (hquery.opts.trans hopts)
  have husable : ∀ addrs, (c.askedByCommand nowMs).usable addrs = c.usable addrs := fun addrs => by
    rw [usable, hopts, usable]
  have hcur₁' := hcur₁.trans hcur
  rw [onCycle_reconnect hd hcur, isSome_selectForced_iff (hquery.currentV4.trans hcur₁')
    (hquery.committed.trans (hgood₁.trans hgood)), query_leaves_iff hd₁ hcur₁', hpolicy]
  generalize ((c.askedByCommand nowMs).query nowMs io.answer io.random).2 = c₂
    at hround₂ hdeadline₂ hpolicy ⊢
  have hlasts : c₂.roundExpired io.laterMs = false ↔
      ∀ ends, c.roundDeadline nowMs = some ends → io.laterMs < ends := by
    rw [roundExpired, hround₂]
    cases c.roundDeadline nowMs with
    | none => simp
    | some ends => simp
  have hfresh : (c.policy.enabled = true →
        (c₂.startPreferredRound io.laterMs).freshThroughCutover io.laterMs = true) ↔
      (c.policy.enabled = true → ∀ ends, c.roundDeadline nowMs = some ends →
        ((c.committedHealthDeadline io.laterMs).any fun d =>
          satAdd (satAdd (satAdd ends clientHandshakeTimeoutMs.toNat) c.policy.probationMs.toNat)
            (2 * timerIntervalMs) ≤ d.2) = true) := by
    refine forall_congr' fun henabled => ?_
    obtain ⟨ends, hends⟩ := exists_roundDeadline henabled nowMs
    -- the round was opened before the query, so the decision opens none
    have hopen : c₂.startPreferredRound io.laterMs = c₂ := by
      refine if_neg fun h => ?_
      rw [hround₂, hends] at h
      cases h.2
    rw [hopen, freshThroughCutover, hround₂, hdeadline₂, hpolicy, hends]
    simp only [Option.getD_some, Option.some.injEq, forall_eq']
  rw [hlasts, hfresh]
  simp only [husable]
  constructor
  · rintro ⟨hlasts, ⟨ans, hanswer, hne, hunlisted⟩, hfresh⟩
    refine ⟨⟨ans, hanswer, hne, fun cur' hcur' => ?_⟩, hlasts, hfresh⟩
    rwa [← Option.some.inj (hcur.symm.trans hcur')]
  · rintro ⟨⟨ans, hanswer, hne, hunlisted⟩, hlasts, hfresh⟩
    exact ⟨hlasts, ⟨ans, hanswer, hne, hunlisted cur hcur⟩, hfresh⟩

/-! ## What a forced cycle leaves of the authority -/

theorem attended_startPreferredRound (c : Controller) (nowMs : Nat) :
    (c.startPreferredRound nowMs).attendedCutover = c.attendedCutover := by
  unfold startPreferredRound
  split_ifs <;> rfl

/-- Asking keeps the authority. -/
theorem attended_asked (c : Controller) (nowMs : Nat) (reason : CycleReason) (io : CycleIo) :
    (c.asked nowMs reason io).2.1.attendedCutover = c.attendedCutover := by
  have hround : ((c.noteLoss reason).openRound nowMs reason).attendedCutover
      = c.attendedCutover := by
    unfold openRound noteLoss
    split_ifs <;> first | rfl | exact attended_startPreferredRound ..
  unfold asked
  split_ifs
  · unfold refresh
    dsimp only
    split_ifs
    · obtain ⟨_, _, _, _, _, h⟩ := query_frame (c.asking nowMs reason) nowMs io.answer io.random
      exact (congrArg attendedCutover h).trans hround
    · exact hround
  · unfold noteLoss
    split_ifs <;> rfl

theorem attended_switchTo (c : Controller) (target : Ipv4Addr) (why : SwitchWhy) :
    (c.switchTo target why).2.attendedCutover = c.attendedCutover := by
  unfold switchTo
  split
  · rfl
  · split_ifs <;> rfl

/-- A forced cycle that switches keeps the authority; one that does not gives it up. -/
theorem attended_selectForced (hcur : c.currentV4 = some cur) (querySucceeded : Option Bool) :
    (c.selectForced nowMs cur querySucceeded).2.attendedCutover
      = (c.attendedCutover && (c.selectForced nowMs cur querySucceeded).1.isSome) := by
  unfold selectForced
  split_ifs
  · exact (Bool.and_false _).symm
  · exact (Bool.and_false _).symm
  cases c.candidates with
  | nil => exact (Bool.and_false _).symm
  | cons target rest =>
    dsimp only
    split_ifs with htarget hstale
    · exact (Bool.and_false _).symm
    · exact (Bool.and_false _).symm
    · have hcur' : (c.startPreferredRound nowMs).currentV4 = some cur :=
        (keeps_startPreferredRound c nowMs).currentV4.trans hcur
      rw [attended_switchTo, attended_startPreferredRound]
      simp only [switchTo, hcur', if_neg htarget, Option.isSome_some, Bool.and_true]

/-- A forced cycle that does not switch gives the authority up. -/
theorem attended_onCycle_forced {nowMs wallNow : Nat} {cur : Ipv4Addr} {io : CycleIo}
    (hd : c.isDynamic = true) (hcur : c.currentV4 = some cur) :
    (c.onCycle nowMs wallNow .forced io).2.1.attendedCutover
      = (c.attendedCutover && (c.onCycle nowMs wallNow .forced io).1.isSome) := by
  have hcur' := (asked_spec c nowMs .forced io).1.currentV4.trans hcur
  simp only [onCycle_eq hd, select, hcur']
  rw [attended_selectForced hcur', attended_asked]

/-! ## The attempt after it fails -/

/-- With the authority, a failed attempt returns to the committed address and writes nothing. -/
theorem attemptFailed_returns {nowMs wallNow : Nat} {x a : Ipv4Addr} (io : CycleIo)
    (hd : c.isDynamic = true) (hcur : c.currentV4 = some x) (hp : c.probation = none)
    (hattended : c.attendedCutover = true) (hcommitted : c.committedGood = some a) (hne : a ≠ x) :
    (c.onCycle nowMs wallNow .attemptFailed io).1
      = some ⟨c.current, (.v4 a, c.spec.port), .attendedFailed x a⟩ ∧
    ∀ e ∈ (c.onCycle nowMs wallNow .attemptFailed io).2.2, e = .queried := by
  obtain ⟨hcont, hqueried⟩ := asked_spec c nowMs .attemptFailed io
  have hattended' := (attended_asked c nowMs .attemptFailed io).trans hattended
  rw [onCycle_eq hd, ← hcont.current, ← hcont.spec]
  generalize c.asked nowMs .attemptFailed io = asked at hcont hqueried hattended' ⊢
  have hcur' := hcont.currentV4.trans hcur
  have hp' : asked.2.1.probation = none := hcont.probation.elim (fun h => h.trans hp) id
  have hdue : ∀ ms wall, asked.2.1.returnDue ms wall x io.returnCharge = (none, asked.2.1, []) := by
    simp only [returnDue, hp', implies_true]
  have htarget : (if asked.2.1.attendedCutover then asked.2.1.committedGood.filter (· ≠ x)
      else none) = some a := by
    simp [hattended', hcont.committed, hcommitted, hne]
  simp only [select, hcur', selectAttemptFailed, hdue, attemptFailed, htarget, List.append_nil]
  exact ⟨@switchTo_of_ne { asked.2.1 with attendedCutover := false } x a _ hcur' hne, hqueried⟩

/-! ## Without the authority -/

/-- After a usable answer the current address, if it is listed, comes first. -/
theorem head_query {answer : Option DnsAnswer} {random : UInt32} (hcur : c.currentV4 = some cur)
    (hq : (c.query nowMs answer random).1 = true)
    (hmem : cur ∈ (c.query nowMs answer random).2.candidates) :
    (c.query nowMs answer random).2.candidates.head? = some cur := by
  unfold query at hq hmem ⊢
  split_ifs at hq hmem ⊢
  cases answer with
  | none => cases hq
  | some ans =>
    dsimp only at hq hmem ⊢
    split_ifs at hq hmem ⊢
    exact head_orderCandidates hcur (mem_of_mem_orderCandidates hmem)

/-- A switch adds no candidate. -/
theorem mem_of_mem_switchTo {ip target : Ipv4Addr} {why : SwitchWhy}
    (h : ip ∈ (c.switchTo target why).2.candidates) : ip ∈ c.candidates := by
  unfold switchTo at h
  split at h
  · exact h
  · split_ifs at h
    · exact h
    · have hmem := mem_of_mem_orderCandidates h
      exact hmem

/-- The first candidate is gone to, so the current address is none of them. -/
theorem unlisted_selectForced {querySucceeded : Option Bool}
    (hhead : querySucceeded = some true → cur ∈ c.candidates → c.candidates.head? = some cur)
    (hs : (c.selectForced nowMs cur querySucceeded).1 = some s) :
    cur ∉ (c.selectForced nowMs cur querySucceeded).2.candidates := by
  unfold selectForced at hs ⊢
  split_ifs at hs ⊢ with hexpired hquery
  cases hcandidates : c.candidates with
  | nil =>
    rw [hcandidates] at hs
    cases hs
  | cons target rest =>
    rw [hcandidates] at hs
    dsimp only at hs ⊢
    split_ifs at hs ⊢ with htarget
    intro hmem
    have hmem := mem_of_mem_switchTo hmem
    rw [(keeps_startPreferredRound c nowMs).candidates] at hmem
    have hfirst := hhead (not_not.mp hquery) hmem
    rw [hcandidates] at hfirst
    exact htarget (Option.some.inj hfirst)

/-- A forced switch leaves an address that DNS does not list. -/
theorem unlisted_onCycle_forced (hd : c.isDynamic = true) (hcur : c.currentV4 = some cur)
    (hs : (c.onCycle nowMs wallNow .forced io).1 = some s) :
    cur ∉ (c.onCycle nowMs wallNow .forced io).2.1.candidates := by
  have hcur' := (asked_spec c nowMs .forced io).1.currentV4.trans hcur
  simp only [onCycle_eq hd, select, hcur'] at hs ⊢
  refine unlisted_selectForced ?_ hs
  obtain ⟨-, -, h⟩ | ⟨-, c₁, -, h⟩ := asked_cases c nowMs .forced io
  · rw [h]
    intro hq
    refine head_query ?_ (Option.some.inj hq)
    exact (continues_asking c nowMs .forced).currentV4.trans hcur
  · rw [h]
    exact nofun

/-- Without the lock nothing is granted. -/
theorem chargeFallback_unlocked {candidate : Ipv4Addr} {io : ChargeIo} (h : io.locked = false) :
    (c.chargeFallback wallNow candidate io).1 = false := by
  unfold chargeFallback
  split_ifs
  · rfl
  · split
    · rfl
    · simp only [lockedCharge, h, if_true]

/-- Without a charge there is no probe. -/
theorem probeDue_unlocked {nowMs wallNow : Nat} {cur : Ipv4Addr} {io : ChargeIo}
    (h : io.locked = false) : (c.probeDue nowMs wallNow cur io).1 = none ∧
      (c.probeDue nowMs wallNow cur io).2.1.candidates = c.candidates := by
  unfold probeDue
  split_ifs
  · split
    · simp only [chargeFallback_unlocked h, Bool.false_eq_true, if_false]
      exact ⟨trivial, (keeps_chargeFallback ..).candidates⟩
    · exact ⟨rfl, rfl⟩
  · exact ⟨rfl, rfl⟩

/-- A switch goes where it is told. -/
theorem listed_switchTo {target : Ipv4Addr} {why : SwitchWhy}
    (hs : (c.switchTo target why).1 = some s) : s.to_.1 = .v4 target := by
  unfold switchTo at hs
  split at hs
  · cases hs
  · split_ifs at hs
    cases hs
    rfl

/-- Without the authority, a probation or a charge, a failed attempt on an address that is not
committed goes on to a listed one. -/
theorem listed_attemptFailed {io : ChargeIo} (hattended : c.attendedCutover = false)
    (hcommitted : c.committedGood ≠ some cur) (hio : io.locked = false)
    (hs : (c.attemptFailed nowMs wallNow cur io).1 = some s) :
    ∃ target ∈ c.candidates, s.to_.1 = .v4 target := by
  simp only [attemptFailed, hattended, Bool.false_eq_true, if_false, if_neg hcommitted,
    candidateFailed] at hs
  obtain ⟨hnone, hcandidates⟩ := @probeDue_unlocked (c.countFailure nowMs) nowMs wallNow cur io hio
  generalize (c.countFailure nowMs).probeDue nowMs wallNow cur io = probe at hs hnone hcandidates
  obtain ⟨target, c₁, events⟩ := probe
  obtain rfl : target = none := hnone
  dsimp only at hs hcandidates
  unfold nextInRound at hs
  split_ifs at hs
  split at hs
  next next hnext =>
    have hmem := mem_of_nextDnsCandidate (Option.filter_eq_some_iff.mp hnext).1
    have hcount : (c.countFailure nowMs).candidates = c.candidates :=
      (keeps_startPreferredRound c nowMs).candidates
    rw [hcandidates, hcount] at hmem
    exact ⟨next, hmem, listed_switchTo hs⟩
  next => cases hs

/-- A query that fails changes no candidate. -/
theorem candidates_asked (c : Controller) (nowMs : Nat) (reason : CycleReason)
    (hanswer : io.answer = none) : (c.asked nowMs reason io).2.1.candidates = c.candidates := by
  have hloss : (c.noteLoss reason).candidates = c.candidates := by
    unfold noteLoss
    split_ifs <;> rfl
  have hround := (keeps_openRound (c.noteLoss reason) nowMs reason).candidates.trans hloss
  obtain ⟨-, -, h⟩ | ⟨-, c₁, hkeeps, h⟩ := asked_cases c nowMs reason io
  · rw [h, hanswer, query]
    split_ifs <;> exact hround
  · rw [h]
    exact hkeeps.candidates.trans hloss

/-- The cycle after a forced switch whose attempt failed, with DNS down and no charge granted:
without the authority it does not return. -/
theorem attemptFailed_stays_away {x : Ipv4Addr} (hd : c.isDynamic = true)
    (hcur : c.currentV4 = some x) (hp : c.probation = none) (hattended : c.attendedCutover = false)
    (hcommitted : c.committedGood ≠ some x) (ha : a ∉ c.candidates) (hanswer : io.answer = none)
    (hio : io.probeCharge.locked = false)
    (hs : (c.onCycle nowMs wallNow .attemptFailed io).1 = some s) : s.to_.1 ≠ .v4 a := by
  have hcont := (asked_spec c nowMs .attemptFailed io).1
  have hattended' := (attended_asked c nowMs .attemptFailed io).trans hattended
  have hcandidates := c.candidates_asked nowMs .attemptFailed hanswer
  rw [onCycle_eq hd] at hs
  generalize c.asked nowMs .attemptFailed io = asked at hs hcont hattended' hcandidates
  have hp' : asked.2.1.probation = none := hcont.probation.elim (fun h => h.trans hp) id
  simp only [select, hcont.currentV4.trans hcur, selectAttemptFailed, returnDue, hp'] at hs
  obtain ⟨target, hmem, htarget⟩ :=
    listed_attemptFailed hattended' (hcont.committed ▸ hcommitted) hio hs
  intro hto
  rw [htarget] at hto
  cases hto
  exact ha (hcandidates ▸ hmem)

/-! ## Repeating the command -/

/-- An endpoint that is in use and committed is on no probation. -/
theorem committed_of_healthy (hs : Settled c) (h : c.healthy = true) :
    ∃ a, c.currentV4 = some a ∧ c.committedGood = some a ∧ c.probation = none := by
  simp only [healthy, Bool.and_eq_true, beq_iff_eq] at h
  obtain ⟨⟨hauth, hsome⟩, hcommitted⟩ := h
  obtain ⟨a, ha⟩ := Option.isSome_iff_exists.mp hsome
  refine ⟨a, ha, hcommitted.trans ha, ?_⟩
  cases hp : c.probation with
  | none => rfl
  | some p =>
    have hprob := hs p hp
    have hsame := (hprob.committed.symm.trans hcommitted).trans (hprob.active hauth)
    exact absurd (Option.some.inj hsame).symm hprob.other

/-- The address behind `currentV4`. -/
theorem current_of_currentV4 (h : c.currentV4 = some a) : c.current.1 = .v4 a := by
  unfold currentV4 at h
  split at h
  · cases h
    assumption
  · cases h

/-- After a forced switch the committed address is another one and there is no probation. -/
theorem after_forced (hd : c.isDynamic = true) (hcur : c.currentV4 = some a)
    (hcommitted : c.committedGood = some a) (hp : c.probation = none)
    (hs : (c.onCycle nowMs wallNow .forced io).1 = some s) :
    let after := (c.onCycle nowMs wallNow .forced io).2.1
    ∃ x, after.isDynamic = true ∧ after.currentV4 = some x ∧ after.probation = none ∧
      after.committedGood = some a ∧ a ≠ x := by
  have hcycled := cycled_onCycle c nowMs wallNow .forced io
  obtain ⟨x, hto, hcurrent, -, -⟩ := hcycled.leaves s hs
  refine ⟨x, ?_, ?_, hcycled.probation.elim (fun h => h.trans hp) id,
    hcycled.committed.trans hcommitted, ?_⟩
  · rw [isDynamic, hcycled.spec]
    exact hd
  · rw [currentV4, hcurrent, hto]
  · rintro rfl
    refine hcycled.moves s hs ?_
    rw [hto, current_of_currentV4 hcur]

/-- After a forced switch it shows whether the authority is there: when the attempt fails, DNS
is down and no charge is granted, only with it the client returns. -/
theorem giveUp_observed_ne (hd : c.isDynamic = true) (hcur : c.currentV4 = some a)
    (hcommitted : c.committedGood = some a) (hp : c.probation = none)
    (hattended : c.attendedCutover = true) (hs : (c.onCycle nowMs wallNow .forced io).1 = some s) :
    ∃ rs, (c.onCycle nowMs wallNow .forced io).2.1.giveUp.observed rs
      ≠ (c.onCycle nowMs wallNow .forced io).2.1.observed rs := by
  have hkept := @attended_onCycle_forced c nowMs wallNow a io hd hcur
  have hunlisted := unlisted_onCycle_forced hd hcur hs
  obtain ⟨x, hd', hcur', hp', hcommitted', hne⟩ := after_forced hd hcur hcommitted hp hs
  rw [hs, Option.isSome_some, Bool.and_true, hattended] at hkept
  generalize c.onCycle nowMs wallNow .forced io = r
    at hd' hcur' hp' hcommitted' hkept hunlisted ⊢
  -- the attempt fails, the resolver is down and the lock of the budget is not to be had
  let down : CycleIo := ⟨none, 0, 0, 0, ⟨false, .absent, .refused⟩, ⟨false, .absent, .refused⟩⟩
  refine ⟨[.onCycle 0 0 .attemptFailed down], fun hsame => ?_⟩
  have hseen : ((r.2.1.giveUp.onCycle 0 0 .attemptFailed down).1.map fun s => (s.from_, s.to_))
      = (r.2.1.onCycle 0 0 .attemptFailed down).1.map fun s => (s.from_, s.to_) := by
    have h := (Prod.mk.inj (List.cons.inj hsame).1).1
    exact Seen.switched.inj h
  rw [(attemptFailed_returns down hd' hcur' hp' hkept hcommitted' hne).1, Option.map_some,
    Option.map_eq_some_iff] at hseen
  obtain ⟨s', hs', hends⟩ := hseen
  have haway := attemptFailed_stays_away (c := r.2.1.giveUp) hd' hcur' hp' rfl
    (fun h => hne (Option.some.inj (hcommitted'.symm.trans h))) hunlisted rfl rfl hs'
  exact haway (congrArg Prod.fst (Prod.mk.inj hends).2)

/-- What a failed attempt after the switch of `cycle` does: it returns to the address `back`,
whatever the clocks, DNS and the files, and writes no file. -/
def ReturnsFree (cycle : Option Switch × Controller × List EndpointEvent)
    (back : IpAddr × UInt16) : Prop :=
  cycle.1 ≠ none → ∀ nowMs wallNow io,
    (cycle.2.1.onCycle nowMs wallNow .attemptFailed io).1.map Switch.to_ = some back ∧
    ∀ e ∈ (cycle.2.1.onCycle nowMs wallNow .attemptFailed io).2.2, e = .queried

/-- With the authority, the forced cycle is one that returns. -/
theorem returnsFree_onCycle_forced (hd : c.isDynamic = true) (hcur : c.currentV4 = some a)
    (hcommitted : c.committedGood = some a) (hp : c.probation = none)
    (hattended : c.attendedCutover = true) :
    ReturnsFree (c.onCycle nowMs wallNow .forced io) (.v4 a, c.spec.port) := by
  intro hswitch nowMs' wallNow' io'
  obtain ⟨s, hs⟩ := Option.ne_none_iff_exists'.mp hswitch
  obtain ⟨x, hd', hcur', hp', hcommitted', hne⟩ := after_forced hd hcur hcommitted hp hs
  have hkept := @attended_onCycle_forced c nowMs wallNow a io hd hcur
  rw [hs, Option.isSome_some, Bool.and_true, hattended] at hkept
  obtain ⟨hback, hevents⟩ := @attemptFailed_returns _ nowMs' wallNow' x a io' hd' hcur' hp'
    hkept hcommitted' hne
  refine ⟨?_, hevents⟩
  rw [hback, (cycled_onCycle c nowMs wallNow .forced io).spec]
  rfl

/-- For a hostname whose current endpoint is authenticated and committed: giving the command `k`
times before the forced cycle leads to the same switch and the same later behaviour as giving
it once, and to a return without a charge when the attempt after a switch fails, if and only if
it was given once or the state, the clocks and the answer call for no switch. -/
theorem repeated_reconnect_harmless_iff {name : List UInt8} {port : UInt16} {opts : EndpointOptions}
    (hrun : Reached (.hostname name port) opts log c) (hhealthy : c.healthy = true) {k : Nat}
    (hk : 1 ≤ k) (nowMs wallNow : Nat) (io : CycleIo) :
    let once := c.reconnect.onCycle nowMs wallNow .forced io
    let many := (reconnect^[k] c).onCycle nowMs wallNow .forced io
    (many.1 = once.1 ∧ (∀ rs, many.2.1.observed rs = once.2.1.observed rs) ∧
        ReturnsFree many (c.current.1, port)) ↔
      (k = 1 ∨ ¬ c.CutsOver nowMs io) := by
  intro once many
  have hd : c.isDynamic = true := hrun.isDynamic
  obtain ⟨a, hcur, hcommitted, hprobation⟩ := committed_of_healthy hrun.settled hhealthy
  obtain ⟨hd₁, hcur₁, hcommitted₁, hprobation₁, hattended₁⟩ : c.reconnect.isDynamic = true ∧
      c.reconnect.currentV4 = some a ∧ c.reconnect.committedGood = some a ∧
      c.reconnect.probation = none ∧ c.reconnect.attendedCutover = true := by
    rw [reconnect_eq hd]
    exact ⟨hd, hcur, hcommitted, hprobation, hhealthy⟩
  have hback : (IpAddr.v4 a, c.reconnect.spec.port) = (c.current.1, port) := by
    rw [reconnect_eq hd, current_of_currentV4 hcur, hrun.spec_opts.1]
    rfl
  have hreturns : ReturnsFree once (c.current.1, port) :=
    hback ▸ returnsFree_onCycle_forced hd₁ hcur₁ hcommitted₁ hprobation₁ hattended₁
  have hswitches := isSome_onCycle_reconnect_iff hd hcur hcommitted nowMs wallNow io
  obtain rfl | ⟨j, rfl⟩ : k = 1 ∨ ∃ j, k = j + 2 :=
    (Nat.lt_or_eq_of_le hk).symm.imp Eq.symm fun h => ⟨k - 2, by omega⟩
  · exact ⟨fun _ => .inl rfl, fun _ => ⟨rfl, fun _ => rfl, hreturns⟩⟩
  have hmany : many = (once.1, once.2.1.giveUp, once.2.2) := by
    simp only [many, iterate_reconnect c hd]
    exact giveUp_onCycle_forced c.reconnect nowMs wallNow io
  rw [hmany]
  constructor
  · rintro ⟨-, hsame, -⟩
    refine .inr fun hcuts => ?_
    obtain ⟨s, hs⟩ := Option.isSome_iff_exists.mp (hswitches.mpr hcuts)
    obtain ⟨rs, hne⟩ := giveUp_observed_ne hd₁ hcur₁ hcommitted₁ hprobation₁ hattended₁ hs
    exact hne (hsame rs)
  · rintro (h | h)
    · omega
    · have hstays : once.1 = none := by
        rwa [← hswitches, Option.not_isSome_iff_eq_none] at h
      have hattended : once.2.1.attendedCutover = false := by
        have hkept := @attended_onCycle_forced c.reconnect nowMs wallNow a io hd₁ hcur₁
        rwa [show (c.reconnect.onCycle nowMs wallNow .forced io).1 = none from hstays,
          Option.isSome_none, Bool.and_false] at hkept
      have hgone : once.2.1.giveUp = once.2.1 := by rw [giveUp, ← hattended]
      exact ⟨rfl, fun rs => by rw [hgone], fun hswitch => absurd hstays hswitch⟩

/-- Two commands while DNS still lists `9.9.9.9`, and one while it lists `8.8.8.8` instead. -/
theorem repeated_reconnect_harmless_iff_listed :
    ∃ log c, Reached (.hostname [120] 443) cachedOpts log c ∧ c.healthy = true ∧
      (∀ rs, ((reconnect^[2] c).onCycle 2000 1002 .forced
          (answering 2000 (some #v[9, 9, 9, 9]))).2.1.observed rs
        = (c.reconnect.onCycle 2000 1002 .forced
          (answering 2000 (some #v[9, 9, 9, 9]))).2.1.observed rs) ∧
      (c.reconnect.onCycle 2000 1002 .forced (answering 2000 (some #v[8, 8, 8, 8]))).1 ≠ none ∧
      ReturnsFree (c.reconnect.onCycle 2000 1002 .forced (answering 2000 (some #v[8, 8, 8, 8])))
        (.v4 #v[9, 9, 9, 9], 443) := by
  obtain ⟨log, c, hrun, h⟩ := exists_reached_of_replay (.hostname [120] 443) cachedOpts
    firstBoot [.onAuthenticated 1000 .written] (fun _ c => c.healthy = true ∧
      c.current.1 = .v4 #v[9, 9, 9, 9] ∧
      (c.reconnect.onCycle 2000 1002 .forced (answering 2000 (some #v[8, 8, 8, 8]))).1 ≠ none ∧
      #v[9, 9, 9, 9] ∈ (sortDedup (c.usable [#v[9, 9, 9, 9]])).take maxEndpointCandidates)
    (by decide +kernel)
  obtain ⟨hhealthy, hcur, hswitches, hlisted⟩ := of_decide_eq_true h
  have hstays : ¬ c.CutsOver 2000 (answering 2000 (some #v[9, 9, 9, 9])) := by
    rintro ⟨⟨ans, hans, -, hunlisted⟩, -, -⟩
    obtain rfl := Option.some.inj hans
    exact hunlisted _ (by rw [currentV4, hcur]) hlisted
  refine ⟨log, c, hrun, hhealthy, ?_, hswitches, ?_⟩
  · exact ((repeated_reconnect_harmless_iff hrun hhealthy (by decide) 2000 1002
      (answering 2000 (some #v[9, 9, 9, 9]))).mpr (.inr hstays)).2.1
  · rw [← hcur]
    exact ((repeated_reconnect_harmless_iff hrun hhealthy (by decide) 2000 1002
      (answering 2000 (some #v[8, 8, 8, 8]))).mpr (.inl rfl)).2.2

/-- Two commands: the switch to `8.8.8.8` is the same, but after it fails the client does not
return to `9.9.9.9`, as it does after one command. -/
theorem repeated_reconnect_loses_return :
    ∃ log c, Reached (.hostname [120] 443) cachedOpts log c ∧ c.healthy = true ∧
      ∀ once many, once = c.reconnect.onCycle 2000 1002 .forced
          (answering 2000 (some #v[8, 8, 8, 8])) →
        many = (reconnect^[2] c).onCycle 2000 1002 .forced
          (answering 2000 (some #v[8, 8, 8, 8])) →
        many.1 = once.1 ∧
        (once.2.1.onCycle 7400 1007 .attemptFailed (answering 7400 none)).1.map Switch.to_
          = some (.v4 #v[9, 9, 9, 9], 443) ∧
        (many.2.1.onCycle 7400 1007 .attemptFailed (answering 7400 none)).1 = none := by
  obtain ⟨log, c, hrun, h⟩ := exists_reached_of_replay (.hostname [120] 443) cachedOpts
    firstBoot [.onAuthenticated 1000 .written] (fun _ c =>
      let once := c.reconnect.onCycle 2000 1002 .forced (answering 2000 (some #v[8, 8, 8, 8]))
      let many := (reconnect^[2] c).onCycle 2000 1002 .forced
        (answering 2000 (some #v[8, 8, 8, 8]))
      c.healthy = true ∧ many.1 = once.1 ∧
        (once.2.1.onCycle 7400 1007 .attemptFailed (answering 7400 none)).1.map Switch.to_
          = some (.v4 #v[9, 9, 9, 9], 443) ∧
        (many.2.1.onCycle 7400 1007 .attemptFailed (answering 7400 none)).1 = none)
    (by decide +kernel)
  obtain ⟨hhealthy, hrest⟩ := of_decide_eq_true h
  refine ⟨log, c, hrun, hhealthy, ?_⟩
  rintro once many rfl rfl
  exact hrest

end Controller

end Udp2raw
