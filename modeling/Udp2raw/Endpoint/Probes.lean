import Udp2raw.Core.Accounts
import Udp2raw.Endpoint.Runs

/-!
# Probes of old addresses are paid for

A switch to the committed address while DNS does not list it is a blind probe. It
is paid for by a persisted charge, or by a refresh that was requested while the
committed endpoint was in use. Between payment and probe the authority is held in
the controller: as the mark of an attended cutover, or in a probation.
-/

namespace Udp2raw

namespace Controller

open Accounts

variable {c : Controller} {log : List Occurrence}

/-! ## Payments and probes in the log -/

/-- The call is a switch to the committed address while that is not among the candidates. -/
def Occurrence.blindProbe (o : Occurrence) : Bool :=
  match o.reply with
  | .switched (some s) =>
    match s.to_.1 with
    | .v4 target => o.after.committedGood = some target ∧ target ∉ o.after.candidates
    | .v6 _ => false
  | _ => false

/-- The call is a `request_refresh` while the current endpoint is authenticated and
committed. -/
def Occurrence.attendedRequest (o : Occurrence) : Bool :=
  o.request = .requestRefresh ∧ o.before.healthy

/-- The event is a granted charge: its state is in the file and synced. -/
def EndpointEvent.charge : EndpointEvent → Option Mark
  | .stateWritten _ true => some .paid
  | _ => none

/-- What a call pays. -/
def Occurrence.payments (o : Occurrence) : List Mark :=
  o.events.filterMap EndpointEvent.charge ++ if o.attendedRequest then [.paid] else []

/-- What a call pays and spends, in order: its file operations come before its reply. -/
def Occurrence.marks (o : Occurrence) : List Mark :=
  o.payments ++ if o.blindProbe then [.spent] else []

/-- The authority the controller holds. -/
def reserve (c : Controller) : Nat :=
  c.attendedCutover.toNat
    + (c.probation.any fun p => p.directReturn || p.rollbackAuthorized).toNat

/-- A payment is no probe. -/
theorem spent_not_mem_payments (o : Occurrence) : .spent ∉ o.payments := by
  intro h
  obtain h | h := List.mem_append.mp h
  · obtain ⟨e, -, he⟩ := List.mem_filterMap.mp h
    unfold EndpointEvent.charge at he
    split at he <;> cases he
  · split_ifs at h
    · cases List.mem_singleton.mp h
    · cases h

theorem count_payments_pos_of_charged {o : Occurrence} (h : Charged o.events) :
    1 ≤ o.payments.count .paid := by
  obtain ⟨state, hmem⟩ := h
  have hpaid : .paid ∈ o.payments :=
    List.mem_append_left _ (List.mem_filterMap.mpr ⟨_, hmem, rfl⟩)
  exact List.count_pos_iff.mpr hpaid

/-! ## One call -/

theorem Continues.attended_le {c' : Controller} (h : Continues c c') :
    c'.attendedCutover.toNat ≤ c.attendedCutover.toNat := by
  cases hc' : c'.attendedCutover with
  | false => exact Nat.zero_le _
  | true => rw [h.attended hc']

/-- Giving authority up takes nothing from the account. -/
theorem Continues.reserve_le {c' : Controller} (h : Continues c c') : reserve c' ≤ reserve c := by
  have hattended := h.attended_le
  unfold reserve
  obtain hp | hp := h.probation
  · rw [hp]
    omega
  · rw [hp, Option.any_none, Bool.toNat_false]
    omega

/-- A switch is to a listed address, or it is paid for by the call or by the reserve. -/
theorem reserve_leaves {s : Switch} {o : Occurrence} (hreply : o.reply = .switched (some s))
    (h : Cycled c (some s) o.after o.events) :
    o.blindProbe.toNat + reserve o.after ≤ reserve c + o.payments.count .paid := by
  obtain ⟨target, hto, -, -, hentitled⟩ := h.leaves s rfl
  have hblind : o.blindProbe.toNat ≤ 1 := Bool.toNat_le _
  have hattended : o.after.attendedCutover.toNat ≤ c.attendedCutover.toNat := by
    cases hc : o.after.attendedCutover with
    | false => exact Nat.zero_le _
    | true => rw [h.attended hc]
  have hprobation : (o.after.probation.any fun p => p.directReturn || p.rollbackAuthorized).toNat
      ≤ (c.probation.any fun p => p.directReturn || p.rollbackAuthorized).toNat := by
    obtain hp | hp := h.probation
    · rw [hp]
    · rw [hp]
      exact Nat.zero_le _
  unfold reserve
  cases hentitled with
  | listed hmem =>
    have hnot : o.blindProbe = false := by
      simp only [Occurrence.blindProbe, hreply, hto]
      exact decide_eq_false fun hb => hb.2 hmem
    rw [hnot, Bool.toNat_false]
    omega
  | charged hc =>
    have hpaid := count_payments_pos_of_charged hc
    omega
  | attended ha ha' =>
    rw [ha, ha', Bool.toNat_true, Bool.toNat_false]
    omega
  | probation p hp hauth hnone =>
    have hheld : (c.probation.any fun p => p.directReturn || p.rollbackAuthorized) = true := by
      rw [hp, Option.any_some, Bool.or_eq_true]
      exact hauth
    rw [hheld, hnone, Option.any_none, Bool.toNat_true, Bool.toNat_false]
    omega

/-- A call that is no switch: the reserve it leaves was there or is paid for. -/
theorem blindProbe_of_reply {o : Occurrence} (h : ∀ s, o.reply ≠ .switched (some s)) :
    o.blindProbe = false := by
  unfold Occurrence.blindProbe
  split
  next s hs => exact absurd hs (h s)
  next => rfl

/-- An attended request puts one payment into the reserve. -/
theorem reserve_requestRefresh (c : Controller) (reply : Reply) :
    reserve c.requestRefresh ≤ reserve c +
      (Occurrence.payments ⟨c, .requestRefresh, reply, [], c.requestRefresh⟩).count .paid := by
  have hpaid : (Occurrence.payments ⟨c, .requestRefresh, reply, [], c.requestRefresh⟩).count .paid
      = c.healthy.toNat := by
    cases h : c.healthy <;> simp [Occurrence.payments, Occurrence.attendedRequest, h]
  rw [hpaid]
  unfold requestRefresh
  split_ifs
  · simp only [reserve]
    omega
  · exact Nat.le_add_right _ _

/-- Every call spends and reserves at most what was in reserve and what it pays. -/
theorem reserve_handle (c : Controller) (r : Request) :
    (c.occurrence r).blindProbe.toNat + reserve (c.handle r).2.1
      ≤ reserve c + (c.occurrence r).payments.count .paid := by
  have hcalled := called c r
  have hno : ∀ {o : Occurrence}, (∀ s, o.reply ≠ .switched (some s)) →
      reserve o.after ≤ reserve c + o.payments.count .paid →
      o.blindProbe.toNat + reserve o.after ≤ reserve c + o.payments.count .paid := by
    intro o hreply h
    rw [blindProbe_of_reply hreply, Bool.toNat_false, Nat.zero_add]
    exact h
  unfold occurrence
  generalize (c.handle r).1 = reply, (c.handle r).2.1 = c', (c.handle r).2.2 = events
    at hcalled ⊢
  cases hcalled with
  | continues hcont _ _ _ hstay =>
    exact hno hstay (hcont.reserve_le.trans (Nat.le_add_right _ _))
  | leaves h => exact reserve_leaves rfl h
  | ended => exact hno nofun (Nat.le_add_right _ _)
  | refreshed => exact hno nofun (reserve_requestRefresh c _)
  | authenticatedV6 _ _ _ hprobation hattended =>
    refine hno nofun ?_
    simp only [reserve, hprobation, hattended]
    exact Nat.le_add_right _ _
  | committed hcur _ ha _ hprobation =>
    refine hno nofun ?_
    simp [reserve, hprobation, ha.attended (by rw [hcur]; exact Option.some_ne_none _)]
  | begun hcur _ _ _ ha _ hprobation =>
    refine hno nofun ?_
    simp [reserve, hprobation, ha.attended (by rw [hcur]; exact Option.some_ne_none _)]
    omega
  | @counted nowMs c₁ p hcont hp =>
    refine hno nofun ?_
    have hattended := hcont.attended_le
    simp only [reserve, hp, Option.any_some, countData]
    omega
  | @authorized r granted c₁ events p hcont _ _ _ hp _ hauth =>
    refine hno nofun ?_
    have hattended := hcont.attended_le
    simp only [reserve, hp, Option.any_some, Bool.or_true, Bool.toNat_true]
    obtain hdirect | hauthorized | hcharged := hauth
    · rw [hdirect, Bool.true_or, Bool.toNat_true]
      omega
    · rw [hauthorized, Bool.or_true, Bool.toNat_true]
      omega
    · have hpaid := count_payments_pos_of_charged (o := ⟨c, r, .rollback granted, events,
        { c₁ with probation := some { p with rollbackAuthorized := true } }⟩) hcharged
      omega
  | promoted => exact hno nofun (Nat.zero_le _)
  | promotionFailed => exact hno nofun (Nat.le_add_right _ _)

/-! ## Runs -/

/-- A call settles against an account that covers the reserve. -/
theorem settle_marks {b : Nat} (r : Request) (hb : reserve c ≤ b) :
    ∃ b', settle b (c.occurrence r).marks = some b' ∧ reserve (c.handle r).2.1 ≤ b' := by
  have hstep := reserve_handle c r
  unfold Occurrence.marks
  rw [settle_append, settle_of_not_spent b (spent_not_mem_payments _), Option.bind_some]
  cases hblind : (c.occurrence r).blindProbe with
  | false =>
    rw [hblind, Bool.toNat_false] at hstep
    exact ⟨_, rfl, by omega⟩
  | true =>
    rw [hblind, Bool.toNat_true] at hstep
    obtain ⟨d, hd⟩ : ∃ d, b + (c.occurrence r).payments.count .paid = d + 1 :=
      ⟨b + (c.occurrence r).payments.count .paid - 1, by omega⟩
    rw [hd]
    exact ⟨d, rfl, by omega⟩

/-- The log of a run settles, and what is left covers the reserve. -/
theorem Reached.settles {spec : EndpointSpec} {opts : EndpointOptions}
    (h : Reached spec opts log c) :
    ∃ b, settle 0 (log.flatMap Occurrence.marks) = some b ∧ reserve c ≤ b := by
  obtain ⟨io, c₀, hboot, hrun⟩ := h
  have hfresh := fresh_bootstrap hboot
  refine hrun.invariant (I := fun log c =>
    ∃ b, settle 0 (log.flatMap Occurrence.marks) = some b ∧ reserve c ≤ b) ?_ ?_
  · refine ⟨0, rfl, ?_⟩
    simp [reserve, hfresh.attended, hfresh.probation]
  · rintro log c r - ⟨b, hb, hreserve⟩
    obtain ⟨b', hb', hreserve'⟩ := settle_marks r hreserve
    refine ⟨b', ?_, hreserve'⟩
    rw [List.flatMap_append, settle_append, hb, Option.bind_some, List.flatMap_singleton]
    exact hb'

/-- The granted charges of some calls. -/
def charges (log : List Occurrence) : Nat :=
  (log.map fun o => (o.events.filterMap EndpointEvent.charge).length).sum

/-- The payments of a call are its charges and its attended request. -/
theorem count_paid_marks (o : Occurrence) :
    o.marks.count .paid
      = (o.events.filterMap EndpointEvent.charge).length + o.attendedRequest.toNat := by
  have hcharges : (o.events.filterMap EndpointEvent.charge).count .paid
      = (o.events.filterMap EndpointEvent.charge).length := by
    refine List.count_eq_length.mpr fun m hm => ?_
    cases m with
    | paid => rfl
    | spent => exact absurd (List.mem_append_left _ hm) (spent_not_mem_payments o)
  unfold Occurrence.marks Occurrence.payments
  rw [List.count_append, List.count_append, hcharges]
  cases o.attendedRequest <;> cases o.blindProbe <;> rfl

theorem count_spent_marks (o : Occurrence) : o.marks.count .spent = o.blindProbe.toNat := by
  unfold Occurrence.marks
  rw [List.count_append, List.count_eq_zero.mpr (spent_not_mem_payments o)]
  cases o.blindProbe <;> rfl

/-- The marks of a log count its blind probes and its payments. -/
theorem count_marks (log : List Occurrence) :
    (log.flatMap Occurrence.marks).count .spent = log.countP Occurrence.blindProbe ∧
    (log.flatMap Occurrence.marks).count .paid
      = charges log + log.countP Occurrence.attendedRequest := by
  induction log with
  | nil => exact ⟨rfl, rfl⟩
  | cons o log ih =>
    have hcons : ∀ p : Occurrence → Bool, (o :: log).countP p = (p o).toNat + log.countP p := by
      intro p
      rw [List.countP_cons]
      cases p o <;> simp [Nat.add_comm]
    simp only [List.flatMap_cons, List.count_append, count_paid_marks, count_spent_marks, ih.1,
      ih.2, hcons, charges, List.map_cons, List.sum_cons]
    exact ⟨trivial, by omega⟩

/-- Over any run, blind probes of the committed address are at most the granted charges and
the refreshes requested while it was in use. Each probe has a payment of its own, which comes
before it: for a charge, its state was in the file and synced by then. -/
theorem blind_probes_paid {spec : EndpointSpec} {opts : EndpointOptions}
    (hrun : Reached spec opts log c) :
    log.countP Occurrence.blindProbe ≤ charges log + log.countP Occurrence.attendedRequest ∧
    ∃ pays : Nat → Nat,
      (∀ i, (log.flatMap Occurrence.marks)[i]? = some .spent →
        pays i < i ∧ (log.flatMap Occurrence.marks)[pays i]? = some .paid) ∧
      ∀ i j, (log.flatMap Occurrence.marks)[i]? = some .spent →
        (log.flatMap Occurrence.marks)[j]? = some .spent → pays i = pays j → i = j := by
  obtain ⟨b, hb, -⟩ := hrun.settles
  obtain ⟨hspent, hpaid⟩ := count_marks log
  refine ⟨?_, exists_payments hb⟩
  have hcount := count_of_settle hb
  omega

/-- An attended cutover that fails: the return to `9.9.9.9` is blind and the request pays. -/
theorem blind_probes_paid_failed_cutover :
    ∃ log c, Reached (.hostname [120] 443) cachedOpts log c ∧
      log.countP Occurrence.blindProbe = 1 ∧ charges log = 0 ∧
      log.countP Occurrence.blindProbe
        ≤ charges log + log.countP Occurrence.attendedRequest := by
  obtain ⟨log, c, hrun, h⟩ := exists_reached_of_replay (.hostname [120] 443) cachedOpts
    firstBoot [.onAuthenticated 1000 .written, .requestRefresh, .onSessionEnded,
      .onCycle 2000 1002 .forced (answering 2000 (some #v[8, 8, 8, 8])),
      .onCycle 7400 1007 .attemptFailed (answering 7400 none)]
    (fun log _ => log.countP Occurrence.blindProbe = 1 ∧ charges log = 0) (by decide +kernel)
  obtain ⟨hblind, hcharges⟩ := of_decide_eq_true h
  exact ⟨log, c, hrun, hblind, hcharges, (blind_probes_paid hrun).1⟩

end Controller

end Udp2raw
