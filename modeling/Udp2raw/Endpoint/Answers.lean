import Udp2raw.Endpoint.Candidates
import Udp2raw.Endpoint.Runs

/-!
# What a DNS answer can bring about

A reply is filtered, sorted and cut off by the resolver, and once more by the
controller. So only the set of its addresses counts, never the order of its
records. An endpoint that DNS still lists is kept on a reconnect, provided the
cut does not drop it: only the eight lowest permitted addresses survive.
-/

namespace Udp2raw

/-- `canonicalize_answer`; `NoUsableAddresses` is none. -/
def canonicalizeAnswer (answer : DnsAnswer) (allowPrivate : Bool) : Option DnsAnswer :=
  let addrs := sortDedup (answer.addrs.filter (endpointIpOk · allowPrivate))
  if addrs = [] then none else some { answer with addrs := addrs.take maxEndpointCandidates }

/-- The two answers have the same addresses, in any order and number, and the same TTL. -/
inductive SameRecords : Option DnsAnswer → Option DnsAnswer → Prop where
  | failed : SameRecords none none
  | answered {a b : DnsAnswer} (haddrs : ∀ ip, ip ∈ a.addrs ↔ ip ∈ b.addrs) (httl : a.ttl = b.ttl) :
      SameRecords (some a) (some b)

/-- The resolver hides the order of the records. -/
theorem canonicalizeAnswer_congr {a b : DnsAnswer} (allowPrivate : Bool)
    (haddrs : ∀ ip, ip ∈ a.addrs ↔ ip ∈ b.addrs) (httl : a.ttl = b.ttl) :
    canonicalizeAnswer a allowPrivate = canonicalizeAnswer b allowPrivate := by
  have hsorted : sortDedup (a.addrs.filter (endpointIpOk · allowPrivate)) =
      sortDedup (b.addrs.filter (endpointIpOk · allowPrivate)) := by
    refine Canonical.sorted_congr toU32_injective fun ip => ?_
    rw [List.mem_filter, List.mem_filter, haddrs]
  rw [canonicalizeAnswer, canonicalizeAnswer, hsorted, httl]

namespace Controller

variable {c c' : Controller} {nowMs wallNow : Nat} {reason : CycleReason}

/-! ## The order of the records -/

/-- The controller hides it, too. -/
theorem query_congr {a b : Option DnsAnswer} (h : SameRecords a b) (c : Controller) (nowMs : Nat)
    (random : UInt32) : c.query nowMs a random = c.query nowMs b random := by
  cases h with
  | failed => rfl
  | @answered a b haddrs httl =>
    have husable : ∀ ip, ip ∈ c.usable a.addrs ↔ ip ∈ c.usable b.addrs := by
      intro ip
      rw [mem_usable, mem_usable, haddrs]
    have hnil : c.usable a.addrs = [] ↔ c.usable b.addrs = [] := by
      rw [List.eq_nil_iff_forall_not_mem, List.eq_nil_iff_forall_not_mem]
      exact forall_congr' fun ip => not_congr (husable ip)
    have hsorted : sortDedup (c.usable a.addrs) = sortDedup (c.usable b.addrs) :=
      Canonical.sorted_congr toU32_injective husable
    have haccept : c.acceptAnswer nowMs a.ttl (c.usable a.addrs) =
        c.acceptAnswer nowMs b.ttl (c.usable b.addrs) := by
      rw [acceptAnswer, acceptAnswer, hsorted, httl]
    simp only [query, hnil, haccept]

/-- Two cycles that meet the same, up to the records of their answers. -/
def CycleIo.Alike (io io' : CycleIo) : Prop :=
  SameRecords io.answer io'.answer ∧ io' = { io with answer := io'.answer }

variable {io : CycleIo} {allowPrivate : Bool} {reply : DnsAnswer} {cur : Ipv4Addr}

/-- The cycle is the same. -/
theorem onCycle_congr {io' : CycleIo} (h : io.Alike io') (c : Controller) (nowMs wallNow : Nat)
    (reason : CycleReason) :
    c.onCycle nowMs wallNow reason io = c.onCycle nowMs wallNow reason io' := by
  obtain ⟨hrecords, heq⟩ := h
  rw [heq]
  have hrefresh : ∀ c : Controller,
      c.refresh nowMs reason io = c.refresh nowMs reason { io with answer := io'.answer } := by
    intro c
    simp only [refresh, query_congr hrecords]
  simp only [onCycle, hrefresh]
  rfl

/-- Two calls that meet the same, up to the records of an answer. -/
inductive Request.Alike : Request → Request → Prop where
  | same (r : Request) : Alike r r
  | cycle {nowMs wallNow : Nat} {reason : CycleReason} {io io' : CycleIo} (h : io.Alike io') :
      Alike (.onCycle nowMs wallNow reason io) (.onCycle nowMs wallNow reason io')

theorem handle_congr {r r' : Request} (h : r.Alike r') (c : Controller) :
    c.handle r = c.handle r' := by
  cases h with
  | same => rfl
  | cycle h => simp only [handle, onCycle_congr h]

/-- What is seen of a call: the states around it, its reply and its events. -/
def Occurrence.seen (o : Occurrence) : Controller × Reply × List EndpointEvent × Controller :=
  (o.before, o.reply, o.events, o.after)

/-- Runs that differ only in the records are the same. -/
theorem run_congr {rs rs' : List Request} (h : List.Forall₂ Request.Alike rs rs') (c : Controller) :
    (c.logOf rs).map Occurrence.seen = (c.logOf rs').map Occurrence.seen ∧
      c.afterCalls rs = c.afterCalls rs' := by
  induction h generalizing c with
  | nil => exact ⟨rfl, rfl⟩
  | @cons r r' rs rs' hr _ ih =>
    obtain ⟨hlog, hafter⟩ := ih (c.handle r).2.1
    have hhandle := handle_congr hr c
    refine ⟨?_, ?_⟩
    · rw [logOf, logOf, List.map_cons, List.map_cons, hlog, hhandle]
      simp only [Occurrence.seen, occurrence, hhandle]
    · change ((c.handle r).2.1).afterCalls rs = ((c.handle r').2.1).afterCalls rs'
      rw [hafter, hhandle]

/-- Two starts that meet the same, up to the records of their answers. -/
def BootIo.Alike (io io' : BootIo) : Prop :=
  SameRecords io.answer io'.answer ∧ io' = { io with answer := io'.answer }

/-- A start does not tell apart what it does not read. -/
theorem bootstrap_congr {io io' : BootIo} (h : io.Alike io') (spec : EndpointSpec)
    (opts : EndpointOptions) : bootstrap spec opts io = bootstrap spec opts io' := by
  obtain ⟨hrecords, heq⟩ := h
  have hlimits : ∀ c : Controller,
      c.loadLimits { io with answer := io'.answer } = c.loadLimits io := fun _ => rfl
  have hhost : bootstrapHost spec opts io = bootstrapHost spec opts io' := by
    rw [heq, bootstrapHost, bootstrapHost]
    simp only [query_congr hrecords, hlimits]
    rfl
  cases spec with
  | literal addr port =>
    rw [heq]
    rfl
  | hostname name port => simp only [bootstrap, hhost]

/-- The order and number of the records of DNS answers have no influence: not on a cycle from any
state, not on a start, and so not on whole runs; nor does the resolver let them through. -/
theorem record_order_irrelevant :
    (∀ (c : Controller) (nowMs wallNow : Nat) (reason : CycleReason) (io io' : CycleIo),
      io.Alike io' →
      (c.onCycle nowMs wallNow reason io).1 = (c.onCycle nowMs wallNow reason io').1 ∧
      (c.onCycle nowMs wallNow reason io).2.1 = (c.onCycle nowMs wallNow reason io').2.1) ∧
    (∀ (spec : EndpointSpec) (opts : EndpointOptions) (boot boot' : BootIo)
      (rs rs' : List Request), boot.Alike boot' → List.Forall₂ Request.Alike rs rs' →
      bootstrap spec opts boot = bootstrap spec opts boot' ∧
      ∀ c, bootstrap spec opts boot = .ok c →
        (c.logOf rs).map Occurrence.seen = (c.logOf rs').map Occurrence.seen ∧
        c.afterCalls rs = c.afterCalls rs') ∧
    ∀ (a b : DnsAnswer) (allowPrivate : Bool), SameRecords (some a) (some b) →
      canonicalizeAnswer a allowPrivate = canonicalizeAnswer b allowPrivate := by
  refine ⟨fun c nowMs wallNow reason io io' h => ?_, fun spec opts boot boot' rs rs' hb hr => ?_,
    fun a b allowPrivate h => ?_⟩
  · rw [onCycle_congr h]
    exact ⟨rfl, rfl⟩
  · exact ⟨bootstrap_congr hb spec opts, fun c _ => run_congr hr c⟩
  · cases h with
    | answered haddrs httl => exact canonicalizeAnswer_congr allowPrivate haddrs httl

/-- A start and a reconnect whose answers list the same two addresses in the other order, one of
them twice. -/
theorem record_order_irrelevant_permuted :
    let one : DnsAnswer := ⟨[#v[9, 9, 9, 9], #v[8, 8, 8, 8]], 60⟩
    let other : DnsAnswer := ⟨[#v[8, 8, 8, 8], #v[9, 9, 9, 9], #v[8, 8, 8, 8]], 60⟩
    let calls := fun answer => [Request.onCycle 2000 1002 .forced
      { answering 2000 none with answer := some answer }]
    ∃ c, bootstrap (.hostname [120] 443) cachedOpts { firstBoot with answer := one } = .ok c ∧
      bootstrap (.hostname [120] 443) cachedOpts { firstBoot with answer := other } = .ok c ∧
      c.afterCalls (calls one) = c.afterCalls (calls other) := by
  intro one other calls
  have hsame : SameRecords (some one) (some other) :=
    .answered (fun ip => by simp only [one, other, List.mem_cons]; tauto) rfl
  obtain ⟨hboot, hruns⟩ := record_order_irrelevant.2.1 (.hostname [120] 443) cachedOpts
    { firstBoot with answer := one } { firstBoot with answer := other } (calls one) (calls other)
    ⟨hsame, rfl⟩ (.cons (.cycle ⟨hsame, rfl⟩) .nil)
  have hok : (bootstrap (.hostname [120] 443) cachedOpts
    { firstBoot with answer := one }).toOption.isSome = true := by decide +kernel
  cases hc : bootstrap (.hostname [120] 443) cachedOpts { firstBoot with answer := one } with
  | error e =>
    rw [hc] at hok
    cases hok
  | ok c => exact ⟨c, rfl, hboot.symm.trans hc, (hruns c hc).2⟩

/-! ## A listed endpoint -/

/-- The permitted addresses of a reply that are lower than `cur`. -/
def lower (reply : DnsAnswer) (allowPrivate : Bool) (cur : Ipv4Addr) : List Ipv4Addr :=
  (reply.addrs.filter fun ip => endpointIpOk ip allowPrivate ∧ ip.toU32 < cur.toU32).dedup

/-- The addresses of a reply that survive the resolver and the controller. -/
def lowest (reply : DnsAnswer) (allowPrivate : Bool) : List Ipv4Addr :=
  (sortDedup (reply.addrs.filter (endpointIpOk · allowPrivate))).take maxEndpointCandidates

/-- A listed address survives if fewer than eight are lower. -/
theorem mem_lowest_iff (hlisted : cur ∈ reply.addrs) (hok : endpointIpOk cur allowPrivate = true) :
    cur ∈ lowest reply allowPrivate ↔ (lower reply allowPrivate cur).length < 8 := by
  have hmem : cur ∈ reply.addrs.filter (endpointIpOk · allowPrivate) :=
    List.mem_filter.mpr ⟨hlisted, hok⟩
  rw [lowest, sortDedup_eq, Canonical.mem_take_sorted toU32_injective hmem, List.filter_filter,
    lower]
  simp only [Bool.decide_and, Bool.decide_eq_true, Bool.and_comm]
  rfl

/-- Something survives of a reply with a permitted address. -/
theorem lowest_ne_nil (hlisted : cur ∈ reply.addrs) (hok : endpointIpOk cur allowPrivate = true) :
    lowest reply allowPrivate ≠ [] := by
  intro hnil
  have hmem : cur ∈ sortDedup (reply.addrs.filter (endpointIpOk · allowPrivate)) :=
    mem_sortDedup.mpr (List.mem_filter.mpr ⟨hlisted, hok⟩)
  obtain hzero | hempty := List.take_eq_nil_iff.mp hnil
  · cases hzero
  · rw [hempty] at hmem
    cases hmem

/-- A reply with a permitted address reaches the controller as its lowest addresses. -/
theorem canonicalizeAnswer_eq (hlisted : cur ∈ reply.addrs)
    (hok : endpointIpOk cur allowPrivate = true) :
    canonicalizeAnswer reply allowPrivate = some { reply with
      addrs := lowest reply allowPrivate } := by
  have hne : sortDedup (reply.addrs.filter (endpointIpOk · allowPrivate)) ≠ [] := by
    intro hnil
    refine lowest_ne_nil hlisted hok ?_
    rw [lowest, hnil]
    rfl
  rw [canonicalizeAnswer, if_neg hne]
  rfl

/-- The controller keeps all addresses the resolver lets through. -/
theorem sortDedup_usable_lowest (c : Controller) (reply : DnsAnswer) :
    (sortDedup (c.usable (lowest reply c.opts.allowPrivate))).take maxEndpointCandidates =
      lowest reply c.opts.allowPrivate := by
  have hmem : ∀ ip, ip ∈ lowest reply c.opts.allowPrivate ↔
      ip ∈ c.usable (lowest reply c.opts.allowPrivate) := by
    intro ip
    rw [mem_usable]
    refine ⟨fun h => ⟨h, ?_⟩, And.left⟩
    exact (List.mem_filter.mp (mem_sortDedup.mp (List.mem_of_mem_take h))).2
  have hsorted : lowest reply c.opts.allowPrivate =
      sortDedup (c.usable (lowest reply c.opts.allowPrivate)) :=
    Canonical.eq_sorted toU32_injective
      ((pairwise_sortDedup _).sublist (List.take_sublist _ _)) hmem
  rw [← hsorted]
  exact List.take_of_length_le (List.length_take_le _ _)

/-- After a query that the reply answered, exactly its lowest addresses are candidates, in
order. -/
theorem query_reply {reply : DnsAnswer} {cur : Ipv4Addr} (hdyn : c.isDynamic = true)
    (hlisted : cur ∈ reply.addrs) (hok : endpointIpOk cur c.opts.allowPrivate = true) (nowMs : Nat)
    (random : UInt32) :
    let q := c.query nowMs (canonicalizeAnswer reply c.opts.allowPrivate) random
    q.1 = true ∧ Continues c q.2 ∧
      q.2.candidates = { c with
        candidates := lowest reply c.opts.allowPrivate }.orderCandidates.candidates := by
  intro q
  have hcont : Continues c q.2 := continues_query ..
  have hnonempty : c.usable (lowest reply c.opts.allowPrivate) ≠ [] := by
    intro hnil
    have hsort := sortDedup_usable_lowest c reply
    rw [hnil] at hsort
    exact lowest_ne_nil hlisted hok hsort.symm
  have hq : q = (true, c.acceptAnswer nowMs reply.ttl
      (c.usable (lowest reply c.opts.allowPrivate))) := by
    change c.query nowMs (canonicalizeAnswer reply c.opts.allowPrivate) random = _
    rw [canonicalizeAnswer_eq hlisted hok, query, if_neg (name_ne_none hdyn)]
    dsimp only
    rw [if_neg hnonempty]
  refine ⟨by rw [hq], hcont, ?_⟩
  rw [hq]
  refine orderCandidates_congr rfl rfl ?_
  exact sortDedup_usable_lowest c reply

/-- There is no probation of the endpoint. -/
def NoProbationOf (c : Controller) (cur : Ipv4Addr) : Prop :=
  ∀ p, c.probation = some p → p.candidate ≠ cur

theorem NoProbationOf.continues (hp : c.NoProbationOf cur) (h : Continues c c') :
    c'.NoProbationOf cur := by
  intro p hprob
  obtain hsame | hnone := h.probation
  · exact hp p (hsame ▸ hprob)
  · rw [hnone] at hprob
    cases hprob

/-- Without a probation of the address no return is due. -/
theorem NoProbationOf.returnDue (hp : c.NoProbationOf cur) (nowMs wallNow : Nat) (io : ChargeIo) :
    c.returnDue nowMs wallNow cur io = (none, c, []) := by
  unfold Controller.returnDue
  split
  · rfl
  next p hprob => rw [if_neg fun h => hp p hprob h.1]

/-- A decision with the current address first among the candidates stays. -/
theorem select_stays (hcur : c.currentV4 = some cur) (hp : c.NoProbationOf cur)
    (hhead : c.candidates.head? = some cur) (hreason : reason = .forced ∨ reason = .sessionLost)
    (nowMs wallNow : Nat) (io : CycleIo) :
    (c.select nowMs wallNow reason (some true) io).1 = none := by
  obtain ⟨rest, hcandidates⟩ := List.head?_eq_some_iff.mp hhead
  obtain rfl | rfl := hreason
  · simp only [select, hcur, selectForced, hcandidates]
    split_ifs <;> rfl
  · have hlisted : cur ∈ c.candidates := by
      rw [hcandidates]
      exact List.mem_cons_self
    simp only [select, hcur, selectSessionLost, hp.returnDue, leaveUnlisted]
    rw [if_neg fun h => h.2 hlisted]

/-- A cycle that made a query decides with its answer. -/
theorem onCycle_of_queried (hqueried : .queried ∈ (c.onCycle nowMs wallNow reason io).2.2) :
    c.isDynamic = true ∧
    (c.onCycle nowMs wallNow reason io).1 =
      (((c.asking nowMs reason).query nowMs io.answer io.random).2.select io.laterMs io.laterWall
        reason (some ((c.asking nowMs reason).query nowMs io.answer io.random).1) io).1 := by
  cases hd : c.isDynamic with
  | false =>
    rw [onCycle, if_pos hd] at hqueried
    cases hqueried
  | true =>
    rw [onCycle_eq hd] at hqueried ⊢
    obtain ⟨hdue, -, h⟩ | ⟨-, c₁, -, h⟩ := asked_cases c nowMs reason io
    · rw [h, decidedAt, if_pos hdue]
      exact ⟨rfl, rfl⟩
    · rw [h] at hqueried
      exact absurd hqueried (not_queried_select _ _ _ _ _ _)

/-- A cycle whose reply lists the current address among the lowest stays. -/
theorem onCycle_stays (hcur : c.currentV4 = some cur) (hp : c.NoProbationOf cur)
    (hreason : reason = .forced ∨ reason = .sessionLost) (hlisted : cur ∈ reply.addrs)
    (hok : endpointIpOk cur c.opts.allowPrivate = true)
    (hanswer : io.answer = canonicalizeAnswer reply c.opts.allowPrivate)
    (hqueried : .queried ∈ (c.onCycle nowMs wallNow reason io).2.2)
    (hlowest : cur ∈ lowest reply c.opts.allowPrivate) :
    (c.onCycle nowMs wallNow reason io).1 = none := by
  obtain ⟨hdyn, honCycle⟩ := onCycle_of_queried hqueried
  have hcont := continues_asking c nowMs reason
  have hopts : (c.asking nowMs reason).opts = c.opts := hcont.opts
  have hdyn' : (c.asking nowMs reason).isDynamic = true := by
    rw [isDynamic, hcont.spec]
    exact hdyn
  obtain ⟨htrue, hquery, hcandidates⟩ := query_reply hdyn' hlisted (hopts ▸ hok) nowMs io.random
  rw [honCycle, hanswer, ← hopts, htrue]
  have hafter := hcont.trans hquery
  refine select_stays (hafter.currentV4.trans hcur) (hp.continues hafter) ?_ hreason _ _ io
  rw [hcandidates]
  exact head_orderCandidates (hcont.currentV4.trans hcur) (hopts ▸ hlowest)

/-- A controller without limits, at an address and with nothing else. -/
def plainAt (allowPrivate : Bool) (cur : Ipv4Addr) : Controller :=
  { blank (.hostname [120] 443) { allowPrivate } 0 with current := (.v4 cur, 443) }

/-- A forced decision with another address first leaves, if no limits apply. -/
theorem selectForced_leaves {target : Ipv4Addr} {rest : List Ipv4Addr}
    (hcur : c.currentV4 = some cur) (hlimits : c.policy.enabled = false)
    (hround : c.preferredRoundDeadlineMs = none) (hcandidates : c.candidates = target :: rest)
    (hne : target ≠ cur) (nowMs : Nat) : (c.selectForced nowMs cur (some true)).1 ≠ none := by
  have hexpired : c.roundExpired nowMs = false := by
    rw [roundExpired, hround]
    rfl
  have hcur' : (c.startPreferredRound nowMs).currentV4 = some cur :=
    (keeps_startPreferredRound c nowMs).currentV4.trans hcur
  rw [selectForced_eq_switchTo hexpired hcandidates hne, switchTo_of_ne hcur' hne]
  · exact Option.some_ne_none _
  · intro henabled
    rw [hlimits] at henabled
    cases henabled

/-- A forced cycle at an address that the cut drops leaves it. -/
theorem forced_leaves {reply : DnsAnswer} {allowPrivate : Bool} {cur : Ipv4Addr}
    (hlisted : cur ∈ reply.addrs) (hok : endpointIpOk cur allowPrivate = true)
    (hdropped : cur ∉ lowest reply allowPrivate) {io : CycleIo}
    (hanswer : io.answer = canonicalizeAnswer reply allowPrivate) :
    .queried ∈ ((plainAt allowPrivate cur).onCycle 0 0 .forced io).2.2 ∧
      ((plainAt allowPrivate cur).onCycle 0 0 .forced io).1 ≠ none := by
  have hrun : (plainAt allowPrivate cur).onCycle 0 0 .forced io =
      (let q := (plainAt allowPrivate cur).query 0 io.answer io.random
       let selected := q.2.select io.laterMs io.laterWall .forced (some q.1) io
       (selected.1, selected.2.1, [.queried] ++ selected.2.2)) := rfl
  obtain ⟨htrue, hcont, hcandidates⟩ := @query_reply (plainAt allowPrivate cur) reply cur rfl
    hlisted hok 0 io.random
  have hround := round_query (plainAt allowPrivate cur) 0 (canonicalizeAnswer reply allowPrivate)
    io.random
  refine ⟨by rw [hrun]; exact List.mem_cons_self, ?_⟩
  rw [hrun, hanswer]
  dsimp only
  change ((plainAt allowPrivate cur).query 0 (canonicalizeAnswer reply allowPrivate)
    io.random).1 = true at htrue
  change Continues (plainAt allowPrivate cur) ((plainAt allowPrivate cur).query 0
    (canonicalizeAnswer reply allowPrivate) io.random).2 at hcont
  change ((plainAt allowPrivate cur).query 0 (canonicalizeAnswer reply allowPrivate)
    io.random).2.candidates = _ at hcandidates
  rw [htrue]
  generalize ((plainAt allowPrivate cur).query 0 (canonicalizeAnswer reply allowPrivate)
    io.random).2 = c at hcont hcandidates hround ⊢
  have hcur : c.currentV4 = some cur := hcont.currentV4
  -- the reply lists something, and the current address is none of what is left
  have hne : c.candidates ≠ [] := by
    rw [hcandidates]
    exact orderCandidates_ne_nil (lowest_ne_nil hlisted hok)
  obtain ⟨target, rest, hcons⟩ := List.exists_cons_of_ne_nil hne
  have htarget : target ≠ cur := by
    rintro rfl
    have hmem : target ∈ c.candidates := by
      rw [hcons]
      exact List.mem_cons_self
    rw [hcandidates] at hmem
    exact hdropped (mem_of_mem_orderCandidates hmem)
  have hlimits : c.policy.enabled = false := by
    rw [policy, hcont.opts]
    rfl
  simp only [select, hcur]
  exact selectForced_leaves hcur hlimits hround hcons htarget io.laterMs

/-- A listed, permitted endpoint without a probation is kept by every forced cycle and every
cycle after a lost session that uses the reply, from any state, exactly if fewer than eight
other permitted addresses of the reply are numerically lower. -/
theorem listed_endpoint_kept_iff (reply : DnsAnswer) (allowPrivate : Bool) (cur : Ipv4Addr)
    (hlisted : cur ∈ reply.addrs) (hok : checkEndpointIp cur allowPrivate = .ok ()) :
    (∀ (c : Controller) (nowMs wallNow : Nat) (reason : CycleReason) (io : CycleIo),
      c.isDynamic = true → c.opts.allowPrivate = allowPrivate → c.currentV4 = some cur →
      c.NoProbationOf cur → (reason = .forced ∨ reason = .sessionLost) →
      io.answer = canonicalizeAnswer reply allowPrivate →
      .queried ∈ (c.onCycle nowMs wallNow reason io).2.2 →
      (c.onCycle nowMs wallNow reason io).1 = none) ↔
    (lower reply allowPrivate cur).length < 8 := by
  have hok : endpointIpOk cur allowPrivate = true := endpointIpOk_iff.mpr hok
  rw [← mem_lowest_iff hlisted hok]
  constructor
  · intro hall
    by_contra hdropped
    obtain ⟨hqueried, hleaves⟩ := @forced_leaves reply allowPrivate cur hlisted hok hdropped
      ⟨canonicalizeAnswer reply allowPrivate, 0, 0, 0, ⟨false, .absent, .refused⟩,
        ⟨false, .absent, .refused⟩⟩ rfl
    refine hleaves (hall (plainAt allowPrivate cur) 0 0 .forced _ rfl rfl rfl ?_ (.inl rfl) rfl
      hqueried)
    intro p hp
    cases hp
  · rintro hlowest c nowMs wallNow reason io - rfl hcur hp hreason hanswer hqueried
    exact onCycle_stays hcur hp hreason hlisted hok hanswer hqueried hlowest

/-- The middle one of three addresses. -/
theorem listed_endpoint_kept_iff_three :
    (lower ⟨[.replicate 4 9, .replicate 4 8, .replicate 4 7], 60⟩ false
      (.replicate 4 8)).length < 8 ∧
    ∀ (c : Controller) (nowMs wallNow : Nat) (reason : CycleReason) (io : CycleIo),
      c.isDynamic = true → c.opts.allowPrivate = false → c.currentV4 = some (.replicate 4 8) →
      c.NoProbationOf (.replicate 4 8) → (reason = .forced ∨ reason = .sessionLost) →
      io.answer = canonicalizeAnswer
        ⟨[.replicate 4 9, .replicate 4 8, .replicate 4 7], 60⟩ false →
      .queried ∈ (c.onCycle nowMs wallNow reason io).2.2 →
      (c.onCycle nowMs wallNow reason io).1 = none := by
  have hlower : (lower ⟨[.replicate 4 9, .replicate 4 8, .replicate 4 7], 60⟩ false
      (.replicate 4 8)).length < 8 := by decide +kernel
  exact ⟨hlower, (listed_endpoint_kept_iff ⟨[.replicate 4 9, .replicate 4 8, .replicate 4 7], 60⟩
    false (.replicate 4 8) (by decide) (by decide)).mpr hlower⟩

/-- Eight addresses lower than `20.20.20.20`, and that. -/
def nineAddresses : DnsAnswer :=
  ⟨(List.range 8).map (fun i => .replicate 4 (UInt8.ofNat (11 + i))) ++ [.replicate 4 20], 60⟩

/-- A cycle that `nineAddresses` answers. -/
def meetingNine : CycleIo :=
  ⟨canonicalizeAnswer nineAddresses false, 0, 2000, 1002, ⟨false, .absent, .refused⟩,
    ⟨false, .absent, .refused⟩⟩

/-- A client at `20.20.20.20`, authenticated and committed. DNS then lists eight lower addresses
beside it: a forced cycle leaves it, and so does one after a lost session. -/
theorem listed_endpoint_left : ∃ log c,
    Reached (.hostname [120] 443) {} log c ∧ c.currentV4 = some (.replicate 4 20) ∧
      c.probation = none ∧
      Vector.replicate 4 20 ∈ nineAddresses.addrs ∧
      checkEndpointIp (.replicate 4 20) false = .ok () ∧
      .queried ∈ (c.requestRefresh.onCycle 2000 1002 .forced meetingNine).2.2 ∧
      (c.requestRefresh.onCycle 2000 1002 .forced meetingNine).1 ≠ none ∧
      .queried ∈ (c.onCycle 2000 1002 .sessionLost meetingNine).2.2 ∧
      (c.onCycle 2000 1002 .sessionLost meetingNine).1 ≠ none := by
  obtain ⟨log, c, hreached, hrun⟩ := exists_reached_of_replay (.hostname [120] 443) {}
    ⟨0, 1000, .absent, true, .absent, some ⟨[.replicate 4 20], 60⟩, 0⟩
    [.onAuthenticated 1000 .written]
    (fun _ c => decide (c.currentV4 = some (.replicate 4 20) ∧ c.probation = none ∧
      .queried ∈ (c.requestRefresh.onCycle 2000 1002 .forced meetingNine).2.2 ∧
      (c.requestRefresh.onCycle 2000 1002 .forced meetingNine).1 ≠ none ∧
      .queried ∈ (c.onCycle 2000 1002 .sessionLost meetingNine).2.2 ∧
      (c.onCycle 2000 1002 .sessionLost meetingNine).1 ≠ none)) (by decide +kernel)
  obtain ⟨hcur, hp, hforced, hleft, hlost, hgone⟩ := of_decide_eq_true hrun
  exact ⟨log, c, hreached, hcur, hp, by decide +kernel, by decide, hforced, hleft, hlost, hgone⟩

end Controller

end Udp2raw
