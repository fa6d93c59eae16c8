import Udp2raw.Endpoint.Steps

/-!
# The order of the candidates

`order_candidates` puts the current address first, then the committed one, then
the others by number. What it makes of a list depends on the two addresses and
the set of listed ones, and it never lists an address twice or one that was not
listed.
-/

namespace Udp2raw

namespace Controller

variable {c c' : Controller}

/-- A canonical set of some addresses is not empty. -/
theorem take_sortDedup_ne_nil {ips : List Ipv4Addr} (h : ips ≠ []) :
    (sortDedup ips).take maxEndpointCandidates ≠ [] := by
  intro hnil
  obtain hzero | hempty := List.take_eq_nil_iff.mp hnil
  · exact absurd hzero (by decide)
  · obtain ⟨ip, hip⟩ := List.exists_mem_of_ne_nil _ h
    have hmem := mem_sortDedup.mpr hip
    rw [hempty] at hmem
    cases hmem

/-- The addresses `query` keeps are the permitted ones of the answer. -/
theorem mem_usable {addrs : List Ipv4Addr} {ip : Ipv4Addr} :
    ip ∈ c.usable addrs ↔ ip ∈ addrs ∧ endpointIpOk ip c.opts.allowPrivate = true := by
  have hfold : ∀ safe : List Ipv4Addr, ip ∈ addrs.foldl (fun safe ip =>
        if endpointIpOk ip c.opts.allowPrivate ∧ ip ∉ safe then safe ++ [ip] else safe) safe ↔
      ip ∈ safe ∨ ip ∈ addrs ∧ endpointIpOk ip c.opts.allowPrivate = true := by
    induction addrs with
    | nil => simp
    | cons a addrs ih =>
      intro safe
      rw [List.foldl_cons, ih, List.mem_cons]
      split_ifs with ha
      · rw [List.mem_append, List.mem_singleton]
        grind
      · grind
  rw [usable, hfold]
  simp

/-- The ordered list of the candidates, before it is cut off. -/
def ordered (c : Controller) : List Ipv4Addr :=
  (c.currentV4.filter (· ∈ c.candidates)).toList ++
    (c.committedGood.filter fun good => good ∈ c.candidates ∧ some good ≠ c.currentV4).toList ++
    sortDedup (c.candidates.filter fun ip => some ip ≠ c.currentV4 ∧ some ip ≠ c.committedGood)

theorem candidates_orderCandidates (c : Controller) :
    c.orderCandidates.candidates = c.ordered.take maxEndpointCandidates := rfl

/-- Only the two addresses and the listed ones count. -/
theorem orderCandidates_congr (hcur : c'.currentV4 = c.currentV4)
    (hgood : c'.committedGood = c.committedGood) (hcandidates : c'.candidates = c.candidates) :
    c'.orderCandidates.candidates = c.orderCandidates.candidates := by
  simp only [candidates_orderCandidates, ordered, hcur, hgood, hcandidates]

/-- Ordering keeps the candidates. -/
theorem mem_ordered {ip : Ipv4Addr} : ip ∈ c.ordered ↔ ip ∈ c.candidates := by
  simp only [ordered, List.mem_append, Option.mem_toList, Option.filter_eq_some_iff,
    mem_sortDedup, List.mem_filter, decide_eq_true_eq]
  constructor
  · rintro ((⟨-, h⟩ | ⟨-, h, -⟩) | ⟨h, -⟩)
    · exact h
    · exact h
    · exact h
  · intro h
    by_cases hcur : some ip = c.currentV4
    · exact .inl (.inl ⟨hcur.symm, h⟩)
    by_cases hgood : some ip = c.committedGood
    · exact .inl (.inr ⟨hgood.symm, h, hcur⟩)
    exact .inr ⟨h, hcur, hgood⟩

theorem mem_of_mem_orderCandidates {ip : Ipv4Addr} (h : ip ∈ c.orderCandidates.candidates) :
    ip ∈ c.candidates := mem_ordered.mp (List.mem_of_mem_take h)

/-- The current address, if listed, comes first. -/
theorem head_orderCandidates {cur : Ipv4Addr} (hcur : c.currentV4 = some cur)
    (hmem : cur ∈ c.candidates) : c.orderCandidates.candidates.head? = some cur := by
  simp only [orderCandidates, hcur, Option.filter_some, hmem, decide_true, if_true,
    Option.toList_some, List.cons_append]
  rfl

theorem orderCandidates_ne_nil (h : c.candidates ≠ []) : c.orderCandidates.candidates ≠ [] := by
  obtain ⟨ip, hip⟩ := List.exists_mem_of_ne_nil _ h
  intro hnil
  obtain hzero | hzero := List.take_eq_nil_iff.mp hnil
  · cases hzero
  · have hordered : c.ordered = [] := hzero
    have hmem := mem_ordered.mpr hip
    rw [hordered] at hmem
    cases hmem

/-- Another address comes first if and only if the current one is not listed. -/
theorem head_orderCandidates_ne_iff {cur : Ipv4Addr} (hcur : c.currentV4 = some cur)
    (hne : c.candidates ≠ []) :
    (∃ target rest, c.orderCandidates.candidates = target :: rest ∧ target ≠ cur) ↔
      cur ∉ c.candidates := by
  constructor
  · rintro ⟨target, rest, hcandidates, htarget⟩ hmem
    have hhead := head_orderCandidates hcur hmem
    rw [hcandidates] at hhead
    exact htarget (Option.some.inj hhead)
  · intro hmem
    obtain ⟨target, rest, hcandidates⟩ :=
      List.exists_cons_of_ne_nil (orderCandidates_ne_nil hne)
    refine ⟨target, rest, hcandidates, ?_⟩
    rintro rfl
    refine hmem (mem_of_mem_orderCandidates ?_)
    rw [hcandidates]
    exact List.mem_cons_self

/-- Ordering lists no candidate twice. -/
theorem nodup_ordered (c : Controller) : c.ordered.Nodup := by
  have hrest : ∀ ip ∈ sortDedup (c.candidates.filter fun ip =>
      some ip ≠ c.currentV4 ∧ some ip ≠ c.committedGood),
      some ip ≠ c.currentV4 ∧ some ip ≠ c.committedGood := by
    intro ip hip
    exact of_decide_eq_true (List.mem_filter.mp (mem_sortDedup.mp hip)).2
  have hsingle : ∀ o : Option Ipv4Addr, o.toList.Nodup := by
    intro o
    cases o with
    | none => exact .nil
    | some ip => exact List.nodup_singleton ip
  refine List.nodup_append.mpr ⟨List.nodup_append.mpr ⟨hsingle _, hsingle _, ?_⟩, ?_, ?_⟩
  · rintro a ha b hb rfl
    rw [Option.mem_toList, Option.filter_eq_some_iff] at ha hb
    exact (of_decide_eq_true hb.2).2 ha.1.symm
  · exact (pairwise_sortDedup _).imp fun h heq => absurd (congrArg Ipv4Addr.toU32 heq) h.ne
  · rintro a ha b hb rfl
    obtain ⟨hcur, hgood⟩ := hrest a hb
    rw [List.mem_append, Option.mem_toList, Option.mem_toList, Option.filter_eq_some_iff,
      Option.filter_eq_some_iff] at ha
    obtain ⟨h, -⟩ | ⟨h, -⟩ := ha
    · exact hcur h.symm
    · exact hgood h.symm

theorem nodup_orderCandidates (c : Controller) : c.orderCandidates.candidates.Nodup :=
  (nodup_ordered c).sublist (List.take_sublist _ _)

theorem length_orderCandidates (c : Controller) :
    c.orderCandidates.candidates.length ≤ maxEndpointCandidates := List.length_take_le _ _

/-- The candidates that are neither current nor committed. -/
def others (c : Controller) : List Ipv4Addr :=
  c.candidates.filter fun ip => some ip ≠ c.currentV4 ∧ some ip ≠ c.committedGood

/-- The candidates stand in order: the current address if it is listed, the committed one if it is
listed and another, then the rest in increasing numeric order. -/
def InOrder (c : Controller) : Prop :=
  c.candidates =
    (c.currentV4.filter (· ∈ c.candidates)).toList ++
      (c.committedGood.filter fun good => good ∈ c.candidates ∧ some good ≠ c.currentV4).toList ++
      c.others ∧
  c.others.Pairwise fun a b => a.toU32 < b.toU32

theorem InOrder.congr (h : c.InOrder) (hcur : c'.currentV4 = c.currentV4)
    (hgood : c'.committedGood = c.committedGood) (hcandidates : c'.candidates = c.candidates) :
    c'.InOrder := by
  unfold InOrder others
  rw [hcur, hgood, hcandidates]
  exact h

/-- The cut never drops the current or the committed address. -/
theorem take_ordered (c : Controller) : ∃ n,
    c.ordered.take maxEndpointCandidates =
      (c.currentV4.filter (· ∈ c.candidates)).toList ++
        (c.committedGood.filter fun good =>
          good ∈ c.candidates ∧ some good ≠ c.currentV4).toList ++
        (sortDedup (c.candidates.filter fun ip =>
          some ip ≠ c.currentV4 ∧ some ip ≠ c.committedGood)).take n := by
  have hlen : ∀ a b : Option Ipv4Addr, (a.toList ++ b.toList).length ≤ maxEndpointCandidates := by
    intro a b
    cases a <;> cases b <;> simp [maxEndpointCandidates]
  rw [ordered, List.take_append, List.take_of_length_le (hlen _ _)]
  exact ⟨_, rfl⟩

theorem filter_option_congr {o : Option Ipv4Addr} {p q : Ipv4Addr → Bool}
    (h : ∀ ip, o = some ip → p ip = q ip) : o.filter p = o.filter q := by
  cases o with
  | none => rfl
  | some ip => rw [Option.filter_some, Option.filter_some, h ip rfl]

/-- `order_candidates` puts the candidates in order. -/
theorem inOrder_orderCandidates (c : Controller) : c.orderCandidates.InOrder := by
  obtain ⟨n, htake⟩ := take_ordered c
  have hcandidates := (candidates_orderCandidates c).trans htake
  have hcur : c.orderCandidates.currentV4 = c.currentV4 := rfl
  have hgood : c.orderCandidates.committedGood = c.committedGood := rfl
  -- the cut list has the same first two addresses
  have hfirst : c.currentV4.filter (· ∈ c.orderCandidates.candidates) =
      c.currentV4.filter (· ∈ c.candidates) := by
    refine filter_option_congr fun ip hip => ?_
    rw [decide_eq_decide]
    refine ⟨mem_of_mem_orderCandidates, fun h => ?_⟩
    exact List.mem_of_mem_head? (head_orderCandidates hip h)
  have hsecond : (c.committedGood.filter fun good =>
        good ∈ c.orderCandidates.candidates ∧ some good ≠ c.currentV4) =
      c.committedGood.filter fun good => good ∈ c.candidates ∧ some good ≠ c.currentV4 := by
    refine filter_option_congr fun ip hip => ?_
    rw [decide_eq_decide]
    refine ⟨fun h => ⟨mem_of_mem_orderCandidates h.1, h.2⟩, fun h => ⟨?_, h.2⟩⟩
    rw [hcandidates, List.mem_append, List.mem_append]
    refine .inl (.inr ?_)
    rw [Option.mem_toList, Option.filter_eq_some_iff]
    exact ⟨hip, decide_eq_true h⟩
  have hothers : c.orderCandidates.others = (sortDedup (c.candidates.filter fun ip =>
      some ip ≠ c.currentV4 ∧ some ip ≠ c.committedGood)).take n := by
    rw [others, hcur, hgood, hcandidates, List.filter_append, List.filter_append]
    have h1 : (c.currentV4.filter (· ∈ c.candidates)).toList.filter
        (fun ip => some ip ≠ c.currentV4 ∧ some ip ≠ c.committedGood) = [] := by
      refine List.filter_eq_nil_iff.mpr fun ip hip => ?_
      rw [Option.mem_toList, Option.filter_eq_some_iff] at hip
      simp [hip.1]
    have h2 : (c.committedGood.filter fun good =>
          good ∈ c.candidates ∧ some good ≠ c.currentV4).toList.filter
        (fun ip => some ip ≠ c.currentV4 ∧ some ip ≠ c.committedGood) = [] := by
      refine List.filter_eq_nil_iff.mpr fun ip hip => ?_
      rw [Option.mem_toList, Option.filter_eq_some_iff] at hip
      simp [hip.1]
    rw [h1, h2, List.nil_append, List.nil_append]
    refine List.filter_eq_self.mpr fun ip hip => ?_
    exact (List.mem_filter.mp (mem_sortDedup.mp (List.mem_of_mem_take hip))).2
  refine ⟨?_, ?_⟩
  · rw [hcur, hgood, hfirst, hsecond, hothers]
    exact hcandidates
  · rw [hothers]
    exact (pairwise_sortDedup _).sublist (List.take_sublist _ _)

/-! ## What a decision leaves alone -/

/-- Ordering the candidates loses not all of them. -/
theorem background_orderCandidates (c : Controller) :
    c.orderCandidates.background = c.background := by
  have hempty : c.orderCandidates.candidates.isEmpty = c.candidates.isEmpty := by
    cases hcandidates : c.candidates with
    | nil => simp [candidates_orderCandidates, ordered, hcandidates, sortDedup]
    | cons ip ips =>
      have hne : c.orderCandidates.candidates ≠ [] :=
        orderCandidates_ne_nil (by rw [hcandidates]; exact List.cons_ne_nil ip ips)
      rw [List.isEmpty_eq_false_iff.mpr hne]
      rfl
  unfold background querySchedule
  rw [hempty]
  rfl

/-- A switch leaves the background work alone. -/
theorem background_switchTo (c : Controller) (target : Ipv4Addr) (why : SwitchWhy) :
    (c.switchTo target why).2.background = c.background := by
  unfold switchTo
  split
  · rfl
  · split_ifs
    · rfl
    · exact background_orderCandidates _

/-- A decision does not touch what proves the committed address, nor what decides when DNS is
asked next. -/
theorem Decided.background {wallNow : Nat} {ios : List ChargeIo} {switch : Option Switch}
    {events : List EndpointEvent} (h : Decided c wallNow ios switch c' events) :
    c'.background = c.background := by
  cases h with
  | stays h => exact h.background
  | switches h => exact (background_switchTo ..).trans h.background

end Controller

end Udp2raw
