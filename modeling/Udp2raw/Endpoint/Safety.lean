import Udp2raw.Endpoint.Places

/-!
# Address safety

Addresses enter the controller from DNS, from the cache file and from
`--bootstrap-addr`, each past `check_endpoint_ip`, and are only copied around
afterwards. So every address a host name's controller ever holds is a permitted
one, and its candidates are few, distinct and in order.
-/

namespace Udp2raw

namespace Controller

variable {c c' : Controller} {spec : EndpointSpec} {opts : EndpointOptions} {io : BootIo}
  {log : List Occurrence}

/-- The address is permitted under the controller's options. -/
def Permits (c : Controller) (ip : Ipv4Addr) : Prop := endpointIpOk ip c.opts.allowPrivate = true

/-- Every address the controller holds besides its endpoint is permitted. -/
structure Stored (c : Controller) : Prop where
  committed : ∀ ip, c.committedGood = some ip → c.Permits ip
  candidates : ∀ ip ∈ c.candidates, c.Permits ip
  probation : ∀ p, c.probation = some p → c.Permits p.candidate ∧ c.Permits p.rollback

/-- The endpoint is a permitted IPv4 address. -/
def Placed (c : Controller) : Prop := ∃ ip, c.currentV4 = some ip ∧ c.Permits ip

/-- The candidates are distinct, few and in order. -/
structure Tidy (c : Controller) : Prop where
  nodup : c.candidates.Nodup
  few : c.candidates.length ≤ maxEndpointCandidates
  inOrder : c.InOrder

theorem tidy_orderCandidates (c : Controller) : c.orderCandidates.Tidy :=
  ⟨nodup_orderCandidates c, length_orderCandidates c, inOrder_orderCandidates c⟩

theorem Stored.order (h : c.Stored) : c.orderCandidates.Stored :=
  ⟨h.committed, fun ip hip => h.candidates ip (mem_of_mem_orderCandidates hip), h.probation⟩

/-- An address the controller names is permitted. -/
theorem Stored.of_names (h : c.Stored) {target : Ipv4Addr} (hnames : c.Names target) :
    c.Permits target := by
  obtain hmem | hgood | ⟨p, hp, rfl⟩ := hnames
  · exact h.candidates target hmem
  · exact h.committed target hgood
  · exact (h.probation p hp).2

section

variable (h : SamePlaces c c')

include h

theorem SamePlaces.permits {ip : Ipv4Addr} : c'.Permits ip ↔ c.Permits ip := by
  unfold Permits
  rw [h.opts]

theorem SamePlaces.stored (hs : c.Stored) : c'.Stored where
  committed ip hip := h.permits.mpr (hs.committed ip (h.committed ▸ hip))
  candidates ip hip := h.permits.mpr (hs.candidates ip (h.candidates ▸ hip))
  probation p' hp' := by
    obtain ⟨p, hp, hcand, hroll⟩ := h.probation p' hp'
    obtain ⟨hc, hr⟩ := hs.probation p hp
    rw [hcand, hroll]
    exact ⟨h.permits.mpr hc, h.permits.mpr hr⟩

theorem SamePlaces.placed (hp : c.Placed) : c'.Placed := by
  obtain ⟨ip, hcur, hok⟩ := hp
  exact ⟨ip, h.currentV4.trans hcur, h.permits.mpr hok⟩

theorem SamePlaces.tidy (ht : c.Tidy) : c'.Tidy := by
  obtain ⟨hnodup, hfew, horder⟩ := ht
  refine ⟨?_, ?_, horder.congr h.currentV4 h.committed h.candidates⟩
  · rw [h.candidates]
    exact hnodup
  · rw [h.candidates]
    exact hfew

end

/-- A new list of candidates taken from an answer is permitted. -/
theorem Stored.answered (h : c.Stored) (addrs : List Ipv4Addr) :
    Stored { c with
      candidates := (sortDedup (c.usable addrs)).take maxEndpointCandidates }.orderCandidates := by
  refine Stored.order ⟨h.committed, fun ip hip => ?_, h.probation⟩
  exact (mem_usable.mp (mem_sortDedup.mp (List.mem_of_mem_take hip))).2

/-- A controller whose addresses are all permitted and in order. -/
structure AddressSafe (c : Controller) : Prop where
  stored : c.Stored
  placed : c.Placed
  tidy : c.Tidy

/-- One change of the places keeps them permitted and in order. -/
theorem AddressSafe.relocates (h : Relocates c c') (hs : c.AddressSafe) : c'.AddressSafe := by
  obtain ⟨hstored, ⟨cur, hcur, hok⟩, htidy⟩ := hs
  cases h with
  | same h => exact ⟨h.stored hstored, h.placed ⟨cur, hcur, hok⟩, h.tidy htidy⟩
  | answered addrs husable h =>
    exact ⟨h.stored (hstored.answered addrs), h.placed ⟨cur, hcur, hok⟩,
      h.tidy (tidy_orderCandidates _)⟩
  | retargeted target hnames h =>
    refine ⟨h.stored (Stored.order ?_), h.placed ⟨target, rfl, hstored.of_names hnames⟩,
      h.tidy (tidy_orderCandidates _)⟩
    exact ⟨hstored.committed, hstored.candidates, hstored.probation⟩
  | recommitted cur' hcur' h =>
    obtain rfl := Option.some.inj (hcur'.symm.trans hcur)
    refine ⟨h.stored (Stored.order ⟨fun ip hip => ?_, hstored.candidates, hstored.probation⟩),
      h.placed ⟨cur', hcur, hok⟩, h.tidy (tidy_orderCandidates _)⟩
    obtain rfl := Option.some.inj hip
    exact hok
  | begun p hp hgood h =>
    refine ⟨h.stored (Stored.order ⟨hstored.committed, hstored.candidates, fun p' hp' => ?_⟩),
      h.placed ⟨cur, hcur, hok⟩, h.tidy (tidy_orderCandidates _)⟩
    obtain rfl := Option.some.inj hp'
    obtain heq := Option.some.inj (hp.symm.trans hcur)
    exact ⟨heq ▸ hok, hstored.committed _ hgood⟩

/-! ## The first state -/

/-- A cached address was checked when it was read. -/
theorem cachedEntry_ok {entry : CacheEntry} {file : CacheFile}
    (h : cachedEntry spec opts file = some entry) :
    endpointIpOk entry.addr opts.allowPrivate = true := by
  unfold cachedEntry at h
  split at h
  next name _ hname =>
    have hload : loadCacheEntry file name spec.port opts.allowPrivate = .ok (some entry) := by
      cases hl : loadCacheEntry file name spec.port opts.allowPrivate with
      | error e =>
        rw [hl] at h
        cases h
      | ok found =>
        rw [hl] at h
        cases found with
        | none => cases h
        | some e =>
          cases h
          rfl
    unfold loadCacheEntry at hload
    cases file with
    | absent => cases hload
    | unreadable => cases hload
    | document h' p e =>
      dsimp only at hload
      split_ifs at hload with _ _ hok
      all_goals cases hload
      exact Bool.eq_true_of_not_eq_false hok
  next => cases h

/-- What a start remembers is permitted. -/
theorem stored_remembered (spec : EndpointSpec) (opts : EndpointOptions) (io : BootIo) :
    (remembered spec opts io).Stored := by
  refine ⟨fun ip hip => ?_, fun ip hip => ?_, fun p hp => ?_⟩
  · obtain ⟨entry, hentry, rfl⟩ := Option.map_eq_some_iff.mp hip
    exact cachedEntry_ok hentry
  · cases hip
  · cases hp

/-- The first address is one of the answer, the cached one or `--bootstrap-addr`. -/
theorem firstAddress_cases {queried : Bool} {ip : Ipv4Addr} (h : c.firstAddress queried = some ip) :
    c.Names ip ∨ c.opts.bootstrap = some ip := by
  unfold firstAddress at h
  split at h
  next first rest hcandidates =>
    left
    cases hgood : c.committedGood.filter (· ∈ c.candidates) with
    | none =>
      rw [hgood] at h
      cases h
      rw [Names, hcandidates]
      exact .inl List.mem_cons_self
    | some good =>
      rw [hgood] at h
      cases h
      exact .inr (.inl (Option.filter_eq_some_iff.mp hgood).1)
  next =>
    cases hgood : c.committedGood with
    | none =>
      rw [hgood] at h
      exact .inr h
    | some good =>
      rw [hgood] at h
      cases h
      exact .inl (.inr (.inl hgood))

/-- A start is safe if its bootstrap address is. -/
theorem addressSafe_bootstrapHost
    (hboot : ∀ ip, opts.bootstrap = some ip → endpointIpOk ip opts.allowPrivate = true)
    (h : bootstrapHost spec opts io = some c) : c.AddressSafe := by
  unfold bootstrapHost at h
  obtain ⟨chosen, hchosen, rfl⟩ := Option.map_eq_some_iff.mp h
  have hbefore := ((keeps_loadLimits (remembered spec opts io) io).trans
    (keeps_startPreferredRound _ io.nowMs)).samePlaces
  have hopts : (((remembered spec opts io).loadLimits io).startPreferredRound io.nowMs).opts =
      opts := hbefore.opts
  have hstored := hbefore.stored (stored_remembered spec opts io)
  generalize ((remembered spec opts io).loadLimits io).startPreferredRound io.nowMs = c₁
    at hchosen hopts hstored ⊢
  have hquery : (c₁.query io.nowMs io.answer io.random).2.Stored := by
    obtain h | ⟨addrs, -, h⟩ := query_places c₁ io.nowMs io.answer io.random
    · exact h.stored hstored
    · exact h.stored (hstored.answered addrs)
  have hopts := (continues_query c₁ io.nowMs io.answer io.random).opts.trans hopts
  generalize (c₁.query io.nowMs io.answer io.random).2 = c₂ at hchosen hquery hopts ⊢
  have hok : c₂.Permits chosen := by
    obtain hnames | hboots := firstAddress_cases hchosen
    · exact hquery.of_names hnames
    · rw [hopts] at hboots
      rw [Permits, hopts]
      exact hboot chosen hboots
  refine ⟨Stored.order ?_, ⟨chosen, rfl, hok⟩, tidy_orderCandidates _⟩
  exact ⟨hquery.committed, hquery.candidates, hquery.probation⟩

variable {name : List UInt8} {port : UInt16}

/-- The start of a host name is safe. -/
theorem addressSafe_bootstrap (h : bootstrap (.hostname name port) opts io = .ok c) :
    c.AddressSafe := by
  have hboot : ∀ ip why, (opts.bootstrap.map fun ip => (ip, checkEndpointIp ip opts.allowPrivate))
      ≠ some (ip, .error why) := by
    intro ip why heq
    rw [bootstrap, heq] at h
    cases h
  refine addressSafe_bootstrapHost (fun ip hip => ?_) (bootstrapHost_of_bootstrap h)
  rw [endpointIpOk_iff]
  cases hcheck : checkEndpointIp ip opts.allowPrivate with
  | ok u => rfl
  | error why =>
    refine absurd ?_ (hboot ip why)
    rw [hip, Option.map_some, hcheck]

/-- Every reached controller of a host name is safe. -/
theorem Reached.addressSafe (h : Reached (.hostname name port) opts log c) : c.AddressSafe := by
  obtain ⟨io, c₀, hboot, hrun⟩ := h
  exact hrun.evolves.invariant (fun _ _ => AddressSafe.relocates) (addressSafe_bootstrap hboot)

/-- Whatever DNS and the files say, a host name's controller only ever holds IPv4 addresses that
`check_endpoint_ip` accepts, and its candidates are distinct, at most eight, and in order. -/
theorem addresses_safe (h : Reached (.hostname name port) opts log c) :
    (∃ ip, c.current.1 = .v4 ip ∧ checkEndpointIp ip opts.allowPrivate = .ok ()) ∧
    (∀ ip, c.committedGood = some ip → checkEndpointIp ip opts.allowPrivate = .ok ()) ∧
    (∀ ip ∈ c.candidates, checkEndpointIp ip opts.allowPrivate = .ok ()) ∧
    (∀ p, c.probation = some p → checkEndpointIp p.candidate opts.allowPrivate = .ok () ∧
      checkEndpointIp p.rollback opts.allowPrivate = .ok ()) ∧
    c.candidates.Nodup ∧ c.candidates.length ≤ 8 ∧ c.InOrder := by
  obtain ⟨hstored, ⟨cur, hcur, hok⟩, htidy⟩ := h.addressSafe
  have hopts : ∀ ip, c.Permits ip → checkEndpointIp ip opts.allowPrivate = .ok () := by
    intro ip hip
    rw [← h.spec_opts.2]
    exact endpointIpOk_iff.mp hip
  refine ⟨⟨cur, ?_, hopts cur hok⟩, fun ip hip => hopts ip (hstored.committed ip hip),
    fun ip hip => hopts ip (hstored.candidates ip hip), fun p hp => ?_, htidy.nodup, htidy.few,
    htidy.inOrder⟩
  · unfold currentV4 at hcur
    split at hcur
    next ip hip =>
      cases hcur
      exact hip
    next => cases hcur
  · obtain ⟨hc, hr⟩ := hstored.probation p hp
    exact ⟨hopts _ hc, hopts _ hr⟩

/-- After a cutover from `9.9.9.9` to `8.8.8.8`, which is on probation. -/
theorem addresses_safe_cutover : ∃ log c, Reached (.hostname [120] 443) cachedOpts log c ∧
    c.probation.isSome = true ∧ c.candidates.length ≤ 8 := by
  obtain ⟨log, c, hreached, hprobation⟩ := exists_reached_of_replay (.hostname [120] 443) cachedOpts
    firstBoot cutover (fun _ c => c.probation.isSome) (by decide +kernel)
  obtain ⟨-, -, -, -, -, hfew, -⟩ := addresses_safe hreached
  exact ⟨log, c, hreached, hprobation, hfew⟩

end Controller

end Udp2raw
