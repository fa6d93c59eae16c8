import Udp2raw.Endpoint.StateFormat

/-!
# Loading what was written

What a state has to be like for `load_fallback_state` to accept it. The conditions hold
of a new state, a charge keeps them, and they do not stop to hold as the clock goes on.
-/

namespace Udp2raw

variable {s t : FallbackState} {capacity wallNow : Nat} {allowPrivate : Bool}
  {policy : LastGoodFallbackPolicy}

/-- The checks of `load_fallback_state`, besides the identity of the endpoint. -/
structure FallbackState.Acceptable (s : FallbackState) (capacity : Nat) (allowPrivate : Bool)
    (wallNow : Nat) : Prop where
  few : s.entries.length ≤ maxBudgetEntries
  tokens : s.globalTokens ≤ capacity
  updated : s.globalUpdatedUnixSecs ≤ satAdd wallNow 300
  entries : ∀ e ∈ s.entries, e.loadable allowPrivate wallNow = true
  nodup : (s.entries.map BudgetEntry.key).Nodup

/-- The state after a first charge, for `9.9.9.9` while DNS lists `8.8.8.8`. -/
def firstCharge : FallbackState :=
  ⟨3, 1040, [⟨.replicate 4 9, [.replicate 4 8], 1, 1340, 1040⟩]⟩

variable {port : UInt16} {host : List UInt8} {e : BudgetEntry} {candidate : Ipv4Addr}
  {dnsSet : List Ipv4Addr}

/-- A document is accepted if it is the endpoint's and its state passes the checks. -/
theorem loadFallbackState_eq_some_iff {h : List UInt8} {p : UInt16} {r : FallbackState} :
    loadFallbackState (.document h p s) host port capacity allowPrivate wallNow = .ok (some r) ↔
      h = host ∧ p = port ∧ r = s ∧ s.Acceptable capacity allowPrivate wallNow := by
  have hload := toOption_loadFallbackState_document h p s host port capacity allowPrivate wallNow
  constructor
  · intro hok
    rw [hok] at hload
    have hload : some (some r) = _ := hload
    split_ifs at hload with hchecks
    cases hload
    obtain ⟨hfew, hhost, hport, htokens, hupdated, hentries, hnodup⟩ := hchecks
    exact ⟨hhost, hport, rfl, hfew, htokens, hupdated, List.all_eq_true.mp hentries, hnodup⟩
  · rintro ⟨hhost, hport, rfl, hfew, htokens, hupdated, hentries, hnodup⟩
    rw [if_pos ⟨hfew, hhost, hport, htokens, hupdated, List.all_eq_true.mpr hentries, hnodup⟩]
      at hload
    generalize loadFallbackState (.document h p r) host port capacity allowPrivate wallNow = result
      at hload
    cases result with
    | error e => cases hload
    | ok loaded =>
      cases hload
      rfl

/-! ## The clock goes on -/

theorem satAdd_le_satAdd {a b n : Nat} (h : a ≤ b) : satAdd a n ≤ satAdd b n := by
  unfold satAdd
  omega

/-- An entry that loads now loads later. -/
theorem BudgetEntry.loadable_later {later : Nat} (hlater : wallNow ≤ later)
    (h : e.loadable allowPrivate wallNow = true) : e.loadable allowPrivate later = true := by
  simp only [loadable, Bool.and_eq_true, decide_eq_true_eq] at h ⊢
  obtain ⟨⟨⟨⟨⟨⟨⟨⟨hip, hcharged⟩, hlast⟩, hrest⟩, hspan⟩, hips⟩, hset⟩, hne⟩, hfew⟩ := h
  exact ⟨⟨⟨⟨⟨⟨⟨⟨hip, hcharged⟩, hlast.trans (satAdd_le_satAdd hlater)⟩, hrest⟩, hspan⟩, hips⟩,
    hset⟩, hne⟩, hfew⟩

theorem BudgetEntry.few_of_loadable (h : e.loadable allowPrivate wallNow = true) :
    e.dnsSet.length ≤ maxEndpointCandidates := by
  simp only [loadable, Bool.and_eq_true, decide_eq_true_eq] at h
  exact h.2

/-- An accepted state is accepted at every later time. -/
theorem FallbackState.Acceptable.later {later : Nat}
    (h : s.Acceptable capacity allowPrivate wallNow) (hlater : wallNow ≤ later) :
    s.Acceptable capacity allowPrivate later where
  few := h.few
  tokens := h.tokens
  updated := h.updated.trans (satAdd_le_satAdd hlater)
  entries e he := BudgetEntry.loadable_later hlater (h.entries e he)
  nodup := h.nodup

/-! ## A charge -/

/-- A DNS set as `canonical_candidates` returns it, of permitted addresses. -/
structure CanonicalSet (allowPrivate : Bool) (dnsSet : List Ipv4Addr) : Prop where
  permitted : ∀ ip ∈ dnsSet, endpointIpOk ip allowPrivate = true
  sorted : dnsSet = sortDedup dnsSet
  nonempty : dnsSet ≠ []
  few : dnsSet.length ≤ maxEndpointCandidates

/-- A new state is acceptable. -/
theorem acceptable_new (capacity : Nat) (allowPrivate : Bool) (hwall : wallNow ≤ u64Max) :
    (FallbackState.new capacity wallNow).Acceptable capacity allowPrivate wallNow where
  few := Nat.zero_le _
  tokens := Nat.le_refl _
  updated := by
    change wallNow ≤ satAdd wallNow 300
    unfold satAdd
    omega
  entries e he := by cases he
  nodup := List.nodup_nil

/-- An entry that was just charged passes the checks. -/
theorem BudgetEntry.loadable_of_charged (hwall : wallNow ≤ u64Max)
    (hcooldown : policy.cooldownSecs ≤ maxPersistedCooldownSecs)
    (hip : endpointIpOk e.candidate allowPrivate = true) (hset : CanonicalSet allowPrivate e.dnsSet)
    (hcharged : e.charged ≠ 0) (hlast : e.lastUsedUnixSecs = wallNow)
    (hrest : e.notBeforeUnixSecs = satAdd wallNow policy.cooldownSecs) :
    e.loadable allowPrivate wallNow = true := by
  have hips : (e.dnsSet.all fun ip => endpointIpOk ip allowPrivate) = true :=
    List.all_eq_true.mpr hset.permitted
  have htimes : wallNow ≤ satAdd wallNow 300 ∧ wallNow ≤ satAdd wallNow policy.cooldownSecs ∧
      satAdd wallNow policy.cooldownSecs - wallNow ≤ maxPersistedCooldownSecs := by
    unfold satAdd
    omega
  simp only [loadable, Bool.and_eq_true, decide_eq_true_eq, hlast, hrest]
  exact ⟨⟨⟨⟨⟨⟨⟨⟨hip, hcharged⟩, htimes.1⟩, htimes.2.1⟩, htimes.2.2⟩, hips⟩, hset.sorted⟩,
    hset.nonempty⟩, hset.few⟩

/-- What a charge makes of the entries is accepted if they were. -/
theorem Recorded.loadable {entries next : List BudgetEntry}
    (h : Recorded policy wallNow (candidate, dnsSet) entries next) (hwall : wallNow ≤ u64Max)
    (hcooldown : policy.cooldownSecs ≤ maxPersistedCooldownSecs)
    (hip : endpointIpOk candidate allowPrivate = true) (hset : CanonicalSet allowPrivate dnsSet)
    (hentries : ∀ e ∈ entries, e.loadable allowPrivate wallNow = true) :
    ∀ e ∈ next, e.loadable allowPrivate wallNow = true := by
  intro e' he'
  obtain ⟨rfl, -⟩ | ⟨e, -, hkey, -, -, rfl⟩ | he := h.mem he'
  · exact BudgetEntry.loadable_of_charged hwall hcooldown hip hset Nat.one_ne_zero rfl rfl
  · obtain ⟨rfl, rfl⟩ := Prod.mk.inj hkey
    refine BudgetEntry.loadable_of_charged hwall hcooldown hip hset ?_ rfl rfl
    change satAdd32 e.charged 1 ≠ 0
    unfold satAdd32 u32Max
    omega
  · exact hentries e' he

/-- The bucket after a charge. -/
theorem precharged_bounds (hwall : wallNow ≤ u64Max)
    (hcapacity : s.globalTokens ≤ policy.globalCapacity.toNat)
    (ht : precharged s policy wallNow candidate dnsSet = some t) :
    t.globalTokens ≤ policy.globalCapacity.toNat ∧
      t.globalUpdatedUnixSecs ≤ max s.globalUpdatedUnixSecs wallNow := by
  obtain ⟨-, hbucket⟩ := precharged_bucket ht hwall hcapacity
  have htokens : t.globalTokens = _ := congrArg TokenBucket.Bucket.tokens hbucket
  have hupdated : t.globalUpdatedUnixSecs = _ := congrArg TokenBucket.Bucket.stamp hbucket
  refine ⟨?_, ?_⟩
  · have hle := @TokenBucket.tokens_refill_le policy.globalCapacity.toNat policy.refillSecs wallNow
      s.bucket
    simp only [htokens, TokenBucket.Bucket.spend]
    omega
  · have hmul : (wallNow - s.globalUpdatedUnixSecs) / policy.refillSecs * policy.refillSecs
        ≤ wallNow - s.globalUpdatedUnixSecs := Nat.div_mul_le_self _ _
    simp only [hupdated, TokenBucket.Bucket.spend, TokenBucket.Bucket.refill, FallbackState.bucket]
    omega

/-- The state after a charge is accepted when it is written. -/
theorem FallbackState.Acceptable.charged
    (h : s.Acceptable policy.globalCapacity.toNat allowPrivate wallNow) (hwall : wallNow ≤ u64Max)
    (hcooldown : policy.cooldownSecs ≤ maxPersistedCooldownSecs)
    (hip : endpointIpOk candidate allowPrivate = true) (hset : CanonicalSet allowPrivate dnsSet)
    (ht : precharged s policy wallNow candidate dnsSet = some t) :
    t.Acceptable policy.globalCapacity.toNat allowPrivate wallNow := by
  have hrecorded := precharged_recorded ht
  obtain ⟨htokens, hupdated⟩ := precharged_bounds hwall h.tokens ht
  refine ⟨hrecorded.length_le h.few, htokens, hupdated.trans (Nat.max_le.mpr ⟨h.updated, ?_⟩),
    hrecorded.loadable hwall hcooldown hip hset h.entries, hrecorded.nodup h.nodup⟩
  unfold satAdd
  omega

/-! ## Numbers -/

theorem fits_new (policy : LastGoodFallbackPolicy) (hwall : wallNow ≤ u64Max) :
    (FallbackState.new policy.globalCapacity.toNat wallNow).Fits where
  tokens := Nat.le_sub_one_of_lt policy.globalCapacity.toNat_lt
  updated := hwall
  entries e he := by cases he

/-- A charge keeps the numbers within their types. -/
theorem FallbackState.Fits.charged (h : s.Fits)
    (hcapacity : s.globalTokens ≤ policy.globalCapacity.toNat) (hset : dnsSet ≠ [])
    (hwall : wallNow ≤ u64Max) (ht : precharged s policy wallNow candidate dnsSet = some t) :
    t.Fits := by
  obtain ⟨htokens, hupdated⟩ := precharged_bounds hwall hcapacity ht
  refine ⟨htokens.trans (Nat.le_sub_one_of_lt policy.globalCapacity.toNat_lt),
    hupdated.trans (Nat.max_le.mpr ⟨h.updated, hwall⟩), fun e' he' => ?_⟩
  have hrest : satAdd wallNow policy.cooldownSecs ≤ u64Max := Nat.min_le_right _ _
  have hone : 1 ≤ u32Max := by decide
  obtain ⟨rfl, -⟩ | ⟨e, he, hkey, -, -, rfl⟩ | he := (precharged_recorded ht).mem he'
  · exact ⟨hone, hrest, hwall, hset⟩
  · exact ⟨Nat.min_le_right _ _, hrest, hwall, (h.entries e he).dnsSet⟩
  · exact h.entries e' he

/-- What is read has numbers of its types. -/
theorem fits_of_readEntry {line : List Char} (h : readEntry line = some e) : e.Fits := by
  unfold readEntry at h
  obtain ⟨raw, -, h⟩ := Option.bind_eq_some_iff.mp h
  split at h
  next f₀ f₁ f₂ f₃ f₄ hsplit =>
    obtain ⟨candidate, -, h⟩ := Option.bind_eq_some_iff.mp h
    obtain ⟨charged, hcharged, h⟩ := Option.bind_eq_some_iff.mp h
    obtain ⟨notBefore, hnotBefore, h⟩ := Option.bind_eq_some_iff.mp h
    obtain ⟨lastUsed, hlastUsed, h⟩ := Option.bind_eq_some_iff.mp h
    obtain ⟨dnsSet, hset, h⟩ := Option.bind_eq_some_iff.mp h
    cases h
    refine ⟨(Text.parseCanonical_eq_some_iff.mp hcharged).2,
      (Text.parseCanonical_eq_some_iff.mp hnotBefore).2,
      (Text.parseCanonical_eq_some_iff.mp hlastUsed).2, fun hnil => ?_⟩
    have hlength := Text.length_of_mapM_eq_some hset
    change dnsSet = [] at hnil
    rw [hnil, List.length_nil] at hlength
    exact List.splitOn_ne_nil ',' f₄ (List.length_eq_zero_iff.mp hlength.symm)
  next => cases h

/-- The numbers of a state that is read fit their types. -/
theorem fits_of_readDocument {text : List Char} (h : readDocument text = some (host, port, s)) :
    s.Fits := by
  unfold readDocument at h
  split_ifs at h
  split at h
  next l₀ l₁ l₂ l₃ l₄ l₅ lines hlines =>
    split_ifs at h
    obtain ⟨h', -, h⟩ := Option.bind_eq_some_iff.mp h
    obtain ⟨p', -, h⟩ := Option.bind_eq_some_iff.mp h
    obtain ⟨tokens, htokens, h⟩ := Option.bind_eq_some_iff.mp h
    obtain ⟨updated, hupdated, h⟩ := Option.bind_eq_some_iff.mp h
    obtain ⟨entries, hentries, h⟩ := Option.bind_eq_some_iff.mp h
    cases h
    obtain ⟨v, -, htokens⟩ := Option.bind_eq_some_iff.mp htokens
    obtain ⟨v', -, hupdated⟩ := Option.bind_eq_some_iff.mp hupdated
    refine ⟨(Text.parseCanonical_eq_some_iff.mp htokens).2,
      (Text.parseCanonical_eq_some_iff.mp hupdated).2, fun e he => ?_⟩
    obtain ⟨line, hline⟩ := Text.mem_of_mapM_eq_some hentries e he
    exact fits_of_readEntry hline
  next => cases h

/-- Whatever a file says, its numbers fit. -/
theorem fits_of_ofContents {contents : StateContents}
    (h : StateFile.ofContents contents = .document host port s) : s.Fits := by
  unfold StateFile.ofContents at h
  split at h
  · cases h
  · cases h
  · split_ifs at h
    split at h
    next hdocument =>
      cases h
      obtain ⟨text, -, hread⟩ := Option.bind_eq_some_iff.mp hdocument
      exact fits_of_readDocument hread
    next => cases h

/-- A state that fits and is accepted can be written and loaded. -/
theorem loadFallbackFile_writtenFile {later : Nat} (hplain : PlainHost host)
    (hhost : host.length ≤ 253) (hfits : s.Fits) (hs : s.Acceptable capacity allowPrivate later) :
    (serializeFallbackState host port s).toUTF8.size < stateMaxBytes ∧
    loadFallbackFile (writtenFile host port s) host port capacity allowPrivate later
      = .ok (some s) := by
  have hfew : ∀ e ∈ s.entries, e.dnsSet.length ≤ maxEndpointCandidates := fun e he =>
    BudgetEntry.few_of_loadable (hs.entries e he)
  refine ⟨size_serializeFallbackState_lt hhost port hfits hs.few hfew, ?_⟩
  have hload := toOption_loadFallbackFile (writtenFile host port s) host port capacity allowPrivate
    later
  rw [ofContents_writtenFile hplain hhost port hfits hs.few hfew,
    loadFallbackState_eq_some_iff.mpr ⟨rfl, rfl, rfl, hs⟩] at hload
  cases hresult : loadFallbackFile (writtenFile host port s) host port capacity allowPrivate later
    with
  | error e =>
    rw [hresult] at hload
    cases hload
  | ok loaded =>
    rw [hresult] at hload
    cases hload
    rfl

end Udp2raw
