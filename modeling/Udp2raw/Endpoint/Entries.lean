import Udp2raw.Endpoint.Budget

/-!
# What a charge records

A granted charge changes one entry of the table: it counts one more attempt of a pair
of address and DNS set that has attempts left and has cooled down, or it makes the entry
of a pair that has none, if there is room. The table is sorted again, which changes
nothing about its entries.
-/

namespace Udp2raw

/-- The pair of address and DNS set an entry counts for. -/
def BudgetEntry.key (e : BudgetEntry) : Ipv4Addr × List Ipv4Addr := (e.candidate, e.dnsSet)

/-- An entry after one more charge. -/
def BudgetEntry.again (e : BudgetEntry) (policy : LastGoodFallbackPolicy) (wallNow : Nat) :
    BudgetEntry :=
  { e with
    charged := satAdd32 e.charged 1
    notBeforeUnixSecs := satAdd wallNow policy.cooldownSecs
    lastUsedUnixSecs := wallNow }

/-- The entry of a first charge. -/
def BudgetEntry.first (key : Ipv4Addr × List Ipv4Addr) (policy : LastGoodFallbackPolicy)
    (wallNow : Nat) : BudgetEntry where
  candidate := key.1
  dnsSet := key.2
  charged := 1
  notBeforeUnixSecs := satAdd wallNow policy.cooldownSecs
  lastUsedUnixSecs := wallNow

@[simp] theorem BudgetEntry.key_again (e : BudgetEntry) (policy : LastGoodFallbackPolicy)
    (wallNow : Nat) : (e.again policy wallNow).key = e.key := rfl

@[simp] theorem BudgetEntry.key_first (key : Ipv4Addr × List Ipv4Addr)
    (policy : LastGoodFallbackPolicy) (wallNow : Nat) : (first key policy wallNow).key = key := rfl

variable {policy : LastGoodFallbackPolicy} {wallNow : Nat} {key : Ipv4Addr × List Ipv4Addr}
  {entries next : List BudgetEntry}

/-- A charge of `key` is recorded: `entries` become `next`, up to their order. -/
inductive Recorded (policy : LastGoodFallbackPolicy) (wallNow : Nat)
    (key : Ipv4Addr × List Ipv4Addr) (entries next : List BudgetEntry) : Prop where
  | again (before after : List BudgetEntry) (e : BudgetEntry)
      (hsplit : entries = before ++ e :: after) (hkey : e.key = key)
      (hleft : e.charged < policy.maxAttempts.toNat) (hcool : e.notBeforeUnixSecs ≤ wallNow)
      (hnext : next.Perm (e.again policy wallNow :: (before ++ after)))
  | first (hnew : key ∉ entries.map BudgetEntry.key) (hroom : entries.length < maxBudgetEntries)
      (hnext : next.Perm (.first key policy wallNow :: entries))

/-- Sorting keeps a record. -/
theorem Recorded.perm {next' : List BudgetEntry} (h : Recorded policy wallNow key entries next)
    (hperm : next'.Perm next) : Recorded policy wallNow key entries next' := by
  cases h with
  | again before after e hsplit hkey hleft hcool hnext =>
    exact .again before after e hsplit hkey hleft hcool (hperm.trans hnext)
  | first hnew hroom hnext => exact .first hnew hroom (hperm.trans hnext)

/-- A granted charge is recorded in the entries. -/
theorem chargeEntry_recorded {candidate : Ipv4Addr} {dnsSet : List Ipv4Addr}
    (h : chargeEntry policy wallNow candidate dnsSet entries = .ok (some next)) :
    Recorded policy wallNow (candidate, dnsSet) entries next := by
  unfold chargeEntry at h
  split at h
  next pos hpos =>
    obtain ⟨hlt, hfound, -⟩ := List.findIdx?_eq_some_iff_getElem.mp hpos
    rw [Checked.readAt_eq_ok hlt, Checked.ok_bind] at h
    split_ifs at h with hrefused
    · cases h
    · obtain rfl := Option.some.inj (Except.ok.inj h)
      rw [not_or, Nat.not_le, Nat.not_lt] at hrefused
      obtain ⟨hcandidate, hset⟩ := of_decide_eq_true hfound
      have hsplit : entries = entries.take pos ++ entries[pos] :: entries.drop (pos + 1) := by
        rw [← List.drop_eq_getElem_cons hlt, List.take_append_drop]
      refine .again (entries.take pos) (entries.drop (pos + 1)) entries[pos] hsplit ?_ hrefused.1
        hrefused.2 ?_
      · rw [BudgetEntry.key, hcandidate, hset]
      · rw [List.set_eq_take_append_cons_drop, if_pos hlt]
        exact List.perm_middle
  next hnone =>
    split_ifs at h with hfull
    · cases h
    · obtain rfl := Option.some.inj (Except.ok.inj h)
      refine .first (fun hmem => ?_) (Nat.lt_of_not_le hfull) (List.perm_append_singleton _ _)
      obtain ⟨e, he, hkey⟩ := List.mem_map.mp hmem
      have hother := List.findIdx?_eq_none_iff.mp hnone e he
      cases hkey
      simp at hother

/-- A granted charge is recorded. -/
theorem precharged_recorded {s t : FallbackState} {candidate : Ipv4Addr}
    {dnsSet : List Ipv4Addr} (h : precharged s policy wallNow candidate dnsSet = some t) :
    Recorded policy wallNow (candidate, dnsSet) s.entries t.entries := by
  obtain ⟨r, hr, -⟩ := prechargeFallbackState_returns s policy wallNow candidate dnsSet
  rw [precharged, Checked.value_eq_of_ok hr] at h
  subst h
  unfold prechargeFallbackState at hr
  obtain ⟨refilled, hrefilled, hr⟩ := Checked.bind_eq_ok.mp hr
  obtain ⟨refilled', hrefilled', hentries, -⟩ := refillGlobal_returns policy wallNow s
  cases hrefilled.symm.trans hrefilled'
  split_ifs at hr
  · cases hr
  · obtain ⟨charged, hcharged, hr⟩ := Checked.bind_eq_ok.mp hr
    cases charged with
    | none => cases hr
    | some table =>
      obtain ⟨tokens, -, hr⟩ := Checked.bind_eq_ok.mp hr
      cases hr
      rw [hentries] at hcharged
      exact (chargeEntry_recorded hcharged).perm (List.perm_insertionSort _ _)

/-! ## What a record does to the table -/

/-- The entries of a table after a record: a charged one, and the others as they were. -/
theorem Recorded.mem (h : Recorded policy wallNow key entries next) {e' : BudgetEntry}
    (he' : e' ∈ next) :
    (e' = .first key policy wallNow ∧ key ∉ entries.map BudgetEntry.key) ∨
    (∃ e ∈ entries, e.key = key ∧ e.charged < policy.maxAttempts.toNat ∧
      e.notBeforeUnixSecs ≤ wallNow ∧ e' = e.again policy wallNow) ∨ e' ∈ entries := by
  cases h with
  | again before after e hsplit hkey hleft hcool hnext =>
    obtain rfl | he' := List.mem_cons.mp (hnext.mem_iff.mp he')
    · refine .inr (.inl ⟨e, ?_, hkey, hleft, hcool, rfl⟩)
      rw [hsplit]
      exact List.mem_append_right _ List.mem_cons_self
    · refine .inr (.inr ?_)
      rw [hsplit]
      obtain he' | he' := List.mem_append.mp he'
      · exact List.mem_append_left _ he'
      · exact List.mem_append_right _ (List.mem_cons_of_mem _ he')
  | first hnew hroom hnext =>
    obtain rfl | he' := List.mem_cons.mp (hnext.mem_iff.mp he')
    · exact .inl ⟨rfl, hnew⟩
    · exact .inr (.inr he')

/-- No key is charged into being twice. -/
theorem Recorded.nodup (h : Recorded policy wallNow key entries next)
    (hnodup : (entries.map BudgetEntry.key).Nodup) : (next.map BudgetEntry.key).Nodup := by
  cases h with
  | again before after e hsplit hkey hleft hcool hnext =>
    rw [hsplit, List.map_append, List.map_cons, List.nodup_middle] at hnodup
    rw [(hnext.map _).nodup_iff, List.map_cons, BudgetEntry.key_again, List.map_append]
    exact hnodup
  | first hnew hroom hnext =>
    rw [(hnext.map _).nodup_iff, List.map_cons, BudgetEntry.key_first]
    exact List.nodup_cons.mpr ⟨hnew, hnodup⟩

/-- The table never grows past its bound. -/
theorem Recorded.length_le (h : Recorded policy wallNow key entries next)
    (hlen : entries.length ≤ maxBudgetEntries) : next.length ≤ maxBudgetEntries := by
  cases h with
  | again before after e hsplit hkey hleft hcool hnext =>
    rw [hsplit] at hlen
    rw [hnext.length_eq]
    simp only [List.length_cons, List.length_append] at hlen ⊢
    omega
  | first hnew hroom hnext =>
    rw [hnext.length_eq, List.length_cons]
    omega

/-- What a record does to the entry of a pair: nothing, or one more charge if it may have one. -/
theorem Recorded.kept (h : Recorded policy wallNow key entries next) {e : BudgetEntry}
    (he : e ∈ entries) : e ∈ next ∨ (e.key = key ∧ e.charged < policy.maxAttempts.toNat ∧
      e.notBeforeUnixSecs ≤ wallNow ∧ e.again policy wallNow ∈ next) := by
  cases h with
  | again before after e₀ hsplit hkey hleft hcool hnext =>
    rw [hsplit, List.mem_append, List.mem_cons] at he
    obtain he | rfl | he := he
    · exact .inl (hnext.mem_iff.mpr (List.mem_cons_of_mem _ (List.mem_append_left _ he)))
    · exact .inr ⟨hkey, hleft, hcool, hnext.mem_iff.mpr List.mem_cons_self⟩
    · exact .inl (hnext.mem_iff.mpr (List.mem_cons_of_mem _ (List.mem_append_right _ he)))
  | first hnew hroom hnext => exact .inl (hnext.mem_iff.mpr (List.mem_cons_of_mem _ he))

/-- A record stamps the entry of its pair with its time and the end of the cooldown. -/
theorem Recorded.stamped (h : Recorded policy wallNow key entries next) :
    ∃ e ∈ next, e.key = key ∧ e.lastUsedUnixSecs = wallNow ∧
      e.notBeforeUnixSecs = satAdd wallNow policy.cooldownSecs := by
  cases h with
  | again before after e hsplit hkey hleft hcool hnext =>
    exact ⟨_, hnext.mem_iff.mpr List.mem_cons_self, hkey, rfl, rfl⟩
  | first hnew hroom hnext => exact ⟨_, hnext.mem_iff.mpr List.mem_cons_self, rfl, rfl, rfl⟩

/-- A charge of a pair that has an entry needs it to have cooled down. -/
theorem Recorded.cooled (h : Recorded policy wallNow key entries next) {e : BudgetEntry}
    (hnodup : (entries.map BudgetEntry.key).Nodup) (he : e ∈ entries) (hkey : e.key = key) :
    e.notBeforeUnixSecs ≤ wallNow := by
  cases h with
  | again before after e₀ hsplit hkey₀ hleft hcool hnext =>
    have he₀ : e₀ ∈ entries := by
      rw [hsplit]
      exact List.mem_append_right _ List.mem_cons_self
    rwa [List.inj_on_of_nodup_map hnodup he he₀ (hkey.trans hkey₀.symm)]
  | first hnew hroom hnext => exact absurd (hkey ▸ List.mem_map_of_mem he) hnew

/-! ## Counting charges -/

/-- The charges a table records for a pair. -/
def chargesFor (key : Ipv4Addr × List Ipv4Addr) (entries : List BudgetEntry) : Nat :=
  (entries.map fun e => if e.key = key then e.charged else 0).sum

theorem chargesFor_perm (key : Ipv4Addr × List Ipv4Addr) (h : entries.Perm next) :
    chargesFor key entries = chargesFor key next := (h.map _).sum_nat

theorem chargesFor_cons (key : Ipv4Addr × List Ipv4Addr) (e : BudgetEntry)
    (entries : List BudgetEntry) :
    chargesFor key (e :: entries) = (if e.key = key then e.charged else 0)
      + chargesFor key entries := List.sum_cons

/-- A pair without an entry has no charges. -/
theorem chargesFor_of_notMem (h : key ∉ entries.map BudgetEntry.key) :
    chargesFor key entries = 0 := by
  induction entries with
  | nil => rfl
  | cons e entries ih =>
    rw [List.map_cons, List.mem_cons, not_or] at h
    rw [chargesFor_cons, if_neg (Ne.symm h.1), ih h.2]

/-- A record counts one charge, of its pair. -/
theorem Recorded.chargesFor (h : Recorded policy wallNow key entries next)
    (key' : Ipv4Addr × List Ipv4Addr) :
    chargesFor key' next = chargesFor key' entries + if key = key' then 1 else 0 := by
  cases h with
  | again before after e hsplit hkey hleft hcool hnext =>
    have hexact : satAdd32 e.charged 1 = e.charged + 1 := by
      have hlt := policy.maxAttempts.toNat_lt
      unfold satAdd32 u32Max
      omega
    have hcharged : (e.again policy wallNow).charged = e.charged + 1 := hexact
    rw [chargesFor_perm key' hnext, chargesFor_cons, BudgetEntry.key_again, hcharged, hsplit,
      chargesFor_perm key' List.perm_middle, chargesFor_cons, hkey]
    split_ifs <;> omega
  | first hnew hroom hnext =>
    have hcharged : (BudgetEntry.first key policy wallNow).charged = 1 := rfl
    rw [chargesFor_perm key' hnext, chargesFor_cons, BudgetEntry.key_first, hcharged,
      Nat.add_comm]

/-- A pair is charged only while it has attempts left, or for the first time. -/
theorem Recorded.chargesFor_lt (h : Recorded policy wallNow key entries next)
    (hnodup : (entries.map BudgetEntry.key).Nodup) :
    Udp2raw.chargesFor key entries < max 1 policy.maxAttempts.toNat := by
  cases h with
  | again before after e hsplit hkey hleft hcool hnext =>
    rw [hsplit, List.map_append, List.map_cons, List.nodup_middle, List.nodup_cons,
      ← List.map_append, hkey] at hnodup
    rw [hsplit, chargesFor_perm key List.perm_middle, chargesFor_cons, if_pos hkey,
      chargesFor_of_notMem hnodup.1]
    exact lt_max_of_lt_right hleft
  | first hnew hroom hnext =>
    rw [chargesFor_of_notMem hnew]
    exact lt_max_of_lt_left Nat.zero_lt_one

end Udp2raw
