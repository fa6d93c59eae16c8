import Udp2raw.Cli.Fallback
import Udp2raw.Endpoint.FileHistory

/-!
# The budget of one DNS set

The entries of the shared state file count the charges of every pair of address and DNS
set. Over any history of the file they are kept, their pairs differ, and a pair is
charged only while it has attempts left and after it has cooled down.
-/

namespace Udp2raw

/-- `unix_now_secs`, from the seconds of the system clock since the epoch: a time before it
counts as the epoch. -/
def unixNowSecs (clock : Int64) : UInt64 := if clock < 0 then 0 else clock.toUInt64

/-- The entries of a state file. -/
def StateFile.entries : StateFile → List BudgetEntry
  | .document _ _ s => s.entries
  | _ => []

/-- The pair a call charges. -/
def ChargeCall.key (call : ChargeCall) : Ipv4Addr × List Ipv4Addr :=
  (call.candidate, call.controller.canonicalCandidates)

/-- The granted charges of a pair. -/
def grantsFor (key : Ipv4Addr × List Ipv4Addr) (file : StateFile) : List ChargeCall → Nat
  | [] => 0
  | call :: calls =>
    (if call.key = key then (call.granted file).toNat else 0)
      + grantsFor key (call.fileAfter file) calls

variable {policy : LastGoodFallbackPolicy} {file : StateFile} {call : ChargeCall}
  {calls : List ChargeCall}

theorem fileAfterCalls_append (file : StateFile) (calls more : List ChargeCall) :
    fileAfterCalls file (calls ++ more) = fileAfterCalls (fileAfterCalls file calls) more := by
  induction calls generalizing file with
  | nil => rfl
  | cons call calls ih => exact ih (call.fileAfter file)

/-! ## One call -/

/-- One call, seen from the entries: nothing happens, or a charge of its pair is recorded. -/
theorem fileAfter_recorded (hpolicy : call.controller.policy = policy) :
    (call.granted file = false ∧ call.fileAfter file = file) ∨
    Recorded policy call.wallNow.toNat call.key file.entries
      (call.fileAfter file).entries := by
  refine (fileAfter_cases hpolicy).imp_right ?_
  rintro ⟨h, p, s, t, ⟨rfl, rfl⟩ | ⟨rfl, -⟩, hafter, ht⟩
  all_goals
    subst hpolicy
    rw [hafter]
    exact precharged_recorded ht

/-- A granted call is recorded. -/
theorem recorded_of_granted (hpolicy : call.controller.policy = policy)
    (hgranted : call.granted file = true) :
    Recorded policy call.wallNow.toNat call.key file.entries
      (call.fileAfter file).entries := by
  obtain ⟨hdenied, -⟩ | hrecorded := @fileAfter_recorded policy file call hpolicy
  · rw [hdenied] at hgranted
    cases hgranted
  · exact hrecorded

/-! ## Histories -/

/-- What every record keeps, every history does. -/
theorem fileAfterCalls_entries {I : List BudgetEntry → Prop}
    (hpolicy : ∀ call ∈ calls, call.controller.policy = policy)
    (hstep : ∀ call ∈ calls, ∀ entries next,
      Recorded policy call.wallNow.toNat call.key entries next → I entries → I next)
    (hfile : I file.entries) : I (fileAfterCalls file calls).entries := by
  induction calls generalizing file with
  | nil => exact hfile
  | cons call calls ih =>
    refine ih (fun c hc => hpolicy c (List.mem_cons_of_mem _ hc))
      (fun c hc => hstep c (List.mem_cons_of_mem _ hc)) ?_
    obtain ⟨-, hsame⟩ | hrecorded :=
      @fileAfter_recorded policy file call (hpolicy call List.mem_cons_self)
    · rw [hsame]
      exact hfile
    · exact hstep call List.mem_cons_self _ _ hrecorded hfile

/-- The entries are few and their pairs differ. -/
def WellKept (entries : List BudgetEntry) : Prop :=
  (entries.map BudgetEntry.key).Nodup ∧ entries.length ≤ maxBudgetEntries

/-- A recorded charge keeps the entries well kept. -/
theorem Recorded.wellKept {wallNow : Nat} {key : Ipv4Addr × List Ipv4Addr}
    {entries next : List BudgetEntry} (h : Recorded policy wallNow key entries next)
    (hkept : WellKept entries) : WellKept next :=
  ⟨h.nodup hkept.1, h.length_le hkept.2⟩

theorem fileAfterCalls_wellKept (hpolicy : ∀ call ∈ calls, call.controller.policy = policy)
    (hfile : WellKept file.entries) : WellKept (fileAfterCalls file calls).entries :=
  fileAfterCalls_entries hpolicy (fun _ _ _ _ hrecorded => hrecorded.wellKept) hfile

/-- An entry is never dropped, and its count never falls. -/
theorem fileAfterCalls_keeps (hpolicy : ∀ call ∈ calls, call.controller.policy = policy)
    {e : BudgetEntry} (he : e ∈ file.entries) :
    ∃ e' ∈ (fileAfterCalls file calls).entries, e'.key = e.key ∧ e.charged ≤ e'.charged := by
  refine fileAfterCalls_entries hpolicy (I := fun entries =>
    ∃ e' ∈ entries, e'.key = e.key ∧ e.charged ≤ e'.charged) ?_ ⟨e, he, rfl, Nat.le_refl _⟩
  rintro call - entries next hrecorded ⟨e', he', hkey, hle⟩
  obtain hsame | ⟨-, hleft, -, hagain⟩ := hrecorded.kept he'
  · exact ⟨e', hsame, hkey, hle⟩
  · refine ⟨_, hagain, hkey, hle.trans ?_⟩
    have hlt := policy.maxAttempts.toNat_lt
    change e'.charged ≤ satAdd32 e'.charged 1
    unfold satAdd32 u32Max
    omega

/-- Every granted charge stays recorded. -/
theorem chargesFor_grants (key : Ipv4Addr × List Ipv4Addr)
    (hpolicy : ∀ call ∈ calls, call.controller.policy = policy) :
    chargesFor key file.entries + grantsFor key file calls
      ≤ chargesFor key (fileAfterCalls file calls).entries := by
  induction calls generalizing file with
  | nil => exact Nat.le_refl _
  | cons call calls ih =>
    have ih := @ih (call.fileAfter file) fun c hc => hpolicy c (List.mem_cons_of_mem _ hc)
    rw [grantsFor, fileAfterCalls]
    obtain ⟨hdenied, hsame⟩ | hrecorded :=
      @fileAfter_recorded policy file call (hpolicy call List.mem_cons_self)
    · rw [hsame] at ih ⊢
      rw [hdenied, Bool.toNat_false, ite_self, Nat.zero_add]
      exact ih
    · have hone := hrecorded.chargesFor key
      have hgrant := Bool.toNat_le (call.granted file)
      split_ifs at hone ⊢ <;> omega

/-! ## Cooldowns -/

/-- The wall clock is below 2^63. -/
theorem toNat_unixNowSecs_lt (clock : Int64) : (unixNowSecs clock).toNat < 2 ^ 63 := by
  unfold unixNowSecs
  split_ifs with hneg
  · decide
  · have hnonneg : 0 ≤ clock.toInt := Int64.le_iff_toInt_le.mp (Int64.not_lt.mp hneg)
    have hlt := clock.toInt_lt
    have htoNat : clock.toUInt64.toNat = clock.toInt.toNat := by
      rw [Int64.toNat_toUInt64_of_le (Int64.not_lt.mp hneg)]
      rfl
    rw [htoNat]
    omega

/-- Since a charge at time `wallNow`, the entry of the pair carries the stamps of a charge
that was not earlier. -/
def Cooling (policy : LastGoodFallbackPolicy) (key : Ipv4Addr × List Ipv4Addr) (wallNow : Nat)
    (entries : List BudgetEntry) : Prop :=
  ∃ e ∈ entries, e.key = key ∧ wallNow ≤ e.lastUsedUnixSecs ∧ e.lastUsedUnixSecs < 2 ^ 63 ∧
    e.notBeforeUnixSecs = satAdd e.lastUsedUnixSecs policy.cooldownSecs

/-- A charge starts the cooldown of its pair. -/
theorem Recorded.cooling_new {wallNow : Nat} {key : Ipv4Addr × List Ipv4Addr}
    {entries next : List BudgetEntry} (h : Recorded policy wallNow key entries next)
    (hwall : wallNow < 2 ^ 63) : Cooling policy key wallNow next := by
  obtain ⟨e, he, hkey, hlast, hrest⟩ := h.stamped
  refine ⟨e, he, hkey, ?_, ?_, ?_⟩
  · rw [hlast]
  · rw [hlast]
    exact hwall
  · rw [hrest, hlast]

/-- A charge keeps the cooldown of every pair. -/
theorem Recorded.cooling {wallNow since : Nat} {key key' : Ipv4Addr × List Ipv4Addr}
    {entries next : List BudgetEntry} (h : Recorded policy wallNow key entries next)
    (hwall : wallNow < 2 ^ 63) (hc : Cooling policy key' since entries) :
    Cooling policy key' since next := by
  obtain ⟨e, he, hkey, hsince, hlt, hrest⟩ := hc
  obtain hsame | ⟨-, -, hcool, hagain⟩ := h.kept he
  · exact ⟨e, hsame, hkey, hsince, hlt, hrest⟩
  · refine ⟨_, hagain, hkey, ?_, hwall, rfl⟩
    change since ≤ wallNow
    rw [hrest] at hcool
    unfold satAdd u64Max at hcool
    omega

/-- A charge of a cooling pair comes after the cooldown. -/
theorem Recorded.after_cooldown {wallNow since : Nat} {key : Ipv4Addr × List Ipv4Addr}
    {entries next : List BudgetEntry} (h : Recorded policy wallNow key entries next)
    (hnodup : (entries.map BudgetEntry.key).Nodup) (hc : Cooling policy key since entries) :
    since + policy.cooldownSecs ≤ wallNow := by
  obtain ⟨e, he, hkey, hsince, hlt, hrest⟩ := hc
  have hcool := h.cooled hnodup he hkey
  have hsecs : policy.cooldownSecs ≤ u64Max / 1000 :=
    Nat.div_le_div_right (Nat.min_le_right _ _)
  rw [hrest] at hcool
  unfold satAdd u64Max at hcool
  unfold u64Max at hsecs
  omega

/-- Two granted charges of a pair are a cooldown apart. -/
theorem grants_apart {between : List ChargeCall} {call' : ChargeCall}
    (hpolicy : ∀ c ∈ call :: between ++ [call'], c.controller.policy = policy)
    (hclock : ∀ c ∈ call :: between ++ [call'], ∃ clock, c.wallNow = unixNowSecs clock)
    (hfile : WellKept file.entries) (hgranted : call.granted file = true)
    (hgranted' : call'.granted (fileAfterCalls file (call :: between)) = true)
    (hkey : call'.key = call.key) :
    call.wallNow.toNat + policy.cooldownSecs ≤ call'.wallNow.toNat := by
  have hbetween : ∀ c ∈ between, c ∈ call :: between ++ [call'] := fun c hc =>
    List.mem_append_left _ (List.mem_cons_of_mem _ hc)
  have hlt : ∀ c ∈ call :: between ++ [call'], c.wallNow.toNat < 2 ^ 63 := by
    intro c hc
    obtain ⟨clock, hclock⟩ := hclock c hc
    rw [hclock]
    exact toNat_unixNowSecs_lt clock
  have hfirst : call ∈ call :: between ++ [call'] := List.mem_cons_self
  have hlast : call' ∈ call :: between ++ [call'] :=
    List.mem_append_right _ (List.mem_singleton_self _)
  have hrecorded := recorded_of_granted (hpolicy call hfirst) hgranted
  have hkept : WellKept (fileAfterCalls (call.fileAfter file) between).entries :=
    fileAfterCalls_wellKept (fun c hc => hpolicy c (hbetween c hc)) (hrecorded.wellKept hfile)
  have hcooling : Cooling policy call.key call.wallNow.toNat
      (fileAfterCalls (call.fileAfter file) between).entries :=
    fileAfterCalls_entries (fun c hc => hpolicy c (hbetween c hc))
      (fun c hc _ _ h => h.cooling (hlt c (hbetween c hc)))
      (hrecorded.cooling_new (hlt call hfirst))
  have hrecorded' := recorded_of_granted (hpolicy call' hlast) hgranted'
  rw [hkey] at hrecorded'
  exact hrecorded'.after_cooldown hkept.1 hcooling

/-! ## The budget -/

/-- A missing file and one that loads are well kept. -/
theorem wellKept_start (h : file = .absent ∨ ∃ host port capacity allowPrivate wallNow s,
      loadFallbackState file host port capacity allowPrivate wallNow = .ok (some s)) :
    WellKept file.entries := by
  obtain rfl | ⟨host, port, capacity, allowPrivate, wallNow, s, hload⟩ := h
  · exact ⟨List.nodup_nil, Nat.zero_le _⟩
  · obtain ⟨rfl, -⟩ := loadFallbackState_some hload
    obtain ⟨-, -, -, haccepted⟩ := loadFallbackState_eq_some_iff.mp hload
    exact ⟨haccepted.nodup, haccepted.few⟩

/-- A new pair is refused by a full table. -/
theorem refused_of_full (hpolicy : call.controller.policy = policy)
    (hfull : file.entries.length = maxBudgetEntries)
    (hnew : call.key ∉ file.entries.map BudgetEntry.key) :
    call.granted file = false ∧ call.fileAfter file = file := by
  obtain hrefused | hrecorded := @fileAfter_recorded policy file call hpolicy
  · exact hrefused
  · cases hrecorded with
    | again before after e hsplit hkey hleft hcool hnext =>
      refine absurd ?_ hnew
      rw [hsplit, ← hkey]
      exact List.mem_map_of_mem (List.mem_append_right _ List.mem_cons_self)
    | first _ hroom hnext => omega

/-- The budget of a pair of address and DNS set, for a policy of `parse_args`, over any sequence of
charges by any controllers with it, at any system times, from an absent file or one that
`load_fallback_state` accepts. The pairs of the entries differ, there are at most 16, and none is
dropped. Every granted charge stays recorded, a charge is granted only while fewer than the
attempts of the policy are recorded for its pair, and two grants for one pair are the cooldown
apart, rounded up to seconds. A 17th pair is refused. The bytes of the file say what the
history does. -/
theorem per_set_budget {cli : FallbackArgs} {remote : EndpointSpec}
    (hparsed : fallbackPolicy cli remote = .ok policy)
    (hpolicy : ∀ call ∈ calls, call.controller.policy = policy)
    (hclock : ∀ call ∈ calls, ∃ clock, call.wallNow = unixNowSecs clock)
    (hstart : file = .absent ∨ ∃ host port capacity allowPrivate wallNow s,
      loadFallbackState file host port capacity allowPrivate wallNow = .ok (some s)) :
    (∀ earlier later, calls = earlier ++ later →
      let now := fileAfterCalls file earlier
      (now.entries.map BudgetEntry.key).Nodup ∧ now.entries.length ≤ 16 ∧
      ∀ e ∈ now.entries, ∃ e' ∈ (fileAfterCalls file calls).entries,
        e'.key = e.key ∧ e.charged ≤ e'.charged) ∧
    (∀ key, chargesFor key file.entries + grantsFor key file calls
      ≤ chargesFor key (fileAfterCalls file calls).entries) ∧
    (∀ earlier call later, calls = earlier ++ call :: later →
      let now := fileAfterCalls file earlier
      (call.granted now = true → chargesFor call.key now.entries < policy.maxAttempts.toNat) ∧
      (now.entries.length = 16 → call.key ∉ now.entries.map BudgetEntry.key →
        call.granted now = false ∧ call.fileAfter now = now)) ∧
    (∀ earlier call between call' later, calls = earlier ++ (call :: between ++ call' :: later) →
      call.granted (fileAfterCalls file earlier) = true →
      call'.granted (fileAfterCalls file (earlier ++ call :: between)) = true →
      call'.key = call.key →
      call.wallNow.toNat + (policy.cooldownMs.toNat + 999) / 1000 ≤ call'.wallNow.toNat) ∧
    ∀ contents, file = .ofContents contents → (∀ call ∈ calls, call.Writable) →
      .ofContents (contentsAfterCalls contents calls) = fileAfterCalls file calls := by
  have haccepted := fallbackPolicy_accepted hparsed
  have hstart := wellKept_start hstart
  have hkept : ∀ earlier later, calls = earlier ++ later →
      WellKept (fileAfterCalls file earlier).entries := by
    rintro earlier later rfl
    exact fileAfterCalls_wellKept (fun c hc => hpolicy c (List.mem_append_left _ hc)) hstart
  refine ⟨?_, fun key => chargesFor_grants key hpolicy, ?_, ?_, ?_⟩
  · intro earlier later hcalls
    refine ⟨(hkept earlier later hcalls).1, (hkept earlier later hcalls).2, fun e he => ?_⟩
    subst hcalls
    rw [fileAfterCalls_append]
    exact fileAfterCalls_keeps (fun c hc => hpolicy c (List.mem_append_right _ hc)) he
  · intro earlier call later hcalls
    have hcall : call.controller.policy = policy := by
      refine hpolicy call ?_
      rw [hcalls]
      exact List.mem_append_right _ List.mem_cons_self
    refine ⟨fun hgranted => ?_, refused_of_full hcall⟩
    rw [← max_eq_right (UInt32.le_iff_toNat_le.mp haccepted.maxAttempts.1)]
    exact (recorded_of_granted hcall hgranted).chargesFor_lt (hkept earlier _ hcalls).1
  · intro earlier call between call' later hcalls hgranted hgranted' hkey
    rw [fileAfterCalls_append] at hgranted'
    have hmem : ∀ c ∈ call :: between ++ [call'], c ∈ calls := by
      intro c hc
      rw [hcalls]
      refine List.mem_append_right _ ?_
      obtain hc | hc := List.mem_append.mp hc
      · exact List.mem_append_left _ hc
      · rw [List.mem_singleton.mp hc]
        exact List.mem_append_right _ List.mem_cons_self
    have hapart := grants_apart (fun c hc => hpolicy c (hmem c hc))
      (fun c hc => hclock c (hmem c hc)) (hkept earlier _ hcalls) hgranted hgranted' hkey
    have hceil : policy.cooldownSecs = (policy.cooldownMs.toNat + 999) / 1000 := by
      have hcooldown := haccepted.cooldown
      unfold LastGoodFallbackPolicy.cooldownSecs satAdd u64Max
      omega
    rwa [hceil] at hapart
  · rintro contents rfl hcalls
    exact ofContents_contentsAfterCalls hcalls

/-- A controller of `x:443` that may charge, with `8.8.8.8` in DNS. -/
def chargingController : Controller :=
  { Controller.blank (.hostname [120] 443) { lastGoodFallback := { enabled := true } } 0 with
    candidates := [.replicate 4 8], fallbackStatePath := true }

/-- Its charge of `9.9.9.9` at a time. -/
def chargeAt (clock : Int64) : ChargeCall :=
  ⟨chargingController, unixNowSecs clock, .replicate 4 9, true, .written⟩

/-- Of three charges the one within the cooldown is refused. -/
theorem per_set_budget_three_charges :
    grantsFor (chargeAt 0).key .absent [chargeAt 1000, chargeAt 1299, chargeAt 1300] = 2 ∧
    (chargeAt 1000).wallNow.toNat + (300000 + 999) / 1000 ≤ (chargeAt 1300).wallNow.toNat := by
  have hbudget := @per_set_budget { enabled := true } .absent
    [chargeAt 1000, chargeAt 1299, chargeAt 1300] { fifo := true, lastGoodFallback := true }
    (.hostname [120] 443) (by decide +kernel) ?_ ?_ (.inl rfl)
  · exact ⟨by decide +kernel, hbudget.2.2.2.1 [] (chargeAt 1000) [chargeAt 1299] (chargeAt 1300) []
      rfl (by decide +kernel) (by decide +kernel) rfl⟩
  · simp [chargeAt, chargingController, Controller.policy, Controller.blank]
  · simp only [List.forall_mem_cons]
    exact ⟨⟨1000, rfl⟩, ⟨1299, rfl⟩, ⟨1300, rfl⟩, List.forall_mem_nil _⟩

end Udp2raw
