import Udp2raw.Endpoint.Cycle

/-!
# What the controller's operations do

One lemma per operation says what it can change. The bookkeeping of rounds,
queries and charges leaves the endpoint, the committed address and the authority
to return to it alone, or gives authority up (`Continues`). A cycle either
continues so, or leaves for an address that DNS lists or that is paid for
(`Cycled`).
-/

namespace Udp2raw

/-! ## What one charge does -/

/-- A state that loads is the file's and within the capacity. -/
theorem loadFallbackState_some {file : StateFile} {host : List UInt8} {port : UInt16}
    {capacity wallNow : Nat} {allowPrivate : Bool} {s : FallbackState}
    (h : loadFallbackState file host port capacity allowPrivate wallNow = .ok (some s)) :
    file = .document host port s ∧ s.globalTokens ≤ capacity := by
  unfold loadFallbackState at h
  split at h
  · cases h
  · cases h
  · split_ifs at h with hlen hid htokens
    cases h
    obtain ⟨rfl, rfl⟩ : _ = host ∧ _ = port := by simpa using hid
    exact ⟨rfl, by omega⟩

/-- Only an absent file loads as nothing. -/
theorem loadFallbackState_none {file : StateFile} {host : List UInt8} {port : UInt16}
    {capacity wallNow : Nat} {allowPrivate : Bool}
    (h : loadFallbackState file host port capacity allowPrivate wallNow = .ok none) :
    file = .absent := by
  unfold loadFallbackState at h
  split at h
  · rfl
  · cases h
  · split_ifs at h
    cases h

/-- A charge replaces the file only by a charged version of what it loaded, and is granted
only if that write succeeded. -/
theorem lockedCharge_cases (policy : LastGoodFallbackPolicy) (host : List UInt8) (port : UInt16)
    (allowPrivate : Bool) (wallNow : Nat) (candidate : Ipv4Addr) (dnsSet : List Ipv4Addr)
    (io : ChargeIo) :
    lockedCharge policy host port allowPrivate wallNow candidate dnsSet io = .denied ∨
    lockedCharge policy host port allowPrivate wallNow candidate dnsSet io = .failed ∨
    ∃ loaded next,
      loadFallbackState io.file host port policy.globalCapacity.toNat allowPrivate wallNow
        = .ok loaded ∧
      precharged (loaded.getD (.new policy.globalCapacity.toNat wallNow)) policy wallNow
        candidate dnsSet = some next ∧
      (lockedCharge policy host port allowPrivate wallNow candidate dnsSet io = .charged next ∨
       lockedCharge policy host port allowPrivate wallNow candidate dnsSet io
         = .unsynced next) := by
  unfold lockedCharge
  split_ifs with hlocked
  · exact .inr (.inl rfl)
  · split
    · exact .inr (.inl rfl)
    next loaded hload =>
      dsimp only
      split
      · exact .inl rfl
      next next hnext =>
        cases io.write with
        | written => exact .inr (.inr ⟨loaded, next, hload, hnext, .inl rfl⟩)
        | refused => exact .inr (.inl rfl)
        | unsynced => exact .inr (.inr ⟨loaded, next, hload, hnext, .inr rfl⟩)

namespace Controller

/-- How a charge ends: it leaves the file alone and is not granted, or it replaces it by a
charged version of what it loaded and is granted if that is known to have succeeded. -/
theorem chargeFallback_cases (c : Controller) (wallNow : Nat) (candidate : Ipv4Addr)
    (io : ChargeIo) :
    ((c.chargeFallback wallNow candidate io).1 = false ∧
      (c.chargeFallback wallNow candidate io).2.2 = []) ∨
    ∃ name loaded next, c.spec.name? = some name ∧
      loadFallbackState io.file name c.spec.port c.policy.globalCapacity.toNat
        c.opts.allowPrivate wallNow = .ok loaded ∧
      precharged (loaded.getD (.new c.policy.globalCapacity.toNat wallNow)) c.policy wallNow
        candidate c.canonicalCandidates = some next ∧
      (c.chargeFallback wallNow candidate io).2.2
        = [.stateWritten next (c.chargeFallback wallNow candidate io).1] := by
  unfold chargeFallback
  split_ifs with husable
  · exact .inl ⟨rfl, rfl⟩
  · cases hname : c.spec.name? with
    | none => exact .inl ⟨rfl, rfl⟩
    | some name =>
      obtain h | h | ⟨loaded, next, hload, hnext, h | h⟩ := lockedCharge_cases c.policy name
        c.spec.port c.opts.allowPrivate wallNow candidate c.canonicalCandidates io
      all_goals simp only [h]
      · exact .inl ⟨trivial, trivial⟩
      · exact .inl ⟨trivial, trivial⟩
      · exact .inr ⟨name, loaded, next, rfl, hload, hnext, rfl⟩
      · exact .inr ⟨name, loaded, next, rfl, hload, hnext, rfl⟩

/-! ## Continuing at the current endpoint -/

/-- From `c₀` to `c` the endpoint and the committed address are the same, and authority to
return to an old address is kept or given up. -/
structure Continues (c₀ c : Controller) : Prop where
  spec : c.spec = c₀.spec
  opts : c.opts = c₀.opts
  current : c.current = c₀.current
  authenticated : c.currentAuthenticated = c₀.currentAuthenticated
  committed : c.committedGood = c₀.committedGood
  attended : c.attendedCutover = true → c₀.attendedCutover = true
  probation : c.probation = c₀.probation ∨ c.probation = none

variable {c₀ c c' : Controller} {nowMs wallNow : Nat} {cur : Ipv4Addr}

theorem Continues.refl (c : Controller) : Continues c c :=
  ⟨rfl, rfl, rfl, rfl, rfl, id, .inl rfl⟩

theorem Continues.trans (h : Continues c₀ c) (h' : Continues c c') : Continues c₀ c' where
  spec := h'.spec.trans h.spec
  opts := h'.opts.trans h.opts
  current := h'.current.trans h.current
  authenticated := h'.authenticated.trans h.authenticated
  committed := h'.committed.trans h.committed
  attended := h.attended ∘ h'.attended
  probation := by
    obtain hp | hp := h'.probation
    · rw [hp]
      exact h.probation
    · exact .inr hp

theorem Continues.currentV4 (h : Continues c₀ c) : c.currentV4 = c₀.currentV4 := by
  simp only [Controller.currentV4, h.current]

/-- When the committed address was last proven: by activity, and until when by the cache. -/
def provenAt (c : Controller) : Option Nat × Option Nat :=
  (c.committedRuntimeActivityMs, c.cacheFreshUntilMs)

/-- What decides when DNS is asked: the two flags, the end of the answer's life, whether there
are candidates, and the backoff. -/
def querySchedule (c : Controller) : Bool × Bool × Option Nat × Bool × Backoff :=
  (c.forceRefresh, c.reconnectRefreshPending, c.expiresAtMs, c.candidates.isEmpty, c.backoff)

/-- What no decision touches. -/
def background (c : Controller) :
    (Option Nat × Option Nat) × (Bool × Bool × Option Nat × Bool × Backoff) :=
  (c.provenAt, c.querySchedule)

/-- Only rounds, failures, the authority to return and the trust in the budget's file change. -/
structure Keeps (c₀ c : Controller) : Prop extends Continues c₀ c where
  candidates : c.candidates = c₀.candidates
  background : c.background = c₀.background

theorem Keeps.refl (c : Controller) : Keeps c c := ⟨.refl c, rfl, rfl⟩

theorem Keeps.trans (h : Keeps c₀ c) (h' : Keeps c c') : Keeps c₀ c' :=
  ⟨h.toContinues.trans h'.toContinues, h'.candidates.trans h.candidates,
    h'.background.trans h.background⟩

theorem keeps_giveUp (c : Controller) : Keeps c { c with attendedCutover := false } :=
  ⟨⟨rfl, rfl, rfl, rfl, rfl, nofun, .inl rfl⟩, rfl, rfl⟩

theorem keeps_endRound (c : Controller) :
    Keeps c { c with preferredRoundDeadlineMs := none, preferredAttempts := 0 } :=
  ⟨⟨rfl, rfl, rfl, rfl, rfl, id, .inl rfl⟩, rfl, rfl⟩

/-- Starting a round changes the round only. -/
theorem keeps_startPreferredRound (c : Controller) (nowMs : Nat) :
    Keeps c (c.startPreferredRound nowMs) := by
  unfold startPreferredRound
  split_ifs
  · exact ⟨⟨rfl, rfl, rfl, rfl, rfl, id, .inl rfl⟩, rfl, rfl⟩
  · exact .refl c

theorem keeps_countFailure (c : Controller) (nowMs : Nat) : Keeps c (c.countFailure nowMs) :=
  (keeps_startPreferredRound c nowMs).trans ⟨⟨rfl, rfl, rfl, rfl, rfl, id, .inl rfl⟩, rfl, rfl⟩

/-- Only a host name is dynamic. -/
theorem name_ne_none (hd : c.isDynamic = true) : c.spec.name? ≠ none := by
  unfold isDynamic at hd
  cases hspec : c.spec with
  | literal addr port =>
    rw [hspec] at hd
    cases hd
  | hostname name port => exact Option.some_ne_none name

/-- A query changes what is known of DNS, the backoff and the counts of failures. -/
theorem query_frame (c : Controller) (nowMs : Nat) (answer : Option DnsAnswer) (random : UInt32) :
    ∃ candidates expires backoff failures attempts, (c.query nowMs answer random).2 = { c with
      candidates := candidates
      expiresAtMs := expires
      backoff := backoff
      preferredFailures := failures
      preferredAttempts := attempts } := by
  unfold query
  split_ifs
  · exact ⟨_, _, _, _, _, rfl⟩
  · cases answer with
    | none => exact ⟨_, _, _, _, _, rfl⟩
    | some ans =>
      dsimp only
      split_ifs <;> exact ⟨_, _, _, _, _, rfl⟩

theorem continues_query (c : Controller) (nowMs : Nat) (answer : Option DnsAnswer)
    (random : UInt32) : Continues c (c.query nowMs answer random).2 := by
  obtain ⟨_, _, _, _, _, h⟩ := query_frame c nowMs answer random
  rw [h]
  exact ⟨rfl, rfl, rfl, rfl, rfl, id, .inl rfl⟩

theorem round_query (c : Controller) (nowMs : Nat) (answer : Option DnsAnswer) (random : UInt32) :
    (c.query nowMs answer random).2.preferredRoundDeadlineMs = c.preferredRoundDeadlineMs := by
  obtain ⟨_, _, _, _, _, h⟩ := query_frame c nowMs answer random
  rw [h]

/-- A charge changes the use of the file at most. -/
theorem keeps_chargeFallback (c : Controller) (wallNow : Nat) (candidate : Ipv4Addr)
    (io : ChargeIo) : Keeps c (c.chargeFallback wallNow candidate io).2.1 := by
  unfold chargeFallback
  split_ifs
  · exact .refl c
  · split
    · exact .refl c
    · split
      · exact ⟨⟨rfl, rfl, rfl, rfl, rfl, id, .inl rfl⟩, rfl, rfl⟩
      · exact .refl c
      · exact ⟨⟨rfl, rfl, rfl, rfl, rfl, id, .inl rfl⟩, rfl, rfl⟩
      · exact ⟨⟨rfl, rfl, rfl, rfl, rfl, id, .inl rfl⟩, rfl, rfl⟩

/-! ## Events -/

/-- The events leave the cache file alone. -/
def Uncached (events : List EndpointEvent) : Prop := ∀ addr, .cacheWritten addr ∉ events

/-- A granted and persisted charge is among the events. -/
def Charged (events : List EndpointEvent) : Prop := ∃ state, .stateWritten state true ∈ events

theorem uncached_nil : Uncached [] := fun _ => List.not_mem_nil

theorem Uncached.append {a b : List EndpointEvent} (ha : Uncached a) (hb : Uncached b) :
    Uncached (a ++ b) := fun addr h => (List.mem_append.mp h).elim (ha addr) (hb addr)

/-- A charge writes the state file and nothing else. -/
theorem written_chargeFallback {candidate : Ipv4Addr} {io : ChargeIo} {e : EndpointEvent}
    (h : e ∈ (c.chargeFallback wallNow candidate io).2.2) :
    ∃ next synced, e = .stateWritten next synced := by
  obtain ⟨-, hevents⟩ | ⟨_, _, next, -, -, -, hevents⟩ :=
    c.chargeFallback_cases wallNow candidate io
  · rw [hevents] at h
    cases h
  · rw [hevents] at h
    exact ⟨next, _, List.mem_singleton.mp h⟩

theorem uncached_chargeFallback (c : Controller) (wallNow : Nat) (candidate : Ipv4Addr)
    (io : ChargeIo) : Uncached (c.chargeFallback wallNow candidate io).2.2 := by
  intro addr h
  obtain ⟨_, _, heq⟩ := written_chargeFallback h
  cases heq

/-- A granted charge is written. -/
theorem charged_chargeFallback {candidate : Ipv4Addr} {io : ChargeIo}
    (h : (c.chargeFallback wallNow candidate io).1 = true) :
    Charged (c.chargeFallback wallNow candidate io).2.2 := by
  obtain ⟨hdenied, -⟩ | ⟨_, _, next, -, -, -, hevents⟩ :=
    c.chargeFallback_cases wallNow candidate io
  · rw [hdenied] at h
    cases h
  · refine ⟨next, ?_⟩
    rw [hevents, h]
    exact List.mem_singleton_self _

/-! ## Leaving for another endpoint -/

/-- What lets a cycle leave for `target`: DNS lists it, a charge of this cycle, or authority
that is used up. -/
inductive Entitled (c₀ c : Controller) (events : List EndpointEvent) (target : Ipv4Addr) :
    Prop where
  | listed (h : target ∈ c.candidates)
  | charged (h : Charged events)
  | attended (h : c₀.attendedCutover = true) (h' : c.attendedCutover = false)
  | probation (p : Probation) (h : c₀.probation = some p)
      (hp : p.directReturn = true ∨ p.rollbackAuthorized = true) (h' : c.probation = none)

/-- What happened before does not take the entitlement away. -/
theorem Entitled.after {earlier events : List EndpointEvent} {target : Ipv4Addr}
    (h : Continues c₀ c) (he : Entitled c c' events target) :
    Entitled c₀ c' (earlier ++ events) target := by
  cases he with
  | listed hmem => exact .listed hmem
  | charged hcharged =>
    obtain ⟨state, hmem⟩ := hcharged
    exact .charged ⟨state, List.mem_append_right _ hmem⟩
  | attended ha ha' => exact .attended (h.attended ha) ha'
  | probation p hp hauth hp' =>
    obtain hsame | hnone := h.probation
    · exact .probation p (hsame ▸ hp) hauth hp'
    · rw [hnone] at hp
      cases hp

/-- What a cycle does. -/
structure Cycled (c₀ : Controller) (switch : Option Switch) (c : Controller)
    (events : List EndpointEvent) : Prop where
  uncached : Uncached events
  spec : c.spec = c₀.spec
  opts : c.opts = c₀.opts
  committed : c.committedGood = c₀.committedGood
  attended : c.attendedCutover = true → c₀.attendedCutover = true
  probation : c.probation = c₀.probation ∨ c.probation = none
  stays : switch = none →
    c.current = c₀.current ∧ c.currentAuthenticated = c₀.currentAuthenticated
  leaves : ∀ s, switch = some s → ∃ target, s.to_ = (.v4 target, c₀.spec.port) ∧
    c.current = s.to_ ∧ c.currentAuthenticated = false ∧ Entitled c₀ c events target
  moves : ∀ s, switch = some s → s.to_.1 ≠ c₀.current.1

/-- A controller that stays has done a cycle. -/
theorem Continues.cycled (h : Continues c₀ c) {events : List EndpointEvent} (hu : Uncached events) :
    Cycled c₀ none c events where
  uncached := hu
  spec := h.spec
  opts := h.opts
  committed := h.committed
  attended := h.attended
  probation := h.probation
  stays _ := ⟨h.current, h.authenticated⟩
  leaves _ hs := nomatch hs
  moves _ hs := nomatch hs

/-- The current address comes first among the candidates if it is one of them. -/
theorem mem_orderCandidates_current (h : c.currentV4 = some cur) (hmem : cur ∈ c.candidates) :
    cur ∈ c.orderCandidates.candidates := by
  simp only [orderCandidates, h, Option.filter_some, hmem, decide_true, if_true,
    Option.toList_some, List.cons_append]
  exact List.mem_of_mem_head? rfl

/-- A switch, given that the target may be gone to. -/
theorem cycled_switchTo {events : List EndpointEvent} {target : Ipv4Addr} {why : SwitchWhy}
    (h : Continues c₀ c) (hu : Uncached events) (hentitled : Entitled c₀ c events target) :
    Cycled c₀ (c.switchTo target why).1 (c.switchTo target why).2 events := by
  unfold switchTo
  split
  · exact h.cycled hu
  next cur hcur =>
    split_ifs with heq
    · exact h.cycled hu
    · refine ⟨hu, h.spec, h.opts, h.committed, h.attended, h.probation, nofun, ?_, ?_⟩
      · rintro s ⟨⟩
        refine ⟨target, by rw [← h.spec], rfl, rfl, ?_⟩
        cases hentitled with
        | listed hmem => exact .listed (mem_orderCandidates_current rfl hmem)
        | charged hc => exact .charged hc
        | attended ha ha' => exact .attended ha ha'
        | probation p hp hauth hp' => exact .probation p hp hauth hp'
      · rintro s ⟨⟩ hsame
        rw [h.currentV4, currentV4, ← hsame] at hcur
        exact heq (Option.some.inj hcur)

/-- What happens before a cycle's decision does not weaken what is said of the cycle. -/
theorem Cycled.after {switch : Option Switch} {earlier events : List EndpointEvent}
    (h : Continues c₀ c) (hu : Uncached earlier) (hc : Cycled c switch c' events) :
    Cycled c₀ switch c' (earlier ++ events) where
  uncached := hu.append hc.uncached
  spec := hc.spec.trans h.spec
  opts := hc.opts.trans h.opts
  committed := hc.committed.trans h.committed
  attended := h.attended ∘ hc.attended
  probation := by
    obtain hp | hp := hc.probation
    · rw [hp]
      exact h.probation
    · exact .inr hp
  stays hs := by
    obtain ⟨hcur, hauth⟩ := hc.stays hs
    exact ⟨hcur.trans h.current, hauth.trans h.authenticated⟩
  leaves s hs := by
    obtain ⟨target, hto, hcur, hauth, hentitled⟩ := hc.leaves s hs
    exact ⟨target, by rw [hto, h.spec], hcur, hauth, hentitled.after h⟩
  moves s hs := by
    rw [← h.current]
    exact hc.moves s hs

/-! ## What a decision can do -/

/-- A fresh committed address is the committed one. -/
theorem committed_of_committedFresh {good : Ipv4Addr} (h : c.committedFresh nowMs cur = some good) :
    c.committedGood = some good := by
  unfold committedFresh at h
  obtain ⟨d, hd, h⟩ := Option.bind_eq_some_iff.mp h
  split_ifs at h
  cases h
  unfold committedHealthDeadline at hd
  split_ifs at hd
  obtain ⟨committed, hcommitted, hd⟩ := Option.bind_eq_some_iff.mp hd
  obtain ⟨deadline, -, rfl⟩ := Option.map_eq_some_iff.mp hd
  exact hcommitted

theorem other_of_committedFresh {good : Ipv4Addr} (h : c.committedFresh nowMs cur = some good) :
    cur ≠ good := by
  unfold committedFresh at h
  obtain ⟨d, -, h⟩ := Option.bind_eq_some_iff.mp h
  split_ifs at h with hne
  obtain rfl := Option.some.inj h
  exact hne.symm

variable {ios : List ChargeIo} {events earlier : List EndpointEvent} {target : Ipv4Addr}

/-- The events are those of charges at `wallNow` for the fresh committed address, made while
another address is in use. -/
def Billed (c₀ : Controller) (wallNow : Nat) (ios : List ChargeIo)
    (events : List EndpointEvent) : Prop :=
  ∀ e ∈ events, ∃ c nowMs cur good, ∃ io ∈ ios, Keeps c₀ c ∧ c.currentV4 = some cur ∧
    c.committedFresh nowMs cur = some good ∧ e ∈ (c.chargeFallback wallNow good io).2.2

theorem billed_nil : Billed c₀ wallNow ios [] := fun _ h => absurd h List.not_mem_nil

theorem Billed.append (h : Billed c₀ wallNow ios earlier) (h' : Billed c₀ wallNow ios events) :
    Billed c₀ wallNow ios (earlier ++ events) :=
  fun e he => (List.mem_append.mp he).elim (h e) (h' e)

/-- What is billed after a step was due before it. -/
theorem Billed.after (hbefore : Keeps c₀ c) (h : Billed c wallNow ios events) :
    Billed c₀ wallNow ios events := by
  intro e he
  obtain ⟨c₁, nowMs, cur, good, io, hio, hkeeps, hrest⟩ := h e he
  exact ⟨c₁, nowMs, cur, good, io, hio, hbefore.trans hkeeps, hrest⟩

/-- A charge of the fresh committed address is billed. -/
theorem billed_chargeFallback {good : Ipv4Addr} {io : ChargeIo} (hio : io ∈ ios)
    (hcur : c.currentV4 = some cur) (hgood : c.committedFresh nowMs cur = some good) :
    Billed c wallNow ios (c.chargeFallback wallNow good io).2.2 :=
  fun _ he => ⟨c, nowMs, cur, good, io, hio, .refl c, hcur, hgood, he⟩

theorem Billed.uncached (h : Billed c₀ wallNow ios events) : Uncached events := by
  intro addr he
  obtain ⟨_, _, _, _, _, -, -, -, -, hmem⟩ := h _ he
  exact uncached_chargeFallback _ _ _ _ addr hmem

/-- The controller holds the address besides its endpoint. -/
def Names (c : Controller) (target : Ipv4Addr) : Prop :=
  target ∈ c.candidates ∨ c.committedGood = some target ∨
    ∃ p, c.probation = some p ∧ p.rollback = target

/-- What is named after a step was named before it. -/
theorem Names.after (h : Keeps c₀ c) (hn : c.Names target) : c₀.Names target := by
  obtain hmem | hgood | ⟨p, hp, hrollback⟩ := hn
  · exact .inl (h.candidates ▸ hmem)
  · exact .inr (.inl (h.committed.symm.trans hgood))
  · obtain hsame | hnone := h.probation
    · exact .inr (.inr ⟨p, hsame.symm.trans hp, hrollback⟩)
    · rw [hnone] at hp
      cases hp

/-- All that a decision can do: it stays, or it switches to an address the controller holds
and may go to. -/
inductive Decided (c₀ : Controller) (wallNow : Nat) (ios : List ChargeIo) :
    Option Switch → Controller → List EndpointEvent → Prop where
  | stays {c : Controller} {events : List EndpointEvent} (h : Keeps c₀ c)
      (hb : Billed c₀ wallNow ios events) : Decided c₀ wallNow ios none c events
  | switches {c : Controller} {events : List EndpointEvent} {target : Ipv4Addr} {why : SwitchWhy}
      (h : Keeps c₀ c) (hb : Billed c₀ wallNow ios events) (hnames : c₀.Names target)
      (hentitled : Entitled c₀ c events target) :
      Decided c₀ wallNow ios (c.switchTo target why).1 (c.switchTo target why).2 events

/-- What is kept before a decision is kept by both together. -/
theorem Decided.after {switch : Option Switch} (h : Keeps c₀ c)
    (hb : Billed c₀ wallNow ios earlier) (hd : Decided c wallNow ios switch c' events) :
    Decided c₀ wallNow ios switch c' (earlier ++ events) := by
  cases hd with
  | stays h' hb' => exact .stays (h.trans h') (hb.append (hb'.after h))
  | switches h' hb' hnames hentitled =>
    exact .switches (h.trans h') (hb.append (hb'.after h)) (hnames.after h)
      (hentitled.after h.toContinues)

/-- A decision writes billed charges only. -/
theorem Decided.billed {switch : Option Switch} (h : Decided c₀ wallNow ios switch c events) :
    Billed c₀ wallNow ios events := by
  cases h with
  | stays _ hb => exact hb
  | switches _ hb => exact hb

/-- A decision stays, or leaves for an address it may go to. -/
theorem Decided.cycled {switch : Option Switch} (h : Decided c₀ wallNow ios switch c events) :
    Cycled c₀ switch c events := by
  cases h with
  | stays h hb => exact h.cycled hb.uncached
  | switches h hb _ hentitled => exact cycled_switchTo h.toContinues hb.uncached hentitled

/-! ## The decisions -/

theorem mem_canonicalCandidates {ip : Ipv4Addr} (h : ip ∈ c.canonicalCandidates) :
    ip ∈ c.candidates :=
  mem_of_mem_sortDedup (List.mem_of_mem_take h)

theorem mem_of_nextDnsCandidate {next : Ipv4Addr} (h : c.nextDnsCandidate cur = some next) :
    next ∈ c.candidates := by
  unfold nextDnsCandidate at h
  dsimp only at h
  split_ifs at h
  exact mem_canonicalCandidates (List.mem_of_getElem? h)

/-- A move to the next DNS candidate, if there is another one. -/
theorem decided_nextCandidate (c : Controller) (cur : Ipv4Addr) (why : Ipv4Addr → SwitchWhy) :
    let decision := match (c.nextDnsCandidate cur).filter (· ≠ cur) with
      | some next => c.switchTo next (why next)
      | none => (none, c)
    Decided c wallNow ios decision.1 decision.2 [] := by
  dsimp only
  split
  next next hnext =>
    have hmem : next ∈ c.candidates :=
      mem_of_nextDnsCandidate (Option.filter_eq_some_iff.mp hnext).1
    exact .switches (.refl c) billed_nil (.inl hmem) (.listed hmem)
  next => exact .stays (.refl c) billed_nil

/-- A rollback decides. -/
theorem decided_selectRollback (c : Controller) :
    Decided c wallNow ios c.selectRollback.1 c.selectRollback.2 [] := by
  unfold selectRollback
  split
  · exact .stays (.refl c) billed_nil
  next p hp =>
    split_ifs with hauth
    · exact .stays (.refl c) billed_nil
    · refine .switches ⟨⟨rfl, rfl, rfl, rfl, rfl, nofun, .inr rfl⟩, rfl, rfl⟩ billed_nil
        (.inr (.inr ⟨p, hp, rfl⟩)) ?_
      exact .probation p hp (.inr (by simpa using hauth)) rfl

/-- A forced cycle decides. -/
theorem decided_selectForced (c : Controller) (nowMs : Nat) (cur : Ipv4Addr)
    (querySucceeded : Option Bool) :
    Decided c wallNow ios (c.selectForced nowMs cur querySucceeded).1
      (c.selectForced nowMs cur querySucceeded).2 [] := by
  have hgiveUp : Decided c wallNow ios none { c with attendedCutover := false } [] :=
    .stays (keeps_giveUp c) billed_nil
  have hround := keeps_startPreferredRound c nowMs
  unfold selectForced
  split_ifs
  · exact .stays ⟨⟨rfl, rfl, rfl, rfl, rfl, nofun, .inl rfl⟩, rfl, rfl⟩ billed_nil
  · exact hgiveUp
  · split
    · exact hgiveUp
    next target rest hcandidates =>
      have hmem : target ∈ c.candidates := by
        rw [hcandidates]
        exact List.mem_cons_self
      dsimp only
      split_ifs
      · exact hgiveUp
      · exact .stays (hround.trans (keeps_giveUp _)) billed_nil
      · exact .switches hround billed_nil (.inl hmem) (.listed (hround.candidates ▸ hmem))

theorem switchTo_of_ne {x a : Ipv4Addr} {why : SwitchWhy} (hcur : c.currentV4 = some x)
    (hne : a ≠ x) : (c.switchTo a why).1 = some ⟨c.current, (.v4 a, c.spec.port), why⟩ := by
  simp only [switchTo, hcur, if_neg hne]

/-- A forced decision with another address first switches to it, unless that would outlive the
committed address. -/
theorem selectForced_eq_switchTo {target : Ipv4Addr} {rest : List Ipv4Addr}
    (hexpired : c.roundExpired nowMs = false) (hcandidates : c.candidates = target :: rest)
    (hne : target ≠ cur) (hfresh : c.policy.enabled = true → c.committedGood = some cur →
      (c.startPreferredRound nowMs).freshThroughCutover nowMs = true) :
    c.selectForced nowMs cur (some true)
      = (c.startPreferredRound nowMs).switchTo target (.attendedCutover target) := by
  have hround := keeps_startPreferredRound c nowMs
  have hkept : ¬ ((c.startPreferredRound nowMs).policy.enabled = true ∧
      (c.startPreferredRound nowMs).committedGood = some cur ∧
      (c.startPreferredRound nowMs).freshThroughCutover nowMs = false) := by
    rintro ⟨henabled, hgood, hstale⟩
    rw [policy, hround.opts] at henabled
    rw [hfresh henabled (hround.committed ▸ hgood)] at hstale
    cases hstale
  unfold selectForced
  rw [hexpired, hcandidates]
  dsimp only
  rw [if_neg Bool.false_ne_true, if_neg (not_not.mpr rfl), if_neg hne, if_neg hkept]

/-- A return goes to the address of the probation, which is fresh, directly or with a charge. -/
theorem returnDue_spec {io : ChargeIo} (hio : io ∈ ios) (hcur : c.currentV4 = some cur)
    (nowMs wallNow : Nat) :
    Keeps c (c.returnDue nowMs wallNow cur io).2.1 ∧
    Billed c wallNow ios (c.returnDue nowMs wallNow cur io).2.2 ∧
    ∀ rollback, (c.returnDue nowMs wallNow cur io).1 = some rollback →
      ∃ p, c.probation = some p ∧ p.rollback = rollback ∧
        c.committedFresh nowMs cur = some rollback ∧
        (p.directReturn = true ∨ Charged (c.returnDue nowMs wallNow cur io).2.2) := by
  unfold returnDue
  split
  · exact ⟨.refl c, billed_nil, nofun⟩
  next p hp =>
    split_ifs with hfresh hdirect
    · refine ⟨.refl c, billed_nil, fun rollback h => ?_⟩
      obtain rfl := Option.some.inj h
      exact ⟨p, hp, rfl, hfresh.2, .inl hdirect⟩
    · refine ⟨keeps_chargeFallback .., billed_chargeFallback hio hcur hfresh.2, ?_⟩
      intro rollback h
      dsimp only at h
      split_ifs at h with hgranted
      obtain rfl := Option.some.inj h
      exact ⟨p, hp, rfl, hfresh.2, .inr (charged_chargeFallback hgranted)⟩
    · exact ⟨.refl c, billed_nil, nofun⟩

/-- The switch that returns from a probation. -/
theorem decided_return {rollback : Ipv4Addr} {io : ChargeIo} (hio : io ∈ ios)
    (hcur : c.currentV4 = some cur) (why : SwitchWhy)
    (h : (c.returnDue nowMs wallNow cur io).1 = some rollback) :
    let left := { (c.returnDue nowMs wallNow cur io).2.1 with probation := none }
    Decided c wallNow ios (left.switchTo rollback why).1 (left.switchTo rollback why).2
      (c.returnDue nowMs wallNow cur io).2.2 := by
  obtain ⟨hkeeps, hb, hdue⟩ := returnDue_spec hio hcur nowMs wallNow
  obtain ⟨p, hp, hrollback, -, hpaid⟩ := hdue rollback h
  refine .switches (hkeeps.trans ⟨⟨rfl, rfl, rfl, rfl, rfl, id, .inr rfl⟩, rfl, rfl⟩) hb
    (.inr (.inr ⟨p, hp, hrollback⟩)) ?_
  exact hpaid.elim (fun hdirect => .probation p hp (.inl hdirect) rfl) .charged

/-- Retrying the committed address decides. -/
theorem decided_retryCommitted (c : Controller) (nowMs : Nat) (cur : Ipv4Addr) :
    Decided c wallNow ios (c.retryCommitted nowMs cur).1 (c.retryCommitted nowMs cur).2 [] := by
  unfold retryCommitted
  split_ifs
  · exact .stays (keeps_endRound c) billed_nil
  · exact Decided.after (keeps_startPreferredRound c nowMs) billed_nil
      (decided_nextCandidate _ cur (.committedFailed cur))

theorem decided_nextInRound (c : Controller) (nowMs : Nat) (cur : Ipv4Addr) :
    Decided c wallNow ios (c.nextInRound nowMs cur).1 (c.nextInRound nowMs cur).2 [] := by
  unfold nextInRound
  split_ifs
  · exact .stays (keeps_endRound c) billed_nil
  · exact decided_nextCandidate c cur (.handshakeFailed cur)

/-- The probe of a failed round goes to the committed address, if that is fresh, and is charged
for. -/
theorem probeDue_spec {io : ChargeIo} (hio : io ∈ ios) (hcur : c.currentV4 = some cur)
    (nowMs wallNow : Nat) :
    Keeps c (c.probeDue nowMs wallNow cur io).2.1 ∧
    Billed c wallNow ios (c.probeDue nowMs wallNow cur io).2.2 ∧
    ∀ good, (c.probeDue nowMs wallNow cur io).1 = some good →
      c.committedFresh nowMs cur = some good ∧
      Charged (c.probeDue nowMs wallNow cur io).2.2 := by
  unfold probeDue
  split_ifs
  · split
    next good hgood =>
      refine ⟨keeps_chargeFallback .., billed_chargeFallback hio hcur hgood, fun good' h => ?_⟩
      dsimp only at h
      split_ifs at h with hgranted
      obtain rfl := Option.some.inj h
      exact ⟨hgood, charged_chargeFallback hgranted⟩
    next => exact ⟨.refl c, billed_nil, nofun⟩
  · exact ⟨.refl c, billed_nil, nofun⟩

theorem decided_candidateFailed {io : ChargeIo} (hio : io ∈ ios) (hcur : c.currentV4 = some cur) :
    Decided c wallNow ios (c.candidateFailed nowMs wallNow cur io).1
      (c.candidateFailed nowMs wallNow cur io).2.1
      (c.candidateFailed nowMs wallNow cur io).2.2 := by
  have hcount := keeps_countFailure c nowMs
  obtain ⟨hprobe, hb, hgood⟩ := probeDue_spec hio (hcount.currentV4.trans hcur) nowMs wallNow
  unfold candidateFailed
  split
  next good c₁ events heq =>
    rw [heq] at hprobe hb hgood
    obtain ⟨hfresh, hcharged⟩ := hgood good rfl
    have hcommitted := hcount.committed.symm.trans (committed_of_committedFresh hfresh)
    refine .switches ((hcount.trans hprobe).trans ?_) (hb.after hcount) (.inr (.inl hcommitted))
      (.charged hcharged)
    exact ⟨⟨rfl, rfl, rfl, rfl, rfl, id, .inl rfl⟩, rfl, rfl⟩
  next c₁ events heq =>
    rw [heq] at hprobe hb
    have h := Decided.after (hcount.trans hprobe) (hb.after hcount)
      (decided_nextInRound c₁ nowMs cur)
    rwa [List.append_nil] at h

/-- A failed attempt decides. -/
theorem decided_attemptFailed {io : ChargeIo} (hio : io ∈ ios) (hcur : c.currentV4 = some cur) :
    Decided c wallNow ios (c.attemptFailed nowMs wallNow cur io).1
      (c.attemptFailed nowMs wallNow cur io).2.1
      (c.attemptFailed nowMs wallNow cur io).2.2 := by
  unfold attemptFailed
  split
  next rollback hrollback =>
    split_ifs at hrollback with hattended
    exact .switches (keeps_giveUp c) billed_nil
      (.inr (.inl (Option.filter_eq_some_iff.mp hrollback).1)) (.attended hattended rfl)
  next =>
    split_ifs
    · exact decided_retryCommitted c nowMs cur
    · exact decided_candidateFailed hio hcur

theorem decided_leaveUnlisted (c : Controller) (nowMs : Nat) (cur : Ipv4Addr) :
    Decided c wallNow ios (c.leaveUnlisted nowMs cur).1 (c.leaveUnlisted nowMs cur).2 [] := by
  have hround := keeps_startPreferredRound c nowMs
  unfold leaveUnlisted
  split_ifs
  · dsimp only
    split
    next target htarget =>
      have hmem := mem_canonicalCandidates (List.mem_of_mem_head? htarget)
      exact .switches hround billed_nil (.inl (hround.candidates ▸ hmem)) (.listed hmem)
    next => exact .stays hround billed_nil
  · exact .stays (.refl c) billed_nil

/-- Every decision stays, or leaves for an address it may go to. -/
theorem decided_select (c : Controller) (nowMs wallNow : Nat) (reason : CycleReason)
    (querySucceeded : Option Bool) (io : CycleIo) :
    Decided c wallNow [io.returnCharge, io.probeCharge]
      (c.select nowMs wallNow reason querySucceeded io).1
      (c.select nowMs wallNow reason querySucceeded io).2.1
      (c.select nowMs wallNow reason querySucceeded io).2.2 := by
  have hio : io.returnCharge ∈ [io.returnCharge, io.probeCharge] := List.mem_cons_self
  unfold select
  split
  · exact .stays (.refl c) billed_nil
  next cur hcur =>
    obtain ⟨hkeeps, hb, -⟩ := returnDue_spec hio hcur nowMs wallNow
    cases reason with
    | startup => exact .stays (.refl c) billed_nil
    | attemptFailed =>
      dsimp only
      unfold selectAttemptFailed
      split
      next rollback c₁ events heq =>
        have h := decided_return hio hcur (.probationFailed cur rollback) (congrArg Prod.fst heq)
        rwa [heq] at h
      next c₁ events heq =>
        rw [heq] at hkeeps hb
        exact Decided.after hkeeps hb (decided_attemptFailed
          (List.mem_cons_of_mem _ (List.mem_singleton_self _)) (hkeeps.currentV4.trans hcur))
    | sessionLost =>
      dsimp only
      unfold selectSessionLost
      split
      next rollback c₁ events heq =>
        have h := decided_return hio hcur (.probationLost cur rollback) (congrArg Prod.fst heq)
        rwa [heq] at h
      next c₁ events heq =>
        rw [heq] at hkeeps hb
        have h := Decided.after hkeeps hb (decided_leaveUnlisted c₁ nowMs cur)
        rwa [List.append_nil] at h
    | forced => exact decided_selectForced c nowMs cur querySucceeded
    | probationExpired => exact decided_selectRollback c
    | operatorRollback => exact decided_selectRollback c

/-- A decision does not ask DNS. -/
theorem not_queried_select (c : Controller) (nowMs wallNow : Nat) (reason : CycleReason)
    (querySucceeded : Option Bool) (io : CycleIo) :
    .queried ∉ (c.select nowMs wallNow reason querySucceeded io).2.2 := by
  intro h
  obtain ⟨_, _, _, _, _, -, -, -, -, hmem⟩ := (decided_select ..).billed _ h
  obtain ⟨_, _, heq⟩ := written_chargeFallback hmem
  cases heq

theorem keeps_openRound (c : Controller) (nowMs : Nat) (reason : CycleReason) :
    Keeps c (c.openRound nowMs reason) := by
  unfold openRound
  split_ifs
  · exact keeps_startPreferredRound c nowMs
  · exact .refl c

theorem continues_noteLoss (c : Controller) (reason : CycleReason) :
    Continues c (c.noteLoss reason) := by
  unfold noteLoss
  split_ifs
  · exact ⟨rfl, rfl, rfl, rfl, rfl, id, .inl rfl⟩
  · exact .refl c

/-- A refresh continues the controller and writes no cache. -/
theorem refresh_spec (c : Controller) (nowMs : Nat) (reason : CycleReason) (io : CycleIo) :
    Continues c (c.refresh nowMs reason io).2.1 ∧
      Uncached (c.refresh nowMs reason io).2.2 := by
  have hround := (keeps_openRound c nowMs reason).toContinues
  have hclear : Continues c { c.openRound nowMs reason with forceRefresh := false } :=
    hround.trans ⟨rfl, rfl, rfl, rfl, rfl, id, .inl rfl⟩
  unfold refresh
  dsimp only
  split_ifs
  · refine ⟨hclear.trans (continues_query ..), fun addr h => ?_⟩
    cases List.mem_singleton.mp h
  · exact ⟨hround, uncached_nil⟩

/-- A refresh opens a round, if the reason asks for one and none is open. -/
theorem round_refresh (c : Controller) (nowMs : Nat) (reason : CycleReason) (io : CycleIo) :
    (c.refresh nowMs reason io).2.1.preferredRoundDeadlineMs
      = (c.openRound nowMs reason).preferredRoundDeadlineMs := by
  unfold refresh
  dsimp only
  split_ifs
  · exact round_query ..
  · rfl

/-- The controller that asks DNS in a cycle. -/
def asking (c : Controller) (nowMs : Nat) (reason : CycleReason) : Controller :=
  { (c.noteLoss reason).openRound nowMs reason with forceRefresh := false }

theorem continues_asking (c : Controller) (nowMs : Nat) (reason : CycleReason) :
    Continues c (c.asking nowMs reason) :=
  ((continues_noteLoss c reason).trans (keeps_openRound _ nowMs reason).toContinues).trans
    ⟨rfl, rfl, rfl, rfl, rfl, id, .inl rfl⟩

/-- What a cycle decides with: whether a query succeeded, the controller, and what was done. -/
def asked (c : Controller) (nowMs : Nat) (reason : CycleReason) (io : CycleIo) :
    Option Bool × Controller × List EndpointEvent :=
  if (c.noteLoss reason).refreshIsDue nowMs then (c.noteLoss reason).refresh nowMs reason io
  else (none, c.noteLoss reason, [])

/-- The clocks by which a cycle decides: those after the refresh, if one was due. -/
def decidedAt (c : Controller) (nowMs wallNow : Nat) (reason : CycleReason) (io : CycleIo) :
    Nat × Nat :=
  if (c.noteLoss reason).refreshIsDue nowMs then (io.laterMs, io.laterWall) else (nowMs, wallNow)

/-- A cycle of a host name asks, if that is due, and decides. -/
theorem onCycle_eq (hd : c.isDynamic = true) (nowMs wallNow : Nat) (reason : CycleReason)
    (io : CycleIo) : c.onCycle nowMs wallNow reason io =
      let asked := c.asked nowMs reason io
      let clocks := c.decidedAt nowMs wallNow reason io
      let selected := asked.2.1.select clocks.1 clocks.2 reason asked.1 io
      (selected.1, selected.2.1, asked.2.2 ++ selected.2.2) := by
  unfold onCycle asked decidedAt
  rw [hd, if_neg (by decide)]
  dsimp only
  split_ifs
  · rfl
  · rfl

/-- A cycle asks if a refresh is due and the backoff allows it. -/
theorem asked_cases (c : Controller) (nowMs : Nat) (reason : CycleReason) (io : CycleIo) :
    let q := (c.asking nowMs reason).query nowMs io.answer io.random
    ((c.noteLoss reason).refreshIsDue nowMs = true ∧ c.backoff.ready nowMs = true ∧
      c.asked nowMs reason io = (some q.1, q.2, [.queried])) ∨
    (¬ ((c.noteLoss reason).refreshIsDue nowMs = true ∧ c.backoff.ready nowMs = true) ∧
      ∃ c₁, Keeps (c.noteLoss reason) c₁ ∧ c.asked nowMs reason io = (none, c₁, [])) := by
  have hround := keeps_openRound (c.noteLoss reason) nowMs reason
  have hbackoff : ((c.noteLoss reason).openRound nowMs reason).backoff = c.backoff := by
    refine (congrArg (fun b => b.2.2.2.2.2) hround.background).trans ?_
    unfold noteLoss
    split_ifs <;> rfl
  unfold asked
  split_ifs with hdue
  · have hsame : ((c.noteLoss reason).openRound nowMs reason).backoff.ready nowMs
        = c.backoff.ready nowMs := by rw [hbackoff]
    unfold refresh
    dsimp only
    split_ifs with hready
    · exact .inl ⟨hdue, hsame ▸ hready, rfl⟩
    · exact .inr ⟨fun h => hready (hsame ▸ h.2), _, hround, rfl⟩
  · exact .inr ⟨fun h => hdue h.1, _, .refl _, rfl⟩

/-- Asking continues the controller, and at most a query is seen. -/
theorem asked_spec (c : Controller) (nowMs : Nat) (reason : CycleReason) (io : CycleIo) :
    Continues c (c.asked nowMs reason io).2.1 ∧
      ∀ e ∈ (c.asked nowMs reason io).2.2, e = .queried := by
  obtain ⟨-, -, h⟩ | ⟨-, c₁, hkeeps, h⟩ := asked_cases c nowMs reason io
  · rw [h]
    exact ⟨(continues_asking c nowMs reason).trans (continues_query ..),
      fun e he => List.mem_singleton.mp he⟩
  · rw [h]
    exact ⟨(continues_noteLoss c reason).trans hkeeps.toContinues, nofun⟩

/-- Every cycle stays, or leaves for an address it may go to. -/
theorem cycled_onCycle (c : Controller) (nowMs wallNow : Nat) (reason : CycleReason)
    (io : CycleIo) :
    Cycled c (c.onCycle nowMs wallNow reason io).1 (c.onCycle nowMs wallNow reason io).2.1
      (c.onCycle nowMs wallNow reason io).2.2 := by
  cases hd : c.isDynamic with
  | false =>
    rw [onCycle, if_pos hd]
    exact (Continues.refl c).cycled uncached_nil
  | true =>
    obtain ⟨hcont, hqueried⟩ := asked_spec c nowMs reason io
    rw [onCycle_eq hd]
    exact Cycled.after hcont (fun addr h => nomatch hqueried _ h) (decided_select ..).cycled

end Controller

end Udp2raw
