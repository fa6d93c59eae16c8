import Udp2raw.Generation.Host

/-!
# The generation guard

What a host's log must look like, and why it does for every end that lives up to
its ledger: completions arrive in the order of their jobs, and the books of the
ledger tie each job to the ids and numbers of its incarnation.
-/

namespace Udp2raw

open Program

/-- The jobs whose packets were transmitted, in order. -/
def transmitted (log : List (Option Job × Effect)) : List Job :=
  log.filterMap fun entry => match entry with
    | (job, .transmit ..) => job
    | _ => none

/-- An effect of a completion fits the job that completed: a transmitted packet is the
encryption of a plaintext whose header names the ids the connection has at that moment, sender
first; a checked batch is the one its connection received. -/
def FitsJob (work : Job → Done) (jobs : List Job) : Option Job × Effect → Prop
  | (job, .transmit key myId oppsiteId wire) => ∃ plain seq, job = some (.encrypt key plain) ∧
      .encrypt key plain ∈ jobs ∧ work (.encrypt key plain) = .encrypted key (some wire) ∧
      Wire.parseSaferIds plain = some { oppsiteId := myId, myId := oppsiteId, seq := seq }
  | (job, .check key _ _ _ _ _) => ∃ wire recv, job = some (.decrypt key wire recv) ∧
      .decrypt key wire recv ∈ jobs
  | (job, .afterRecv key _) => ∃ wire recv, job = some (.decrypt key wire recv) ∧
      .decrypt key wire recv ∈ jobs
  | _ => True

/-- What fits a job, fits it among more. -/
theorem FitsJob.mono {work : Job → Done} {jobs more : List Job} {entry : Option Job × Effect}
    (h : FitsJob work jobs entry) (hsub : ∀ job ∈ jobs, job ∈ more) : FitsJob work more entry := by
  obtain ⟨job, e⟩ := entry
  cases e <;> try exact trivial
  · obtain ⟨plain, seq, hj, hm, hw⟩ := h
    exact ⟨plain, seq, hj, hsub _ hm, hw⟩
  · obtain ⟨wire, recv, hj, hm⟩ := h
    exact ⟨wire, recv, hj, hsub _ hm⟩
  · obtain ⟨wire, recv, hj, hm⟩ := h
    exact ⟨wire, recv, hj, hsub _ hm⟩

/-- Effects of no completion need no job. -/
theorem fitsJob_of_from {work : Job → Done} {jobs : List Job} {job : Option Job} {e : Effect}
    (h : e.From none) : FitsJob work jobs (job, e) := by
  cases e with
  | transmit => cases h
  | check => obtain ⟨_, _, h, -⟩ := h; cases h
  | afterRecv => obtain ⟨_, _, h⟩ := h; cases h
  | _ => trivial

/-- The log of a host whose generations guard its connections. -/
structure Guarded (work : Job → Done) (log : List (Option Job × Effect)) : Prop where
  /-- Packets carry the ids of the connection they leave on, and batches are checked by the
  connection that received them. -/
  fits : ∀ entry ∈ log, FitsJob work (submitted (log.map Prod.snd)) entry
  /-- The sequence numbers transmitted by one incarnation increase. -/
  increasing : (transmitted log).Pairwise Job.Precedes
  /-- Jobs are submitted for, and completions applied to, the current incarnation. -/
  legal : History.Each Legal (log.map Prod.snd)
  /-- No key names two incarnations. -/
  unique : (incarnations (log.map Prod.snd)).Nodup

/-- The end `p` lives up to its ledger in states with `I` and events that stay. -/
structure Party.Lawful {σ E O : Type} (p : Party σ E O) (ledger : σ → Ledger)
    (valid : JobKey → Prop) (I : σ → Prop) (Stays : σ → E → Prop) : Prop where
  cause : ∀ o d, p.cause (p.completion o d) = some d
  steps : ∀ s ev t out, I s → Stays s ev → (∀ d, p.cause ev = some d → valid d.key) →
    p.handle ev s = .ok ((), t, out) →
    Steps Ledger.Step (ledger s) out (ledger t) ∧ I t ∧ (∀ key ∈ incarnations out, valid key) ∧
      ∀ e ∈ out, e.From (p.cause ev)
  /-- An encrypted packet is dropped, or leaves on the ready incarnation of its key. -/
  sends : ∀ s o key wire t out, valid key →
    p.handle (p.completion o (.encrypted key wire)) s = .ok ((), t, out) →
    out = [] ∨ ∃ v packet, (ledger s).conns key.slot = some v ∧ v.key = key ∧
      wire = some packet ∧ out = [.transmit key v.myId v.oppsiteId packet]

namespace Host

variable {σ E O : Type} {work : Job → Done} {p : Party σ E O} {ledger : σ → Ledger}
  {valid : JobKey → Prop} {I : σ → Prop} {Stays : σ → E → Prop}

/-- The event an action hands to the handlers. -/
def next (p : Party σ E O) (h : Host σ) : HostAction E O → Option E
  | .event ev => some ev
  | .complete o => (h.threads.delivered[h.handled]?).map fun r => p.completion o r.2
  | _ => none

/-- The start of a host. -/
def new (threads : Nat) (start : σ) (born : List Effect) : Host σ :=
  { party := start, threads := .new threads, log := born.map (none, ·) }

/-- The states a host with some workers reaches while its events stay; `born` are the effects
of its start. -/
inductive Reachable (work : Job → Done) (p : Party σ E O) (threads : Nat) (start : σ)
    (born : List Effect) (Stays : σ → E → Prop) : Host σ → Prop where
  | start : Reachable work p threads start born Stays (new threads start born)
  | step {h t : Host σ} {a : HostAction E O} : Reachable work p threads start born Stays h →
      (∀ ev, h.next p a = some ev → Stays h.party ev) → h.step work p a = some t →
      Reachable work p threads start born Stays t

/-- One step whose event stays. -/
def stayStep (Stays : σ → E → Prop) [∀ s ev, Decidable (Stays s ev)] (work : Job → Done)
    (p : Party σ E O) (h : Host σ) (a : HostAction E O) : Option (Host σ) :=
  if (h.next p a).all fun ev => decide (Stays h.party ev) then h.step work p a else none

variable {h t : Host σ}

/-- What a run shows is reachable. -/
theorem reachable_of_run [∀ s ev, Decidable (Stays s ev)] {threads : Nat} {start : σ}
    {born : List Effect} {actions : List (HostAction E O)}
    (hr : Transition.run (stayStep Stays work p) (.new threads start born) actions = some h) :
    Reachable work p threads start born Stays h := by
  refine Transition.run_invariant (I := Reachable work p threads start born Stays) ?_ .start hr
  intro s a t hs ht
  unfold stayStep at ht
  split at ht
  · next hstays =>
    refine hs.step (fun ev hev => ?_) ht
    simpa [hev] using hstays
  · cases ht

/-- The invariant of a host. -/
structure Inv (work : Job → Done) (ledger : σ → Ledger) (valid : JobKey → Prop) (I : σ → Prop)
    (h : Host σ) : Prop where
  sound : Threads.Sound (tag work) h.threads
  queued : h.threads.pipe.submitted ++ h.outbox = submitted h.effects
  handled : h.handled ≤ h.threads.delivered.length
  sent : (transmitted h.log).Sublist ((h.threads.delivered.take h.handled).map Prod.fst)
  keys : ∀ key ∈ incarnations h.effects, valid key
  books : (ledger h.party).Books h.effects
  fits : ∀ entry ∈ h.log, FitsJob work (submitted h.effects) entry
  party : I h.party

/-- The delivered completions are those of submitted jobs, in order. -/
theorem Inv.delivered (hi : Inv work ledger valid I h) :
    (h.threads.delivered.map Prod.fst).Sublist (submitted h.effects) ∧
      ∀ r ∈ h.threads.delivered, r.2 = work r.1 := by
  obtain ⟨flying, ho⟩ := hi.sound.order
  have hpre := ho.delivered_prefix
  constructor
  · have hfst : (h.threads.pipe.kept.map (tag work)).map Prod.fst = h.threads.pipe.kept := by
      simp [tag, Function.comp_def]
    have hmap := (hpre.map Prod.fst).sublist
    rw [hfst] at hmap
    rw [← hi.queued]
    exact (hmap.trans (Pipeline.kept_sublist ho)).trans (List.sublist_append_left _ _)
  · intro r hr
    obtain ⟨job, -, rfl⟩ := List.mem_map.mp (hpre.subset hr)
    rfl

theorem effects_append (h : Host σ) (job : Option Job) (out : List Effect) :
    (h.log ++ out.map (job, ·)).map Prod.snd = h.effects ++ out := by
  simp [effects, Function.comp_def]

/-- A handler that ran keeps the invariant, if its effects fit the completion it handled. -/
theorem Inv.apply {h : Host σ} (hi : Inv work ledger valid I h)
    (law : p.Lawful ledger valid I Stays) {ev : E} (stays : Stays h.party ev)
    (hvalid : ∀ d, p.cause ev = some d → valid d.key) {t : σ} {out : List Effect}
    (hok : p.handle ev h.party = .ok ((), t, out)) (hbox : h.outbox = [])
    (hwrap : NoWrap (h.effects ++ out)) {job : Option Job} {n : Nat}
    (hn : n ≤ h.threads.delivered.length) (hsent : (transmitted (h.log ++ out.map (job, ·))).Sublist
      ((h.threads.delivered.take n).map Prod.fst))
    (hfits : ∀ e ∈ out, FitsJob work (submitted h.effects) (job, e)) :
    Inv work ledger valid I { h with
      party := t, outbox := submitted out, log := h.log ++ out.map (job, ·), handled := n } := by
  obtain ⟨hsteps, hI, hkeys, -⟩ := law.steps _ ev t out hi.party stays hvalid hok
  have heff := h.effects_append job out
  have hq := hi.queued
  rw [hbox, List.append_nil] at hq
  refine ⟨hi.sound, ?_, hn, hsent, ?_, ?_, ?_, hI⟩
  · change h.threads.pipe.submitted ++ submitted out = submitted ((h.log ++ _).map Prod.snd)
    rw [heff, submitted_append, hq]
  · intro key hm
    change key ∈ incarnations ((h.log ++ _).map Prod.snd) at hm
    rw [heff, incarnations_append, List.mem_append] at hm
    exact hm.elim (hi.keys key) (hkeys key)
  · change Ledger.Books (ledger t) ((h.log ++ _).map Prod.snd)
    rw [heff]
    exact hi.books.steps hsteps hwrap
  · intro entry hm
    change FitsJob work (submitted ((h.log ++ _).map Prod.snd)) entry
    rw [heff, submitted_append]
    have hold : FitsJob work (submitted h.effects) entry := by
      rcases List.mem_append.mp hm with hm | hm
      · exact hi.fits entry hm
      · obtain ⟨e, he, rfl⟩ := List.mem_map.mp hm
        exact hfits e he
    exact hold.mono fun _ => List.mem_append_left _

/-- A step of the pipeline keeps the invariant, if it submits what leaves the outbox. -/
theorem Inv.thread (hi : Inv work ledger valid I h) {a : ThreadAction Job}
    {t : Threads Job (Job × Done)} (hs : h.threads.step (tag work) a = some t) {box : List Job}
    (hbox : t.pipe.submitted ++ box = h.threads.pipe.submitted ++ h.outbox) :
    Inv work ledger valid I { h with threads := t, outbox := box } := by
  obtain ⟨more, hmore⟩ := Threads.step_delivered hs
  refine ⟨hi.sound.step hs, hbox.trans hi.queued, ?_, ?_, hi.keys, hi.books, hi.fits, hi.party⟩
  · change h.handled ≤ t.delivered.length
    rw [← hmore, List.length_append]
    exact hi.handled.trans (Nat.le_add_right _ _)
  · change (transmitted h.log).Sublist ((t.delivered.take h.handled).map Prod.fst)
    rw [← hmore, List.take_append_of_le_length hi.handled]
    exact hi.sent

theorem transmitted_append (a b : List (Option Job × Effect)) :
    transmitted (a ++ b) = transmitted a ++ transmitted b := List.filterMap_append

/-- Effects of no encryption transmit nothing. -/
theorem transmitted_map {job : Option Job} {out : List Effect} {cause : Option Done}
    (hfrom : ∀ e ∈ out, e.From cause)
    (hjob : job = none ∨ ∀ key w, cause ≠ some (.encrypted key w)) :
    transmitted (out.map (job, ·)) = [] := by
  unfold transmitted
  rw [List.filterMap_eq_nil_iff]
  intro entry hm
  obtain ⟨e, he, rfl⟩ := List.mem_map.mp hm
  cases e with
  | transmit key my opp wire =>
    rcases hjob with rfl | hne
    · rfl
    · exact absurd (hfrom _ he) (hne key _)
  | _ => rfl

/-- What the handling of an event does. -/
theorem apply_cases {job : Option Job} {ev : E} (ht : h.apply p job ev = some t) :
    ∃ u out, p.handle ev h.party = .ok ((), u, out) ∧
      t = { h with party := u, outbox := submitted out, log := h.log ++ out.map (job, ·) } := by
  unfold Host.apply at ht
  split at ht
  · cases ht
  · next u out hok => exact ⟨u, out, hok, (Option.some.inj ht).symm⟩

variable {enc : Bytes → Option Bytes} {dec : Bytes → List Bytes}

theorem process_key (job : Job) : (process enc dec job).key = job.key := by
  cases job <;> rfl

/-- Handling an event that is not a completion. -/
theorem Inv.event (hi : Inv work ledger valid I h) (law : p.Lawful ledger valid I Stays) {ev : E}
    (stays : Stays h.party ev) (hcause : p.cause ev = none) (hbox : h.outbox = [])
    (ht : h.apply p none ev = some t) (hwrap : NoWrap t.effects) : Inv work ledger valid I t := by
  obtain ⟨u, out, hok, rfl⟩ := apply_cases ht
  have hnone : ∀ d, p.cause ev = some d → valid d.key := fun d hd => by rw [hcause] at hd; cases hd
  obtain ⟨-, -, -, hfrom⟩ := law.steps _ ev u out hi.party stays hnone hok
  rw [effects, effects_append] at hwrap
  refine hi.apply law stays hnone hok hbox hwrap hi.handled ?_ ?_
  · rw [transmitted_append, transmitted_map hfrom (.inl rfl), List.append_nil]
    exact hi.sent
  · intro e he
    exact fitsJob_of_from (hcause ▸ hfrom e he)

/-- Handling a completion. -/
theorem Inv.complete (hi : Inv (process enc dec) ledger valid I h)
    (law : p.Lawful ledger valid I Stays) {o : O} {job : Job} {d : Done}
    (hd : h.threads.delivered[h.handled]? = some (job, d))
    (stays : Stays h.party (p.completion o d)) (hbox : h.outbox = [])
    (ht : h.apply p (some job) (p.completion o d) = some t) (hwrap : NoWrap t.effects) :
    Inv (process enc dec) ledger valid I { t with handled := h.handled + 1 } := by
  obtain ⟨u, out, hok, rfl⟩ := apply_cases ht
  obtain ⟨hsub, hwork⟩ := hi.delivered
  have hmem := List.mem_of_getElem? hd
  have hjob : job ∈ submitted h.effects := hsub.subset (List.mem_map_of_mem hmem)
  obtain rfl : d = process enc dec job := hwork _ hmem
  have hvalid : ∀ d, p.cause (p.completion o (process enc dec job)) = some d → valid d.key := by
    intro d hd
    rw [law.cause] at hd
    rw [← Option.some.inj hd, process_key]
    exact hi.keys _ (hi.books.known job hjob)
  obtain ⟨-, -, -, hfrom⟩ := law.steps _ _ u out hi.party stays hvalid hok
  rw [law.cause] at hfrom
  rw [effects, effects_append] at hwrap
  have hlt : h.handled < h.threads.delivered.length := (List.getElem?_eq_some_iff.mp hd).1
  have htake : (h.threads.delivered.take (h.handled + 1)).map Prod.fst =
      (h.threads.delivered.take h.handled).map Prod.fst ++ [job] := by
    rw [List.take_add_one, hd, List.map_append]
    rfl
  refine hi.apply law stays hvalid hok hbox hwrap hlt ?_ ?_
  · rw [transmitted_append, htake]
    refine hi.sent.append ?_
    cases job with
    | encrypt key plain =>
      have hk := hvalid _ (law.cause o _)
      obtain rfl | ⟨v, packet, -, -, -, rfl⟩ := law.sends _ o key _ u out hk hok
      · exact List.nil_sublist _
      · exact .refl _
    | decrypt key wire recv =>
      rw [transmitted_map hfrom (.inr fun key w he => by cases he)]
      exact List.nil_sublist _
  · intro e he
    cases job with
    | encrypt key plain =>
      have hk := hvalid _ (law.cause o _)
      obtain rfl | ⟨v, packet, hv, hkey, hwire, rfl⟩ := law.sends _ o key _ u out hk hok
      · cases he
      · rw [List.mem_singleton.mp he]
        subst hkey
        obtain ⟨-, seq, hseq, -⟩ := hi.books.sealed _ v hv plain hjob
        exact ⟨plain, seq, rfl, hjob, congrArg (Done.encrypted v.key) hwire, hseq⟩
    | decrypt key wire recv =>
      have := hfrom e he
      cases e with
      | transmit => cases this
      | check => obtain ⟨_, _, h, -⟩ := this; cases h; exact ⟨wire, _, rfl, hjob⟩
      | afterRecv => obtain ⟨_, _, h⟩ := this; cases h; exact ⟨wire, _, rfl, hjob⟩
      | _ => trivial

/-- Every step keeps the invariant. -/
theorem Inv.step {h t : Host σ} (hi : Inv (process enc dec) ledger valid I h)
    (law : p.Lawful ledger valid I Stays) {a : HostAction E O}
    (stays : ∀ ev, h.next p a = some ev → Stays h.party ev)
    (hs : h.step (process enc dec) p a = some t) (hwrap : NoWrap t.effects) :
    Inv (process enc dec) ledger valid I t := by
  cases a with
  | event ev =>
    simp only [Host.step, free, Bool.and_eq_true, Option.isNone_iff_eq_none,
      List.isEmpty_iff] at hs
    split at hs
    · next hc => exact hi.event law (stays ev rfl) hc.2 hc.1.1.2 hs hwrap
    · cases hs
  | complete o =>
    simp only [Host.step, free, Bool.and_eq_true, List.isEmpty_iff] at hs
    split at hs
    · next hc =>
      obtain ⟨⟨job, d⟩, hd, hs⟩ := Option.bind_eq_some_iff.mp hs
      obtain ⟨u, hu, hs⟩ := Option.bind_eq_some_iff.mp hs
      cases hs
      exact hi.complete law hd (stays _ (by simp [next, hd])) hc.2 hu hwrap
    · cases hs
  | submit =>
    simp only [Host.step] at hs
    split at hs
    · cases hs
    · next job rest hbox =>
      obtain ⟨u, hu, hs⟩ := Option.bind_eq_some_iff.mp hs
      cases hs
      refine hi.thread hu ?_
      rw [Threads.step_submitted hu, hbox]
      simp
  | thread a =>
    simp only [Host.step] at hs
    split at hs
    · next hmay =>
      obtain ⟨u, hu, hs⟩ := Option.bind_eq_some_iff.mp hs
      cases hs
      refine hi.thread hu ?_
      rw [Threads.step_submitted hu]
      cases a with
      | submit job => cases hmay
      | _ => simp
    · cases hs

/-- The log only grows. -/
theorem step_effects {a : HostAction E O} (hs : h.step work p a = some t) :
    ∃ out, t.effects = h.effects ++ out := by
  cases a with
  | event ev =>
    simp only [Host.step] at hs
    split at hs
    · obtain ⟨u, out, -, rfl⟩ := apply_cases hs
      exact ⟨out, h.effects_append none out⟩
    · cases hs
  | complete o =>
    simp only [Host.step] at hs
    split at hs
    · obtain ⟨⟨job, d⟩, -, hs⟩ := Option.bind_eq_some_iff.mp hs
      obtain ⟨v, hv, hs⟩ := Option.bind_eq_some_iff.mp hs
      obtain ⟨u, out, -, rfl⟩ := apply_cases hv
      cases hs
      exact ⟨out, h.effects_append (some job) out⟩
    · cases hs
  | submit =>
    simp only [Host.step] at hs
    split at hs
    · cases hs
    · obtain ⟨u, -, hs⟩ := Option.bind_eq_some_iff.mp hs
      cases hs
      exact ⟨[], (List.append_nil _).symm⟩
  | thread a =>
    simp only [Host.step] at hs
    split at hs
    · obtain ⟨u, -, hs⟩ := Option.bind_eq_some_iff.mp hs
      cases hs
      exact ⟨[], (List.append_nil _).symm⟩
    · cases hs

/-- A host that starts with its books in order keeps the invariant. -/
theorem Reachable.inv {threads : Nat} {start : σ} {born : List Effect}
    (hr : Reachable (process enc dec) p threads start born Stays h)
    (law : p.Lawful ledger valid I Stays) (hstart : I start) (hbooks : (ledger start).Books born)
    (hsub : submitted born = []) (hkeys : ∀ key ∈ incarnations born, valid key)
    (hfrom : ∀ e ∈ born, e.From none) (hwrap : NoWrap h.effects) :
    Inv (process enc dec) ledger valid I h := by
  induction hr with
  | start =>
    have heff : (new threads start born).effects = born := by
      simp [effects, new, Function.comp_def]
    refine ⟨Threads.sound_new _ _, ?_, Nat.zero_le _, ?_, ?_, ?_, ?_, hstart⟩
    · rw [heff, hsub]
      rfl
    · rw [new, transmitted_map hfrom (.inl rfl)]
      exact List.nil_sublist _
    · rw [heff]
      exact hkeys
    · rw [heff]
      exact hbooks
    · intro entry hm
      obtain ⟨e, he, rfl⟩ := List.mem_map.mp hm
      exact fitsJob_of_from (hfrom e he)
  | step _ stays hs ih =>
    obtain ⟨out, hout⟩ := step_effects hs
    exact (ih (hout ▸ hwrap).of_append).step law stays hs hwrap

/-- The invariant guards the log. -/
theorem Inv.guarded (hi : Inv (process enc dec) ledger valid I h) :
    Guarded (process enc dec) h.log where
  fits := hi.fits
  increasing := by
    have htake := (List.take_sublist h.handled h.threads.delivered).map Prod.fst
    exact hi.books.ordered.sublist ((hi.sent.trans htake).trans hi.delivered.1)
  legal := hi.books.legal
  unique := hi.books.unique

end Host

end Udp2raw
