import Mathlib.Data.List.Induction
import Udp2raw.Core.RoundRobin
import Udp2raw.Pipeline.Steps

/-!
# Order and accounting of the pipeline

The batches in flight, listed in dispatch order, determine what every worker
holds: its done channel, the batch it is sending and its job channel are its
round-robin share of the list. Dispatching appends to the list, collecting takes
its head, and no worker step changes it.
-/

namespace Udp2raw

open Checked Transition RoundRobin

variable {J D : Type} {process : J → D}

/-! ## What a worker holds -/

/-- The processed batch a worker is about to send. -/
def Worker.current (w : Worker J D) : List (List D) :=
  match w.phase with
  | .sending dones => [dones]
  | _ => []

/-- The results a worker has yet to hand over, in the order in which it will. -/
def Worker.held (process : J → D) (w : Worker J D) : List (List D) :=
  w.done ++ w.current ++ w.jobs.map (List.map process)

/-- A step of a worker keeps what it holds. -/
theorem Worker.step_held {w v : Worker J D} {wakes : Bool} (h : w.step process = some (v, wakes)) :
    v.held process = w.held process := by
  obtain ⟨batch, rest, hp, hj, rfl⟩ | ⟨hp, hj, -, rfl⟩ | ⟨dones, hp, -, rfl⟩ | ⟨hp, rfl⟩ :=
    step_cases h
  · simp [held, current, hp, hj]
  · simp [held, current, hp]
  · simp [held, current, hp]
  · simp [held, current, hp]

namespace Pipeline

/-! ## The order invariant -/

@[simp] theorem batchesWith_snoc (outcome o : SendOutcome) (log : List (List J × SendOutcome))
    (batch : List J) :
    batchesWith outcome (log ++ [(batch, o)]) =
      if o = outcome then batchesWith outcome log ++ [batch] else batchesWith outcome log := by
  by_cases h : o = outcome <;> simp [batchesWith, h]

/-- `flying` lists the batches that workers took and `collect` has not returned, oldest first. -/
structure InOrder (process : J → D) (p : Pipeline J D) (delivered : List D)
    (flying : List (List J)) : Prop where
  submitted : p.submitted = (p.dispatched.map Prod.fst).flatten ++ p.batch
  dropped : p.dropped = .ofNat p.refused.flatten.length
  connected : ∀ entry ∈ p.dispatched, entry.2 ≠ .disconnected
  count : p.inFlightBatches = flying.length
  collect_mod : p.nextCollect % p.workers.length = p.nextCollect
  dispatch : p.nextDispatch = (p.nextCollect + flying.length) % p.workers.length
  /-- Every worker holds its share of the batches in flight. -/
  held : ∀ i w, p.workers[i]? = some w →
    w.held process = (share p.workers.length p.nextCollect i flying).map (List.map process)
  /-- What was delivered and what is still to come are the accepted jobs, in order. -/
  output : delivered ++ p.inlineDone ++ flying.flatten.map process =
    p.accepted.flatten.map process
  inline : p.workers = [] → flying = [] ∧ p.batch = []
  threaded : p.workers ≠ [] → p.inlineDone = []

/-- A new pipeline is in order. -/
theorem inOrder_new (process : J → D) (threads : Nat) :
    InOrder process (Pipeline.new threads) [] [] where
  submitted := rfl
  dropped := rfl
  connected := nofun
  count := rfl
  collect_mod := Nat.zero_mod _
  dispatch := (Nat.zero_mod _).symm
  held i w hw := by
    have hm := List.mem_of_getElem? hw
    rw [List.eq_of_mem_replicate hm]
    rfl
  output := rfl
  inline _ := ⟨rfl, rfl⟩
  threaded _ := rfl

variable {log : List (List J × SendOutcome)}

private theorem connected_snoc {last : List J × SendOutcome}
    (h : ∀ entry ∈ log, entry.2 ≠ .disconnected) (hl : last.2 ≠ .disconnected) :
    ∀ entry ∈ log ++ [last], entry.2 ≠ .disconnected := by
  intro entry hm
  rcases List.mem_append.mp hm with hm | hm
  · exact h entry hm
  · rwa [List.mem_singleton.mp hm]

namespace InOrder

variable {p q : Pipeline J D} {delivered : List D} {flying : List (List J)}

/-- The worker that the dispatch cursor names exists. -/
theorem dispatch_lt (h : InOrder process p delivered flying) (hw : p.workers ≠ []) :
    p.nextDispatch < p.workers.length := by
  rw [h.dispatch]
  exact Nat.mod_lt _ (List.length_pos_iff.mpr hw)

theorem collect_lt (h : InOrder process p delivered flying) (hw : p.workers ≠ []) :
    p.nextCollect < p.workers.length := by
  rw [← h.collect_mod]
  exact Nat.mod_lt _ (List.length_pos_iff.mpr hw)

variable {w : Worker J D}

/-- Replacing a worker by one that holds the same keeps the invariant. -/
theorem setWorker (h : InOrder process p delivered flying) {i : Nat} {v : Worker J D}
    (hw : p.workers[i]? = some w) (hv : v.held process = w.held process) (wakeCount : Nat) :
    InOrder process { p with workers := p.workers.set i v, wakeCount } delivered flying where
  submitted := h.submitted
  dropped := h.dropped
  connected := h.connected
  count := h.count
  collect_mod := by simpa only [List.length_set] using h.collect_mod
  dispatch := by simpa only [List.length_set] using h.dispatch
  held j u hu := by
    simp only [List.length_set, List.getElem?_set] at hu ⊢
    split at hu
    · next hij =>
      subst hij
      split at hu
      · cases hu
        rw [hv, h.held i w hw]
      · cases hu
    · exact h.held j u hu
  output := h.output
  inline hn := h.inline (by simpa using hn)
  threaded hn := h.threaded (by simpa using hn)

theorem stepWorker (h : InOrder process p delivered flying) {i : Nat}
    (hs : p.stepWorker process i = some q) : InOrder process q delivered flying := by
  obtain ⟨w, v, wakes, hw, hv, rfl⟩ := stepWorker_cases hs
  exact h.setWorker hw (Worker.step_held hv) _

/-- A batch that a worker takes joins the end of the list. -/
theorem accept (h : InOrder process p delivered flying) (hw : p.workers[p.nextDispatch]? = some w) :
    InOrder process
      { p with
        batch := []
        workers := p.workers.set p.nextDispatch { w with jobs := w.jobs ++ [p.batch] }
        nextDispatch := (p.nextDispatch + 1) % p.workers.length
        inFlightBatches := p.inFlightBatches + 1
        dispatched := p.dispatched ++ [(p.batch, .sent)] }
      delivered (flying ++ [p.batch]) where
  submitted := by simp [h.submitted]
  dropped := by simpa [refused] using h.dropped
  connected := connected_snoc h.connected nofun
  count := by simp [h.count]
  collect_mod := by simpa only [List.length_set] using h.collect_mod
  dispatch := by
    simp only [List.length_set, List.length_append, List.length_singleton, h.dispatch,
      Nat.mod_add_mod, Nat.add_assoc]
  held j u hu := by
    simp only [List.length_set, List.getElem?_set] at hu ⊢
    rw [share_snoc, ← h.dispatch]
    split at hu
    · next hij =>
      subst hij
      split at hu
      · cases hu
        have hh := h.held _ w hw
        simp only [Worker.held, Worker.current] at hh ⊢
        simp only [if_true, List.map_append, List.map_cons, List.map_nil, ← hh,
          List.append_assoc]
      · cases hu
    · next hij =>
      rw [if_neg hij]
      exact h.held j u hu
  output := by
    have ho := h.output
    simp only [accepted, batchesWith_snoc, if_true, List.map_append, List.flatten_append] at ho ⊢
    rw [← List.append_assoc, ho]
  inline hn := by
    have hp : p.workers = [] := by simpa using hn
    rw [hp] at hw
    cases hw
  threaded hn := h.threaded (by simpa using hn)

/-- A refused batch changes nothing in flight. -/
theorem refuse (h : InOrder process p delivered flying) :
    InOrder process
      { p with
        batch := []
        dropped := p.dropped + .ofNat p.batch.length
        dispatched := p.dispatched ++ [(p.batch, .full)] } delivered flying where
  submitted := by simp [h.submitted]
  dropped := by
    have hd := h.dropped
    simp only [refused, batchesWith_snoc, if_true, List.flatten_append, List.length_append] at hd ⊢
    simp [hd, UInt64.ofNat_add]
  connected := connected_snoc h.connected nofun
  count := h.count
  collect_mod := h.collect_mod
  dispatch := h.dispatch
  held := h.held
  output := by simpa [accepted] using h.output
  inline hn := ⟨(h.inline hn).1, rfl⟩
  threaded := h.threaded

/-- A flush keeps the order. -/
theorem flush (h : InOrder process p delivered flying) {ok : Bool}
    (hw : ∀ w ∈ p.workers, w.phase ≠ .exited) (hq : p.flush = .ok (q, ok)) :
    ∃ flying', InOrder process q delivered flying' := by
  obtain ⟨-, rfl⟩ | ⟨w, -, hg, -, rfl⟩ | ⟨-, rfl⟩ := flush_cases hw hq
  · exact ⟨flying, h⟩
  · exact ⟨_, h.accept hg⟩
  · exact ⟨flying, h.refuse⟩

/-- A job that joins the pending batch. -/
theorem push (h : InOrder process p delivered flying) (hw : p.workers ≠ []) (job : J) :
    InOrder process { p with batch := p.batch ++ [job], submitted := p.submitted ++ [job] }
      delivered flying :=
  { h with
    submitted := by simp [h.submitted]
    inline := fun hn => absurd hn hw }

/-- A submission keeps the order. -/
theorem submit (h : InOrder process p delivered flying) {job : J} {ok : Bool}
    (hw : ∀ w ∈ p.workers, w.phase ≠ .exited) (hq : p.submit process job = .ok (q, ok)) :
    ∃ flying', InOrder process q delivered flying' := by
  obtain ⟨hn, rfl⟩ | ⟨m, hn, rfl, hf | rfl⟩ := submit_cases hq
  · obtain ⟨rfl, hb⟩ := h.inline hn
    refine ⟨[], { h with
      submitted := ?_, dropped := ?_, connected := ?_, output := ?_, threaded := ?_ }⟩
    · simp [h.submitted, hb]
    · simpa [refused] using h.dropped
    · exact connected_snoc h.connected nofun
    · have ho := h.output
      simp only [List.flatten_nil, List.map_nil, List.append_nil] at ho ⊢
      simp [accepted, ← List.append_assoc, ho]
    · exact fun hne => absurd hn hne
  · exact (h.push hn job).flush hw hf
  · exact ⟨flying, h.push hn job⟩

/-- The batch at the head of the next done channel is the oldest in flight. -/
theorem take {batch : List J} (h : InOrder process p delivered (batch :: flying)) {dones : List D}
    {rest : List (List D)} (hw : p.workers[p.nextCollect]? = some w) (hd : w.done = dones :: rest) :
    InOrder process
      { p with
        workers := p.workers.set p.nextCollect { w with done := rest }
        nextCollect := (p.nextCollect + 1) % p.workers.length
        inFlightBatches := p.inFlightBatches - 1 }
      (delivered ++ dones) flying := by
  have hc := h.collect_mod
  have hne : p.workers ≠ [] := List.ne_nil_of_mem (List.mem_of_getElem? hw)
  have hh := h.held _ w hw
  rw [share, if_pos hc, Worker.held, hd, List.map_cons] at hh
  obtain ⟨hb, hh⟩ := List.cons.inj hh
  exact {
    submitted := h.submitted
    dropped := h.dropped
    connected := h.connected
    count := by simp [h.count]
    collect_mod := by simp
    dispatch := by
      simp only [h.dispatch, List.length_cons, List.length_set, Nat.mod_add_mod]
      congr 1
      omega
    held := by
      intro j u hu
      simp only [List.length_set, List.getElem?_set] at hu ⊢
      rw [share_congr (Nat.mod_mod _ _)]
      split at hu
      · next hij =>
        subst hij
        split at hu
        · cases hu
          exact hh
        · cases hu
      · next hij => rw [h.held j u hu, share, if_neg (by rwa [hc])]
    output := by
      refine Eq.trans ?_ h.output
      simp [h.threaded hne, hb]
    inline := fun hn => absurd (by simpa using hn) hne
    threaded := fun _ => h.threaded hne }

/-- A collection keeps the order and delivers the next batch. -/
theorem tryCollect (h : InOrder process p delivered flying) {got : Option (List D)}
    (hq : p.tryCollect = .ok (q, got)) :
    ∃ flying', InOrder process q (delivered ++ got.getD []) flying' := by
  obtain ⟨rfl, rfl⟩ | ⟨w, dones, rest, hf, hw, hd, rfl, rfl⟩ := tryCollect_cases hq
  · exact ⟨flying, by simpa using h⟩
  · cases flying with
    | nil => exact absurd h.count hf
    | cons batch flying => exact ⟨flying, h.take hw hd⟩

/-- Without workers `collect` delivers all that is waiting. -/
theorem collectInline (h : InOrder process p delivered flying) :
    InOrder process { p with inlineDone := [] } (delivered ++ p.inlineDone) flying :=
  { h with
    output := by
      refine Eq.trans ?_ h.output
      rw [List.append_nil]
    threaded := fun _ => rfl }

/-- The cursors name workers, so neither indexing fails. -/
theorem flush_returns (h : InOrder process p delivered flying) : Returns p.flush fun _ => True := by
  refine returns_ite (fun _ => returns_ok trivial) fun hb => ?_
  have hw : p.workers ≠ [] := by simp_all
  refine (readAt_returns (h.dispatch_lt hw)).bind fun w _ => ?_
  dsimp only
  split <;> exact returns_ok trivial

theorem tryCollect_returns (h : InOrder process p delivered flying) (hw : p.workers ≠ []) :
    Returns p.tryCollect fun _ => True := by
  refine returns_ite (fun _ => returns_ok trivial) fun _ => ?_
  refine (readAt_returns (h.collect_lt hw)).bind fun w _ => ?_
  split <;> exact returns_ok trivial

theorem submit_returns (h : InOrder process p delivered flying) (job : J) :
    Returns (p.submit process job) fun _ => True := by
  refine returns_ite (fun _ => returns_ok trivial) fun hn => ?_
  have hp := h.push (by simpa using hn) job
  exact returns_ite (fun _ => hp.flush_returns) fun _ => returns_ok trivial

/-- With nothing in flight, every kept job has been delivered. -/
theorem drained (h : InOrder process p delivered flying) (hf : p.inFlight = 0)
    (hi : p.inlineDone = []) : delivered = p.kept.map process := by
  have hz : p.inFlightBatches = 0 ∧ p.batch = [] := by
    unfold inFlight at hf
    split at hf
    · next hb => exact ⟨by omega, by simpa using hb⟩
    · omega
  have hn : flying = [] := List.length_eq_zero_iff.mp (h.count.symm.trans hz.1)
  have ho := h.output
  simpa [hi, hn, kept, hz.2] using ho

/-- The delivered values are the first of those the kept jobs give. -/
theorem delivered_prefix (h : InOrder process p delivered flying) :
    delivered <+: p.kept.map process := by
  rw [kept, List.map_append, ← h.output, List.append_assoc, List.append_assoc]
  exact List.prefix_append _ _

end InOrder

/-- Without disconnected batches, a log splits into the sent and the full ones. -/
theorem batchesWith_length (h : ∀ entry ∈ log, entry.2 ≠ .disconnected) :
    (batchesWith .sent log).flatten.length + (batchesWith .full log).flatten.length =
      (log.map Prod.fst).flatten.length := by
  induction log using List.reverseRecOn with
  | nil => rfl
  | append_singleton log last ih =>
    obtain ⟨batch, o⟩ := last
    have ih := ih fun entry hm => h entry (List.mem_append_left _ hm)
    have ho := h (batch, o) (by simp)
    simp only [batchesWith_snoc, List.map_append, List.flatten_append, List.length_append,
      List.map_cons, List.map_nil, List.flatten_singleton]
    cases o with
    | sent =>
      rw [if_pos rfl, if_neg nofun, List.flatten_append, List.length_append,
        List.flatten_singleton]
      omega
    | full =>
      rw [if_neg nofun, if_pos rfl, List.flatten_append, List.length_append,
        List.flatten_singleton]
      omega
    | disconnected => exact absurd rfl ho

/-- If nothing was refused, every batch was taken. -/
theorem batchesWith_sent (h : ∀ entry ∈ log, entry.2 ≠ .disconnected)
    (hf : batchesWith .full log = []) : batchesWith .sent log = log.map Prod.fst := by
  have hne : ∀ entry ∈ log, entry.2 ≠ .full := by
    simpa [batchesWith] using hf
  have hs : ∀ entry ∈ log, decide (entry.2 = .sent) = true := by
    intro entry hm
    cases ho : entry.2 with
    | sent => rfl
    | full => exact absurd ho (hne entry hm)
    | disconnected => exact absurd ho (h entry hm)
  rw [batchesWith, List.filter_eq_self.mpr hs]

end Pipeline

/-! ## Whole runs -/

namespace Threads

/-- The invariant of a run: the batches in flight are in order, and no worker exits before the
pipeline is dropped. -/
structure Sound (process : J → D) (s : Threads J D) : Prop where
  order : ∃ flying, s.pipe.InOrder process s.delivered flying
  alive : s.Running → s.pipe.Alive
  /-- The threaded part of `collect` is not entered without workers. -/
  busy : s.io = .draining ∨ s.io = .collecting → 0 < s.pipe.workers.length

theorem sound_new (process : J → D) (threads : Nat) : Sound process (Threads.new threads) where
  order := ⟨[], Pipeline.inOrder_new process threads⟩
  alive _ := Pipeline.alive_new threads
  busy := by simp [Threads.new]

/-- Neither the I/O thread nor a worker breaks the invariant. -/
theorem Sound.step {s t : Threads J D} {a : ThreadAction J} (h : Sound process s)
    (hs : s.step process a = some t) : Sound process t := by
  obtain ⟨flying, ho⟩ := h.order
  cases step_cases hs with
  | submit hio hp =>
    have ha := h.alive (.inl hio)
    exact ⟨ho.submit ha.not_exited hp, fun _ => ha.submit hp, by simp⟩
  | flush hio hp =>
    have ha := h.alive (.inl hio)
    exact ⟨ho.flush ha.not_exited hp, fun _ => ha.flush hp, by simp⟩
  | collectInline hio hn =>
    exact ⟨⟨flying, ho.collectInline⟩, fun _ => h.alive (.inl hio), by simp [hio]⟩
  | collect hio hn hp =>
    have ha := h.alive (.inl hio)
    refine ⟨ho.flush ha.not_exited hp, fun _ => ha.flush hp, fun _ => ?_⟩
    rw [Pipeline.flush_length hp]
    exact List.length_pos_iff.mpr hn
  | drain hio =>
    exact ⟨⟨flying, { ho with }⟩, fun _ => h.alive (.inr (.inl hio)), fun _ => h.busy (.inl hio)⟩
  | recv hio hp =>
    refine ⟨ho.tryCollect hp, fun _ => (h.alive (.inr (.inr hio))).tryCollect hp, fun _ => ?_⟩
    rw [Pipeline.tryCollect_length hp]
    exact h.busy (.inr hio)
  | leave hio hp =>
    obtain ⟨flying', ho'⟩ := ho.tryCollect hp
    exact ⟨⟨flying', by simpa using ho'⟩,
      fun _ => (h.alive (.inr (.inr hio))).tryCollect hp, by simp⟩
  | drop hio => exact ⟨⟨flying, ho⟩, by simp [Running], by simp⟩
  | @dropSender k w hio hw =>
    exact ⟨⟨flying, ho.setWorker (v := { w with senderAlive := false }) hw rfl _⟩,
      by simp [Running], by simp⟩
  | startJoin hio hw => exact ⟨⟨flying, ho⟩, by simp [Running], by simp⟩
  | joined hio hw he => exact ⟨⟨flying, ho⟩, by simp [Running], by simp⟩
  | closed hio hw => exact ⟨⟨flying, ho⟩, by simp [Running], by simp⟩
  | worker hp =>
    refine ⟨⟨flying, ho.stepWorker hp⟩, fun hr => (h.alive hr).stepWorker hp, fun hb => ?_⟩
    rw [Pipeline.stepWorker_length hp]
    exact h.busy hb

variable {s : Threads J D}

/-- Every run is in order. -/
theorem sound_run {threads : Nat} {actions : List (ThreadAction J)}
    (h : run (Threads.step process) (Threads.new threads) actions = some s) : Sound process s :=
  run_invariant (fun _ _ _ hs => hs.step) (sound_new process threads) h

/-- In every state of every run no call of the I/O thread panics, whatever the workers do:
`submit`, `flush` and each part of `collect` can be taken whenever the thread is at that point. -/
theorem io_calls_return (process : J → D) (threads : Nat) (actions : List (ThreadAction J))
    (s : Threads J D) (hrun : run (Threads.step process) (Threads.new threads) actions = some s) :
    (s.io = .idle → ∀ job, (s.step process (.submit job)).isSome ∧
      (s.step process .flush).isSome ∧ (s.step process .collect).isSome) ∧
    (s.io = .draining → (s.step process .drain).isSome) ∧
    (s.io = .collecting → (s.step process .tryRecv).isSome) := by
  have h := sound_run hrun
  obtain ⟨flying, ho⟩ := h.order
  refine ⟨fun hio job => ?_, fun hio => ?_, fun hio => ?_⟩
  · obtain ⟨r, hr, -⟩ := ho.submit_returns job
    obtain ⟨f, hf, -⟩ := ho.flush_returns
    refine ⟨?_, ?_, ?_⟩
    · simp [Threads.step, hio, hr, after]
    · simp [Threads.step, hio, hf, after]
    · simp only [Threads.step, hio, hf, after]
      split <;> rfl
  · simp [Threads.step, hio]
  · obtain ⟨⟨p, got⟩, hr, -⟩ :=
      ho.tryCollect_returns (List.length_pos_iff.mp (h.busy (.inr hio)))
    cases got <;> simp [Threads.step, hio, hr]

/-- A worker has taken its batch and not finished it. -/
theorem io_calls_return_busy :
    ∃ s : Threads Nat Nat, run (Threads.step (· + 1)) (Threads.new 2)
        [.submit 1, .flush, .worker 0, .submit 2] = some s ∧
      (s.step (· + 1) .collect).isSome = true := by
  have hrun : run (Threads.step (· + 1)) (Threads.new 2)
      [.submit 1, .flush, .worker 0, .submit 2] = some _ := rfl
  exact ⟨_, hrun, ((io_calls_return (· + 1) 2 _ _ hrun).1 rfl 3).2.2⟩

/-- `collect` has just returned. -/
def CollectReturns (a : ThreadAction J) (t : Threads J D) : Prop :=
  t.io = .idle ∧ (a = .tryRecv ∨ a = .collect)

/-- When `collect` returns, no finished job waits on the I/O thread's side. -/
theorem Sound.collected {t : Threads J D} {a : ThreadAction J} (h : Sound process s)
    (hs : s.step process a = some t) (hc : CollectReturns a t) : t.pipe.inlineDone = [] := by
  obtain ⟨flying, ho⟩ := (h.step hs).order
  obtain ⟨hio, ha⟩ := hc
  cases step_cases hs with
  | collectInline => rfl
  | collect => cases hio
  | recv hi hp =>
    exact ho.threaded (List.length_pos_iff.mp (Pipeline.tryCollect_length hp ▸ h.busy (.inr hi)))
  | leave hi hp =>
    exact ho.threaded (List.length_pos_iff.mp (Pipeline.tryCollect_length hp ▸ h.busy (.inr hi)))
  | _ => simp at ha

/-- Without workers, submitting jobs and collecting once delivers them all. -/
theorem run_inline (hio : s.io = .idle) (hn : s.pipe.workers = []) (jobs : List J) :
    (run (Threads.step process) s (jobs.map .submit ++ [.collect])).map delivered =
      some (s.delivered ++ s.pipe.inlineDone ++ jobs.map process) := by
  induction jobs generalizing s with
  | nil => simp [run, Threads.step, hio, hn]
  | cons job jobs ih =>
    obtain ⟨t, hs, hi, hw, hd, hl⟩ : ∃ t, s.step process (.submit job) = some t ∧
        t.io = .idle ∧ t.pipe.workers = [] ∧ t.delivered = s.delivered ∧
        t.pipe.inlineDone = s.pipe.inlineDone ++ [process job] := by
      simp [Threads.step, hio, Pipeline.submit, hn, after]
    rw [List.map_cons, List.cons_append, run, hs, Option.bind_some, ih hi hw, hd, hl]
    simp

/-- In every state of every run, what `collect` has delivered is an initial part of what the
submitted jobs give, in order, without the jobs of the batches refused as full. -/
theorem delivered_in_order (process : J → D) (threads : Nat) (actions : List (ThreadAction J))
    (s : Threads J D) (h : run (Threads.step process) (Threads.new threads) actions = some s) :
    s.pipe.submitted = (s.pipe.dispatched.map Prod.fst).flatten ++ s.pipe.batch ∧
    (∀ entry ∈ s.pipe.dispatched, entry.2 = .sent ∨ entry.2 = .full) ∧
    s.delivered <+: s.pipe.kept.map process ∧
    s.pipe.dropped.toNat = s.pipe.refused.flatten.length % 2 ^ 64 ∧
    s.pipe.kept.length + s.pipe.refused.flatten.length = s.pipe.submitted.length ∧
    ∀ a t, s.step process a = some t → CollectReturns a t → t.pipe.inFlight = 0 →
      t.delivered = t.pipe.kept.map process ∧
      (t.pipe.refused = [] →
        (run (Threads.step process) (Threads.new 0)
          (t.pipe.submitted.map .submit ++ [.collect])).map delivered = some t.delivered) := by
  have hs := sound_run h
  obtain ⟨flying, ho⟩ := hs.order
  refine ⟨ho.submitted, ?_, ho.delivered_prefix, ?_, ?_, ?_⟩
  · intro entry hm
    have hc := ho.connected entry hm
    cases he : entry.2 with
    | sent => exact .inl rfl
    | full => exact .inr rfl
    | disconnected => exact absurd he hc
  · rw [ho.dropped, UInt64.toNat_ofNat']
  · have hl := Pipeline.batchesWith_length ho.connected
    rw [ho.submitted, Pipeline.kept, List.length_append, List.length_append, ← hl]
    unfold Pipeline.accepted Pipeline.refused
    omega
  · intro a t hst hc hf
    obtain ⟨flying', ho'⟩ := (hs.step hst).order
    have hd := ho'.drained hf (hs.collected hst hc)
    refine ⟨hd, fun hr => ?_⟩
    have hk : t.pipe.kept = t.pipe.submitted := by
      rw [Pipeline.kept, Pipeline.accepted, Pipeline.batchesWith_sent ho'.connected hr,
        ho'.submitted]
    rw [run_inline rfl rfl, hd, hk]
    rfl

/-- Three jobs through two workers, the second of which finishes first. -/
theorem delivered_in_order_two_workers :
    ∃ s t : Threads Nat Nat,
      run (Threads.step (· + 1)) (Threads.new 2)
        [.submit 1, .flush, .submit 2, .submit 3, .collect, .drain, .worker 1, .worker 1,
          .worker 0, .worker 0, .tryRecv, .tryRecv] = some s ∧
      s.step (· + 1) .tryRecv = some t ∧ t.delivered = [2, 3, 4] ∧
      t.delivered = t.pipe.kept.map (· + 1) := by
  have hr : run (Threads.step (· + 1)) (Threads.new 2)
      [.submit 1, .flush, .submit 2, .submit 3, .collect, .drain, .worker 1, .worker 1,
        .worker 0, .worker 0, .tryRecv, .tryRecv] = some _ := rfl
  have hd := (delivered_in_order (· + 1) 2 _ _ hr).2.2.2.2.2 .tryRecv _ rfl ⟨rfl, .inl rfl⟩ rfl
  exact ⟨_, _, hr, rfl, rfl, hd.1⟩

end Threads

end Udp2raw
