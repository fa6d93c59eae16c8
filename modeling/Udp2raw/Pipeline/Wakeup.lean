import Udp2raw.Pipeline.Order

/-!
# No lost wake-up

A worker sends a finished batch and then writes to the wake descriptor; `collect`
reads the descriptor and then polls the channels. Between two calls of `collect` a
finished batch at the head of the order has either raised the counter after the
last read, or its worker is still about to write. A finished batch stays at the
head until the next round of `collect`, which delivers it.
-/

namespace Udp2raw

open Checked Transition RoundRobin

variable {J D : Type} {process : J → D}

/-- The part of a worker that the I/O thread does not write outside `collect`. -/
def Worker.output (w : Worker J D) : List (List D) × WorkerPhase D := (w.done, w.phase)

namespace Pipeline

/-- A finished batch at the head of the order has raised the counter, or is about to. -/
def Awake (p : Pipeline J D) : Prop :=
  ∀ w, p.workers[p.nextCollect]? = some w → w.done ≠ [] → 0 < p.wakeCount ∨ w.phase = .waking

/-- The next worker's done channel starts with `dones`. -/
def Finished (dones : List D) (p : Pipeline J D) : Prop :=
  0 < p.inFlightBatches ∧ ∃ w rest, p.workers[p.nextCollect]? = some w ∧ w.done = dones :: rest

/-- The I/O thread has at most added jobs. -/
structure Fed (p q : Pipeline J D) : Prop where
  wakeCount : q.wakeCount = p.wakeCount
  nextCollect : q.nextCollect = p.nextCollect
  inFlight : p.inFlightBatches ≤ q.inFlightBatches
  workers : q.workers.map Worker.output = p.workers.map Worker.output

variable {p q : Pipeline J D}

variable {i : Nat} {dones : List D}

/-- Replacing a worker by one with the same output. -/
theorem map_output_set {w v : Worker J D} (hw : p.workers[i]? = some w) (hv : v.output = w.output) :
    (p.workers.set i v).map Worker.output = p.workers.map Worker.output := by
  obtain ⟨hi, rfl⟩ := List.getElem?_eq_some_iff.mp hw
  rw [List.map_set, hv, ← List.getElem_map Worker.output, List.set_getElem_self]
  simpa using hi

theorem fed_flush (hw : ∀ w ∈ p.workers, w.phase ≠ .exited) {ok : Bool}
    (h : p.flush = .ok (q, ok)) : Fed p q := by
  obtain ⟨-, rfl⟩ | ⟨w, -, hnext, -, rfl⟩ | ⟨-, rfl⟩ := flush_cases hw h
  · exact ⟨rfl, rfl, Nat.le_refl _, rfl⟩
  · exact ⟨rfl, rfl, Nat.le_succ _, map_output_set hnext rfl⟩
  · exact ⟨rfl, rfl, Nat.le_refl _, rfl⟩

theorem fed_submit (hw : ∀ w ∈ p.workers, w.phase ≠ .exited) {job : J} {ok : Bool}
    (h : p.submit process job = .ok (q, ok)) : Fed p q := by
  obtain ⟨-, rfl⟩ | ⟨m, -, hm, hflush | rfl⟩ := submit_cases h
  · exact ⟨rfl, rfl, Nat.le_refl _, rfl⟩
  · have hworkers : m.workers = p.workers := by rw [hm]
    have hfed := fed_flush (by rwa [hworkers]) hflush
    subst hm
    exact ⟨hfed.wakeCount, hfed.nextCollect, hfed.inFlight, hfed.workers⟩
  · subst hm
    exact ⟨rfl, rfl, Nat.le_refl _, rfl⟩

/-- The worker a call of the I/O thread leaves at an index was there with the same output. -/
theorem Fed.worker (h : Fed p q) (i : Nat) :
    q.workers[i]?.map Worker.output = p.workers[i]?.map Worker.output := by
  rw [← List.getElem?_map, ← List.getElem?_map, h.workers]

/-- Feeding keeps the pipeline awake. -/
theorem Awake.fed (h : p.Awake) (hfed : Fed p q) : q.Awake := by
  intro v hv hdone
  have hworker := hfed.worker q.nextCollect
  rw [hv, hfed.nextCollect] at hworker
  obtain ⟨w, hw, houtput⟩ := Option.map_eq_some_iff.mp hworker.symm
  obtain ⟨hdoneEq, hphaseEq⟩ := Prod.mk.inj houtput
  have hawake := h w hw (by rwa [hdoneEq])
  rwa [hfed.wakeCount, ← hphaseEq]

theorem Finished.fed (h : p.Finished dones) (hfed : Fed p q) : q.Finished dones := by
  obtain ⟨hflight, w, rest, hw, hdone⟩ := h
  have hworker := hfed.worker p.nextCollect
  rw [hw] at hworker
  obtain ⟨v, hv, houtput⟩ := Option.map_eq_some_iff.mp hworker
  refine ⟨Nat.lt_of_lt_of_le hflight hfed.inFlight, v, rest, ?_, ?_⟩
  · rwa [hfed.nextCollect]
  · exact (congrArg Prod.fst houtput).trans hdone

/-- What a worker finishes it is about to announce, and the announcement raises the counter. -/
theorem Awake.stepWorker (h : p.Awake) (hq : p.stepWorker process i = some q) : q.Awake := by
  obtain ⟨w, v, wakes, hw, hv, rfl⟩ := stepWorker_cases hq
  intro u hu hdone
  dsimp only at hu ⊢
  by_cases hi : i = p.nextCollect
  · subst hi
    rw [List.getElem?_set_self (List.getElem?_eq_some_iff.mp hw).1] at hu
    cases hu
    cases wakes with
    | true => exact .inl (Nat.succ_pos _)
    | false =>
      obtain ⟨_, _, hphase, -, rfl⟩ | ⟨hphase, -, -, rfl⟩ | ⟨_, -, -, rfl⟩ | ⟨hphase, rfl⟩ :=
        Worker.step_cases hv
      · have hcount := (h w hw hdone).resolve_right (by simp [hphase])
        exact .inl hcount
      · have hcount := (h w hw hdone).resolve_right (by simp [hphase])
        exact .inl hcount
      · exact .inr rfl
      · simp [Worker.step, hphase] at hv
  · rw [List.getElem?_set_ne hi] at hu
    refine (h u hu hdone).imp_left fun hcount => ?_
    split <;> omega

/-- No worker takes a batch back out of its done channel. -/
theorem Finished.stepWorker (h : p.Finished dones) (hq : p.stepWorker process i = some q) :
    q.Finished dones := by
  obtain ⟨w, v, wakes, hw, hv, rfl⟩ := stepWorker_cases hq
  obtain ⟨hflight, u, rest, hu, hdone⟩ := h
  refine ⟨hflight, ?_⟩
  dsimp only
  by_cases hi : i = p.nextCollect
  · subst hi
    rw [List.getElem?_set_self (List.getElem?_eq_some_iff.mp hw).1]
    rw [hw] at hu
    cases hu
    obtain ⟨_, _, -, -, rfl⟩ | ⟨-, -, -, rfl⟩ | ⟨last, -, -, rfl⟩ | ⟨-, rfl⟩ :=
      Worker.step_cases hv
    · exact ⟨_, rest, rfl, hdone⟩
    · exact ⟨_, rest, rfl, hdone⟩
    · exact ⟨_, rest ++ [last], rfl, by rw [hdone, List.cons_append]⟩
    · exact ⟨_, rest, rfl, hdone⟩
  · exact ⟨u, rest, by rw [List.getElem?_set_ne hi, hu], hdone⟩

/-- The receive loop of `collect` ends with nothing finished at the head of the order. -/
theorem awake_of_leave {delivered : List D} {flying : List (List J)}
    (ho : p.InOrder process delivered flying) (h : p.tryCollect = .ok (q, none)) : q.Awake := by
  intro w hw hdone
  exfalso
  unfold tryCollect at h
  split at h
  · next hflight =>
    cases h
    have hflying : flying = [] := List.length_eq_zero_iff.mp (ho.count ▸ hflight)
    have hheld := ho.held _ w hw
    rw [hflying] at hheld
    simp [Worker.held, share] at hheld
    exact hdone hheld.1
  · obtain ⟨u, hu, h⟩ := bind_eq_ok.mp h
    split at h
    · next hempty =>
      cases h
      rw [readAt_eq_ok_iff.mp hu] at hw
      cases hw
      exact hdone hempty
    · cases h

/-- The first round of the receive loop takes the finished batch. -/
theorem Finished.tryCollect (h : p.Finished dones) : ∃ q, p.tryCollect = .ok (q, some dones) := by
  obtain ⟨hflight, w, rest, hw, hdone⟩ := h
  rw [Pipeline.tryCollect, if_neg (by omega), readAt_eq_ok_iff.mpr hw, ok_bind, hdone]
  exact ⟨_, rfl⟩

end Pipeline

namespace Threads

/-- Between two calls of `collect` no finished batch at the head of the order is unannounced. -/
structure Attentive (process : J → D) (s : Threads J D) : Prop where
  sound : Sound process s
  awake : s.io = .idle → s.pipe.Awake

theorem attentive_new (process : J → D) (threads : Nat) :
    Attentive process (Threads.new threads) where
  sound := sound_new process threads
  awake _ w hw hdone := by
    rw [List.eq_of_mem_replicate (List.mem_of_getElem? hw)] at hdone
    exact absurd rfl hdone

/-- Every action keeps the I/O thread attentive. -/
theorem Attentive.step {s t : Threads J D} {a : ThreadAction J} (h : Attentive process s)
    (hs : s.step process a = some t) : Attentive process t := by
  refine ⟨h.sound.step hs, fun hidle => ?_⟩
  cases step_cases hs with
  | submit hio hp =>
    exact (h.awake hio).fed (Pipeline.fed_submit (h.sound.alive (.inl hio)).not_exited hp)
  | flush hio hp =>
    exact (h.awake hio).fed (Pipeline.fed_flush (h.sound.alive (.inl hio)).not_exited hp)
  | collectInline hio hn => exact h.awake hio
  | collect hio hn hp => cases hidle
  | drain hio => cases hidle
  | recv hio hp =>
    rw [show s.io = .idle from hidle] at hio
    cases hio
  | leave hio hp =>
    obtain ⟨flying, ho⟩ := h.sound.order
    exact Pipeline.awake_of_leave ho hp
  | drop hio => cases hidle
  | dropSender hio hw => cases hidle
  | startJoin hio hw => cases hidle
  | joined hio hw he => cases hidle
  | closed hio hw => cases hidle
  | worker hp => exact (h.awake hidle).stepWorker hp

theorem attentive_run {threads : Nat} {actions : List (ThreadAction J)} {s : Threads J D}
    (h : run (Threads.step process) (Threads.new threads) actions = some s) : Attentive process s :=
  run_invariant (fun _ _ _ hs => hs.step) (attentive_new process threads) h

/-- `dones` is finished at the head of the order, and nothing was delivered since `before`. -/
structure Waiting (process : J → D) (before : List D) (dones : List D) (s : Threads J D) :
    Prop where
  sound : Sound process s
  running : s.Running
  finished : s.pipe.Finished dones
  delivered : s.delivered = before

/-- Until the next round of the receive loop a finished batch waits at the head. -/
theorem Waiting.step {before dones : List D} {s t : Threads J D} {a : ThreadAction J}
    (ha : a ≠ .tryRecv ∧ a ≠ .drop) (h : Waiting process before dones s)
    (hs : s.step process a = some t) : Waiting process before dones t := by
  have hsound := h.sound.step hs
  have halive := (h.sound.alive h.running).not_exited
  have hjoining : ∀ k, s.io ≠ .joining k := fun k hio => by
    obtain hr | hr | hr := h.running <;> rw [hio] at hr <;> cases hr
  cases step_cases hs with
  | submit hio hp =>
    exact ⟨hsound, .inl rfl, h.finished.fed (Pipeline.fed_submit halive hp), h.delivered⟩
  | flush hio hp =>
    exact ⟨hsound, .inl rfl, h.finished.fed (Pipeline.fed_flush halive hp), h.delivered⟩
  | collectInline hio hn =>
    obtain ⟨-, w, rest, hw, -⟩ := h.finished
    rw [hn] at hw
    cases hw
  | collect hio hn hp =>
    exact ⟨hsound, .inr (.inl rfl), h.finished.fed (Pipeline.fed_flush halive hp), h.delivered⟩
  | drain hio => exact ⟨hsound, .inr (.inr rfl), h.finished, h.delivered⟩
  | recv hio hp => exact absurd rfl ha.1
  | leave hio hp => exact absurd rfl ha.1
  | drop hio => exact absurd rfl ha.2
  | dropSender hio hw => exact absurd rfl ha.2
  | startJoin hio hw => exact absurd rfl ha.2
  | joined hio hw he => exact absurd hio (hjoining _)
  | closed hio hw => exact absurd hio (hjoining _)
  | worker hp => exact ⟨hsound, h.running, h.finished.stepWorker hp, h.delivered⟩

/-- The next round of the receive loop delivers the waiting batch. -/
theorem Waiting.received {before dones : List D} {s : Threads J D}
    (h : Waiting process before dones s) (hio : s.io = .collecting) :
    ∃ t, s.step process .tryRecv = some t ∧ t.delivered = before ++ dones := by
  obtain ⟨p, hp⟩ := h.finished.tryCollect
  refine ⟨{ s with pipe := p, delivered := s.delivered ++ dones }, ?_, ?_⟩
  · simp only [Threads.step, hio, hp]
  · rw [h.delivered]

/-- In every state of every run in which the I/O thread is between two calls of `collect`, a batch
that waits in the done channel of the next worker has raised the wake counter, or its worker is
between the send and the increment, which it can then take. The batch is what the next round of the
receive loop delivers, whatever happens before it. -/
theorem no_lost_wakeup (process : J → D) (threads : Nat) (actions : List (ThreadAction J))
    (s : Threads J D) (h : run (Threads.step process) (Threads.new threads) actions = some s)
    (hidle : s.io = .idle) (w : Worker J D) (hw : s.pipe.workers[s.pipe.nextCollect]? = some w)
    (hflight : 0 < s.pipe.inFlightBatches) (dones : List D) (rest : List (List D))
    (hdone : w.done = dones :: rest) :
    (0 < s.pipe.wakeCount ∨ w.phase = .waking ∧
      ∃ t, s.step process (.worker s.pipe.nextCollect) = some t ∧ 0 < t.pipe.wakeCount) ∧
    ∀ (later : List (ThreadAction J)) (t : Threads J D), (∀ a ∈ later, a ≠ .tryRecv ∧ a ≠ .drop) →
      run (Threads.step process) s later = some t →
      t.delivered = s.delivered ∧ (t.io = .collecting →
        ∃ u, t.step process .tryRecv = some u ∧ u.delivered = s.delivered ++ dones) := by
  have hattentive := attentive_run h
  constructor
  · refine (hattentive.awake hidle w hw (by simp [hdone])).imp_right fun hphase => ⟨hphase, ?_⟩
    have hworker : w.step process = some ({ w with phase := .receiving }, true) := by
      rw [Worker.step, hphase]
    have hstep : s.step process (.worker s.pipe.nextCollect) = some { s with pipe := { s.pipe with
        workers := s.pipe.workers.set s.pipe.nextCollect { w with phase := .receiving }
        wakeCount := s.pipe.wakeCount + 1 } } := by
      simp only [Threads.step, Pipeline.stepWorker, hw, Option.bind_eq_bind, Option.bind_some,
        hworker]
      rfl
    exact ⟨_, hstep, Nat.succ_pos _⟩
  · intro later t hlater hrun
    have hwaiting : Waiting process s.delivered dones s :=
      ⟨hattentive.sound, .inl hidle, ⟨hflight, w, rest, hw, hdone⟩, rfl⟩
    have hend := run_invariant_of (fun _ _ _ ha hs hst => hs.step ha hst) hlater hwaiting hrun
    exact ⟨hend.delivered, hend.received⟩

/-- The second of two workers finishes first, which raises the counter but leaves nothing at the
head. Then the first sends, and has not yet written when the I/O thread is about to block. -/
theorem no_lost_wakeup_two_workers :
    ∃ s : Threads Nat Nat,
      run (Threads.step (· + 1)) (Threads.new 2)
        [.submit 1, .flush, .submit 2, .flush, .worker 1, .worker 1, .worker 1, .collect, .drain,
          .tryRecv, .worker 0, .worker 0] = some s ∧
      s.pipe.wakeCount = 0 ∧
      ∃ t, s.step (· + 1) (.worker 0) = some t ∧ 0 < t.pipe.wakeCount := by
  let first : Worker Nat Nat := { phase := .waking, done := [[2]] }
  let second : Worker Nat Nat := { done := [[3]] }
  let s : Threads Nat Nat :=
    { pipe :=
        { workers := [first, second], inFlightBatches := 2, submitted := [1, 2]
          dispatched := [([1], .sent), ([2], .sent)] } }
  have hr : run (Threads.step (· + 1)) (Threads.new 2)
      [.submit 1, .flush, .submit 2, .flush, .worker 1, .worker 1, .worker 1, .collect, .drain,
        .tryRecv, .worker 0, .worker 0] = some s := rfl
  have hwake := (no_lost_wakeup (· + 1) 2 _ s hr rfl first rfl (Nat.succ_pos 1) [2] [] rfl).1
  exact ⟨s, hr, rfl, (hwake.resolve_left (Nat.lt_irrefl 0)).2⟩

end Threads

end Udp2raw
