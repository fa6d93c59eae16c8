import Mathlib.Algebra.Order.BigOperators.Group.List
import Udp2raw.Pipeline.Order

/-!
# Dropping the pipeline

`Drop::drop` joins the workers while their done channels are alive and no longer
read. A worker then gets rid of at most `queueDepth` batches, so it reaches its
exit exactly when it owes no more than that: finished batches in its done channel,
the batch it is sending, and batches in its job channel together.
-/

namespace Udp2raw

open Checked Transition

variable {J D : Type} {process : J → D}

/-! ## What a worker owes -/

namespace Worker

/-- The number of batches a worker has taken and `collect` has not received. -/
def owed (w : Worker J D) : Nat := w.done.length + w.current.length + w.jobs.length

/-- The done channel is within its capacity, and an exited worker left no job behind. -/
def Bounded (w : Worker J D) : Prop :=
  w.done.length ≤ queueDepth ∧ (w.phase = .exited → w.jobs = [])

/-- Upper bound on the number of steps a worker can still take. -/
def remaining (w : Worker J D) : Nat :=
  3 * w.jobs.length +
    match w.phase with
    | .exited => 0
    | .receiving => 1
    | .waking => 2
    | .sending _ => 3

variable {w v : Worker J D} {wakes : Bool}

/-- A step changes nothing of what a worker owes. -/
theorem step_owed (h : w.step process = some (v, wakes)) : v.owed = w.owed := by
  obtain ⟨batch, rest, hp, hj, rfl⟩ | ⟨hp, hj, -, rfl⟩ | ⟨dones, hp, -, rfl⟩ | ⟨hp, rfl⟩ :=
    step_cases h
  · simp [owed, current, hp, hj]
    omega
  · simp [owed, current, hp]
  · simp [owed, current, hp]
  · simp [owed, current, hp]

/-- A step keeps the queues bounded. -/
theorem step_bounded (h : w.step process = some (v, wakes)) (hb : w.Bounded) : v.Bounded := by
  obtain ⟨batch, rest, hp, hj, rfl⟩ | ⟨hp, hj, -, rfl⟩ | ⟨dones, hp, hl, rfl⟩ | ⟨hp, rfl⟩ :=
    step_cases h
  · exact ⟨hb.1, nofun⟩
  · exact ⟨hb.1, fun _ => hj⟩
  · exact ⟨by rwa [List.length_append], nofun⟩
  · exact ⟨hb.1, nofun⟩

/-- Every step leaves less to do. -/
theorem step_remaining (h : w.step process = some (v, wakes)) : v.remaining < w.remaining := by
  obtain ⟨batch, rest, hp, hj, rfl⟩ | ⟨hp, hj, -, rfl⟩ | ⟨dones, hp, -, rfl⟩ | ⟨hp, rfl⟩ :=
    step_cases h
  · simp only [remaining, hp, hj, List.length_cons]
    omega
  · simp [remaining, hp]
  · simp [remaining, hp]
  · simp [remaining, hp]

/-- A worker without a sender that owes at most a channelful can always go on. -/
theorem step_of_owed_le (hs : w.senderAlive = false) (he : w.phase ≠ .exited)
    (ho : w.owed ≤ queueDepth) : w.step process ≠ none := by
  unfold step
  cases hp : w.phase with
  | receiving => cases w.jobs <;> simp [hs]
  | sending dones =>
    have hl : w.done.length < queueDepth := by
      simp only [owed, current, hp, List.length_singleton] at ho
      omega
    simp [hl]
  | waking => simp
  | exited => exact absurd hp he

/-- A worker that has exited owes only what fits its done channel. -/
theorem Bounded.owed_le (hb : w.Bounded) (he : w.phase = .exited) : w.owed ≤ queueDepth := by
  simpa [owed, current, he, hb.2 he] using hb.1

end Worker

/-! ## Capacity of the done channels -/

/-- Every worker keeps to the capacity of its done channel. -/
def Pipeline.Bounded (p : Pipeline J D) : Prop := ∀ w ∈ p.workers, w.Bounded

namespace Pipeline.Bounded

variable {p q : Pipeline J D}

theorem set (h : p.Bounded) {i : Nat} {v : Worker J D} (hv : v.Bounded) :
    ∀ w ∈ p.workers.set i v, w.Bounded := by
  intro w hw
  rcases List.mem_or_eq_of_mem_set hw with hw | rfl
  · exact h w hw
  · exact hv

/-- A flush keeps the queues bounded. -/
theorem flush (h : p.Bounded) (ha : p.Alive) {ok : Bool} (hq : p.flush = .ok (q, ok)) :
    q.Bounded := by
  obtain ⟨-, rfl⟩ | ⟨w, -, hg, -, rfl⟩ | ⟨-, rfl⟩ := flush_cases ha.not_exited hq
  · exact h
  · have hm := List.mem_of_getElem? hg
    exact h.set ⟨(h w hm).1, fun he => absurd he (ha w hm).2⟩
  · exact h

theorem submit (h : p.Bounded) (ha : p.Alive) {job : J} {ok : Bool}
    (hq : p.submit process job = .ok (q, ok)) : q.Bounded := by
  obtain ⟨-, rfl⟩ | ⟨m, -, hm, hf⟩ := submit_cases hq
  · exact h
  · have hb : m.Bounded ∧ m.Alive := by
      rw [hm]
      exact ⟨h, ha⟩
    rcases hf with hf | rfl
    · exact hb.1.flush hb.2 hf
    · exact hb.1

theorem tryCollect (h : p.Bounded) {got : Option (List D)} (hq : p.tryCollect = .ok (q, got)) :
    q.Bounded := by
  obtain ⟨rfl, -⟩ | ⟨w, dones, rest, -, hw, hd, -, rfl⟩ := tryCollect_cases hq
  · exact h
  · obtain ⟨hl, he⟩ := h w (List.mem_of_getElem? hw)
    rw [hd, List.length_cons] at hl
    exact h.set ⟨by simpa using Nat.le_of_lt hl, he⟩

theorem stepWorker (h : p.Bounded) {i : Nat} (hq : p.stepWorker process i = some q) :
    q.Bounded := by
  obtain ⟨w, v, wakes, hw, hv, rfl⟩ := stepWorker_cases hq
  exact h.set (Worker.step_bounded hv (h w (List.mem_of_getElem? hw)))

end Pipeline.Bounded

namespace Threads

variable {s : Threads J D} {w v : Worker J D} {i : Nat} {debts : List Nat}

/-- Every action keeps the queues bounded. -/
theorem bounded_step {t : Threads J D} {a : ThreadAction J} (hs : Sound process s)
    (h : s.pipe.Bounded) (hst : s.step process a = some t) : t.pipe.Bounded := by
  cases step_cases hst with
  | submit hio hp => exact h.submit (hs.alive (.inl hio)) hp
  | flush hio hp => exact h.flush (hs.alive (.inl hio)) hp
  | collect hio hn hp => exact h.flush (hs.alive (.inl hio)) hp
  | recv hio hp => exact h.tryCollect hp
  | leave hio hp => exact h.tryCollect hp
  | dropSender hio hw =>
    have hb := h _ (List.mem_of_getElem? hw)
    exact h.set ⟨hb.1, hb.2⟩
  | worker hp => exact h.stepWorker hp
  | _ => exact h

/-- The queues are bounded along every run. -/
theorem bounded_run {threads : Nat} {actions : List (ThreadAction J)}
    (h : run (Threads.step process) (Threads.new threads) actions = some s) : s.pipe.Bounded := by
  have hb : (Threads.new threads : Threads J D).pipe.Bounded := by
    intro w hw
    rw [List.eq_of_mem_replicate hw]
    exact ⟨Nat.zero_le _, nofun⟩
  exact (run_invariant (I := fun s => Sound process s ∧ s.pipe.Bounded)
    (fun _ _ _ hs hst => ⟨hs.1.step hst, bounded_step hs.1 hs.2 hst⟩)
    ⟨sound_new process threads, hb⟩ h).2

/-! ## After the drop has begun -/

/-- How many job senders a drop has got rid of, out of `total`. -/
def sendersGone (total : Nat) : IoPhase → Option Nat
  | .dropping k => some k
  | .joining _ | .closed => some total
  | _ => none

/-- The state of a drop that began when the workers owed `debts`. -/
structure Closing (debts : List Nat) (s : Threads J D) : Prop where
  owed : s.pipe.workers.map Worker.owed = debts
  bounded : s.pipe.Bounded
  senders : ∃ n, sendersGone s.pipe.workers.length s.io = some n ∧
    ∀ i w, i < n → s.pipe.workers[i]? = some w → w.senderAlive = false

/-- The I/O thread waits for a worker, and no worker that is left can take a step. -/
def Deadlocked (process : J → D) (s : Threads J D) : Prop :=
  ∃ k w, s.io = .joining k ∧ s.pipe.workers[k]? = some w ∧ w.phase ≠ .exited ∧
    ∀ v ∈ s.pipe.workers, v.phase ≠ .exited → v.step process = none

/-- Replacing a worker by one that owes the same. -/
theorem map_owed_set {p : Pipeline J D} (hw : p.workers[i]? = some w) (hv : v.owed = w.owed) :
    (p.workers.set i v).map Worker.owed = p.workers.map Worker.owed := by
  apply List.ext_getElem?
  intro j
  simp only [List.getElem?_map, List.getElem?_set]
  split
  · next hij =>
    subst hij
    split <;> simp_all
  · rfl

/-- A worker of the updated list is the new one or an old one in its place. -/
theorem getElem?_set_cases {workers : List (Worker J D)} {j : Nat} {u : Worker J D}
    (h : (workers.set i v)[j]? = some u) : (j = i ∧ u = v) ∨ (j ≠ i ∧ workers[j]? = some u) := by
  rw [List.getElem?_set] at h
  split at h
  · next hij =>
    split at h
    · exact .inl ⟨hij.symm, (Option.some.inj h).symm⟩
    · cases h
  · next hij => exact .inr ⟨Ne.symm hij, h⟩

/-- Every action keeps the debts of a closing pipeline. -/
theorem Closing.step {debts : List Nat} {s t : Threads J D} {a : ThreadAction J}
    (h : Closing debts s) (hs : s.step process a = some t) : Closing debts t := by
  obtain ⟨n, hn, hd⟩ := h.senders
  cases step_cases hs with
  | @dropSender k w hio hw =>
    have hv : ({ w with senderAlive := false } : Worker J D).owed = w.owed := rfl
    have hb := h.bounded _ (List.mem_of_getElem? hw)
    rw [hio] at hn
    obtain rfl := Option.some.inj hn
    refine ⟨(map_owed_set hw hv).trans h.owed, h.bounded.set ⟨hb.1, hb.2⟩, k + 1, rfl, ?_⟩
    intro i u hi hu
    obtain ⟨-, rfl⟩ | ⟨hne, hu⟩ := getElem?_set_cases hu
    · rfl
    · exact hd i u (by omega) hu
  | @startJoin k hio hw =>
    rw [hio] at hn
    obtain rfl := Option.some.inj hn
    have hk := List.getElem?_eq_none_iff.mp hw
    exact ⟨h.owed, h.bounded, _, rfl, fun i u hi hu => hd i u (Nat.lt_of_lt_of_le hi hk) hu⟩
  | joined hio hw he =>
    rw [hio] at hn
    exact ⟨h.owed, h.bounded, n, hn, hd⟩
  | closed hio hw =>
    rw [hio] at hn
    exact ⟨h.owed, h.bounded, n, hn, hd⟩
  | @worker i p hp =>
    have hb := h.bounded.stepWorker hp
    have hl := Pipeline.stepWorker_length hp
    obtain ⟨w, v, wakes, hw, hv, rfl⟩ := Pipeline.stepWorker_cases hp
    refine ⟨(map_owed_set hw (Worker.step_owed hv)).trans h.owed, hb, n, by rwa [hl], ?_⟩
    intro j u hj hu
    obtain ⟨rfl, rfl⟩ | ⟨-, hu⟩ := getElem?_set_cases hu
    · rw [Worker.step_senderAlive hv]
      exact hd j w hj hw
    · exact hd j u hj hu
  | submit hio => simp [hio, sendersGone] at hn
  | flush hio => simp [hio, sendersGone] at hn
  | collectInline hio => simp [hio, sendersGone] at hn
  | collect hio => simp [hio, sendersGone] at hn
  | drain hio => simp [hio, sendersGone] at hn
  | recv hio => simp [hio, sendersGone] at hn
  | leave hio => simp [hio, sendersGone] at hn
  | drop hio => simp [hio, sendersGone] at hn

/-- With every debt within the capacity, a drop always has a worker that can go on. -/
theorem Closing.not_deadlocked (h : Closing debts s) (hd : ∀ n ∈ debts, n ≤ queueDepth) :
    ¬ Deadlocked process s := by
  rintro ⟨k, w, hio, hw, he, hblocked⟩
  obtain ⟨n, hn, hs⟩ := h.senders
  rw [hio] at hn
  obtain rfl := Option.some.inj hn
  have hm := List.mem_of_getElem? hw
  have hk : k < s.pipe.workers.length := (List.getElem?_eq_some_iff.mp hw).1
  have ho : w.owed ≤ queueDepth := hd _ (h.owed ▸ List.mem_map_of_mem hm)
  exact Worker.step_of_owed_le (hs k w hk hw) he ho (hblocked w hm he)

/-! ## Reaching the deadlock -/

/-- The drop gets as far as the joins. -/
theorem Closing.reach_join (process : J → D) {k : Nat} (h : Closing debts s)
    (hio : s.io = .dropping k) :
    ∃ actions t, run (Threads.step process) s actions = some t ∧ Closing debts t ∧
      t.io = .joining 0 := by
  -- one action for each sender that is left, and one to go on to the joins
  induction hn : s.pipe.workers.length - k generalizing s k with
  | zero =>
    have hw : s.pipe.workers[k]? = none := List.getElem?_eq_none (by omega)
    have hs : s.step process .drop = some { s with io := .joining 0 } := by
      simp [Threads.step, hio, hw]
    exact ⟨[.drop], _, run_cons.mpr ⟨_, hs, rfl⟩, h.step hs, rfl⟩
  | succ n ih =>
    have hk : k < s.pipe.workers.length := by omega
    have hs : s.step process .drop = some { s with
        pipe := { s.pipe with
          workers := s.pipe.workers.set k { s.pipe.workers[k] with senderAlive := false } }
        io := .dropping (k + 1) } := by
      simp [Threads.step, hio, hk]
    obtain ⟨actions, t, ht, hc, hj⟩ := ih (h.step hs) rfl (by simp; omega)
    exact ⟨.drop :: actions, t, run_cons.mpr ⟨_, hs, ht⟩, hc, hj⟩

/-- One worker with less to do leaves less in all. -/
private theorem sum_set_lt {workers : List (Worker J D)} (hw : workers[i]? = some w)
    (hv : v.remaining < w.remaining) :
    ((workers.set i v).map Worker.remaining).sum < (workers.map Worker.remaining).sum := by
  induction workers generalizing i with
  | nil => cases hw
  | cons u workers ih =>
    cases i with
    | zero =>
      cases hw
      simpa using hv
    | succ i => simpa using ih hw

/-- Left to themselves, the workers come to rest. -/
theorem Closing.settle (process : J → D) (h : Closing debts s) :
    ∃ actions t, run (Threads.step process) s actions = some t ∧
      (Closing debts t ∧ t.io = s.io) ∧ ∀ w ∈ t.pipe.workers, w.step process = none := by
  refine run_until (fun s => (s.pipe.workers.map Worker.remaining).sum) ?_ s ⟨h, rfl⟩
  rintro m ⟨hm, hio⟩ hg
  push Not at hg
  obtain ⟨w, hmem, hw⟩ := hg
  obtain ⟨i, hi, rfl⟩ := List.mem_iff_getElem.mp hmem
  obtain ⟨⟨v, wakes⟩, hv⟩ := Option.ne_none_iff_exists'.mp hw
  have hgi := List.getElem?_eq_getElem hi
  have hs : m.step process (.worker i) = some { m with
      pipe := { m.pipe with
        workers := m.pipe.workers.set i v
        wakeCount := if wakes then m.pipe.wakeCount + 1 else m.pipe.wakeCount } } := by
    simp [Threads.step, Pipeline.stepWorker, hgi, hv]
  exact ⟨_, _, hs, ⟨hm.step hs, hio⟩, sum_set_lt hgi (Worker.step_remaining hv)⟩

/-- With the workers at rest and one of them not gone, the joins get stuck. -/
theorem reach_deadlock {k : Nat} (hio : s.io = .joining k)
    (hrest : ∀ v ∈ s.pipe.workers, v.step process = none) (hki : k ≤ i)
    (hw : s.pipe.workers[i]? = some w) (he : w.phase ≠ .exited) :
    ∃ actions t, run (Threads.step process) s actions = some t ∧ Deadlocked process t := by
  induction hn : i - k generalizing s k with
  | zero =>
    obtain rfl : k = i := by omega
    exact ⟨[], s, rfl, k, w, hio, hw, he, fun v hv _ => hrest v hv⟩
  | succ n ih =>
    have hk : k < s.pipe.workers.length := by
      have hi := (List.getElem?_eq_some_iff.mp hw).1
      omega
    have hgk := List.getElem?_eq_getElem hk
    by_cases hx : s.pipe.workers[k].phase = .exited
    · have hs : s.step process .join = some { s with io := .joining (k + 1) } := by
        simp [Threads.step, hio, hk, hx]
      obtain ⟨actions, t, ht, hd⟩ := ih (s := { s with io := .joining (k + 1) }) rfl hrest
        (by omega) hw (by omega)
      exact ⟨.join :: actions, t, run_cons.mpr ⟨_, hs, ht⟩, hd⟩
    · exact ⟨[], s, rfl, k, _, hio, hgk, hx, fun v hv _ => hrest v hv⟩

/-- When the pipeline begins to be dropped, the state is a closing one. -/
theorem closing_drop (hb : s.pipe.Bounded) :
    Closing (s.pipe.workers.map Worker.owed) { s with io := .dropping 0 } :=
  ⟨rfl, hb, 0, rfl, fun _ _ hi => absurd hi (Nat.not_lt_zero _)⟩

theorem step_drop (hio : s.io = .idle) :
    s.step process .drop = some { s with io := .dropping 0 } := by
  simp [Threads.step, hio]

/-- A drop of the pipeline cannot deadlock exactly when no worker owes more batches than its
done channel holds at the moment the drop begins. -/
theorem drop_deadlock_free_iff (process : J → D) (threads : Nat) (actions : List (ThreadAction J))
    (s : Threads J D) (h : run (Threads.step process) (Threads.new threads) actions = some s)
    (hio : s.io = .idle) :
    (∀ rest t, run (Threads.step process) s (.drop :: rest) = some t →
        ¬ Deadlocked process t) ↔
      ∀ w ∈ s.pipe.workers, w.owed ≤ queueDepth := by
  have hc := closing_drop (bounded_run h)
  constructor
  · intro hfree w hw
    by_contra hlt
    obtain ⟨before, j, hj, hcj, hjoin⟩ := hc.reach_join process rfl
    obtain ⟨during, r, hr, ⟨hcr, hrio⟩, hrest⟩ := hcj.settle process
    -- the debt of `w` is still there, so the worker in its place cannot have exited
    have howed : w.owed ∈ r.pipe.workers.map Worker.owed := hcr.owed ▸ List.mem_map_of_mem hw
    obtain ⟨v, hv, hvo⟩ := List.mem_map.mp howed
    have hve : v.phase ≠ .exited := fun he => hlt (hvo ▸ (hcr.bounded v hv).owed_le he)
    obtain ⟨i, hi, rfl⟩ := List.mem_iff_getElem.mp hv
    obtain ⟨after, t, ht, hd⟩ := reach_deadlock (hrio.trans hjoin) hrest (Nat.zero_le i)
      (List.getElem?_eq_getElem hi) hve
    refine hfree (before ++ (during ++ after)) t ?_ hd
    exact run_cons.mpr ⟨_, step_drop hio, run_append.mpr ⟨j, hj, run_append.mpr ⟨r, hr, ht⟩⟩⟩
  · intro hle rest t ht
    obtain ⟨m, hm, ht⟩ := run_cons.mp ht
    obtain rfl := Option.some.inj ((step_drop hio).symm.trans hm)
    have hct := run_invariant (fun _ _ _ hs => hs.step) hc ht
    refine hct.not_deadlocked fun n hn => ?_
    obtain ⟨w, hw, rfl⟩ := List.mem_map.mp hn
    exact hle w hw

/-- A drop with one batch under way ends. -/
theorem drop_deadlock_free_one_batch :
    ∃ s : Threads Nat Nat,
      run (Threads.step id) (Threads.new 1) [.submit 5, .flush] = some s ∧
      ∀ rest t, run (Threads.step id) s (.drop :: rest) = some t → ¬ Deadlocked id t := by
  have hr : run (Threads.step id) (Threads.new 1) [.submit 5, .flush] = some _ := rfl
  refine ⟨_, hr, (drop_deadlock_free_iff id 1 _ _ hr rfl).mpr fun w hw => ?_⟩
  rw [List.mem_singleton.mp hw]
  decide

/-- From a single resting worker, one job gets it to the point of sending a batch. -/
private theorem reach_sending {s : Threads Unit Unit} {done : List (List Unit)} (hio : s.io = .idle)
    (hw : s.pipe.workers = [{ done }]) (hb : s.pipe.batch = []) (hd : s.pipe.nextDispatch = 0) :
    ∃ t, run (Threads.step id) s [.submit (), .flush, .worker 0] = some t ∧ t.io = .idle ∧
      t.pipe.workers = [{ done, phase := .sending [()] }] ∧ t.pipe.batch = [] ∧
      t.pipe.nextDispatch = 0 := by
  obtain ⟨⟨workers, _, _, _, _, batch, _, _, _, _⟩, io, delivered⟩ := s
  subst hio hw hb hd
  exact ⟨_, rfl, rfl, rfl, rfl, Nat.mod_one _⟩

/-- A single worker whose done channel holds `n` batches of one job, and nothing else. -/
private theorem reach_filled (n : Nat) (hn : n ≤ queueDepth) :
    ∃ actions, ∃ s : Threads Unit Unit,
      run (Threads.step id) (Threads.new 1) actions = some s ∧ s.io = .idle ∧
      s.pipe.workers = [{ done := List.replicate n [()] }] ∧ s.pipe.batch = [] ∧
      s.pipe.nextDispatch = 0 := by
  induction n with
  | zero => exact ⟨[], _, rfl, rfl, rfl, rfl, rfl⟩
  | succ n ih =>
    obtain ⟨actions, s, hs, hio, hw, hb, hd⟩ := ih (by omega)
    obtain ⟨t, ht, hio, hw, hb, hd⟩ := reach_sending hio hw hb hd
    have hlt : n < queueDepth := by omega
    have hsend : ∃ u, run (Threads.step id) t [.worker 0, .worker 0] = some u ∧ u.io = .idle ∧
        u.pipe.workers = [{ done := List.replicate (n + 1) [()] }] ∧ u.pipe.batch = [] ∧
        u.pipe.nextDispatch = 0 := by
      simp [run, Threads.step, Pipeline.stepWorker, hw, Worker.step, hlt, hio, hb, hd,
        List.replicate_succ']
    obtain ⟨u, hu, hrest⟩ := hsend
    exact ⟨_, u, run_append.mpr ⟨s, hs, run_append.mpr ⟨t, ht, hu⟩⟩, hrest⟩

/-- A worker that is sending to a full done channel when the drop begins never exits. -/
theorem drop_can_deadlock :
    ¬ ∀ (threads : Nat) (actions : List (ThreadAction Unit)) (s : Threads Unit Unit),
      1 ≤ threads → run (Threads.step id) (Threads.new threads) actions = some s →
        ¬ Deadlocked id s := by
  intro hfree
  obtain ⟨fill, s, hs, hio, hw, hb, hd⟩ := reach_filled queueDepth (Nat.le_refl _)
  obtain ⟨t, ht, hio, hw, hb, hd⟩ := reach_sending hio hw hb hd
  obtain ⟨u, hu, huio, huw⟩ : ∃ u, run (Threads.step id) t [.drop, .drop, .drop] = some u ∧
      u.io = .joining 0 ∧ u.pipe.workers =
        [⟨[], false, .sending [()], List.replicate queueDepth [()]⟩] := by
    simp [run, Threads.step, hio, hw]
  have hrun := run_append.mpr ⟨s, hs, run_append.mpr ⟨t, ht, hu⟩⟩
  have hjoin : u.pipe.workers[0]? =
      some ⟨[], false, .sending [()], List.replicate queueDepth [()]⟩ := by rw [huw]; rfl
  refine hfree 1 _ u (Nat.le_refl _) hrun ⟨0, _, huio, hjoin, fun h => ?_, fun v hv _ => ?_⟩
  · cases h
  rw [huw] at hv
  rw [List.mem_singleton.mp hv]
  simp [Worker.step]

end Threads

end Udp2raw
