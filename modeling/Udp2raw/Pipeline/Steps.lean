import Udp2raw.Pipeline.Model

/-!
# What a step of the pipeline can do

One inversion lemma for each function of the pipeline and one for the whole
system. Every invariant of the pipeline is derived from these.
-/

namespace Udp2raw

open Checked

variable {J D : Type} {process : J → D}

/-- The four things a worker thread can do. -/
theorem Worker.step_cases {w v : Worker J D} {wakes : Bool} (h : w.step process = some (v, wakes)) :
    (∃ batch rest, w.phase = .receiving ∧ w.jobs = batch :: rest ∧
      v = { w with jobs := rest, phase := .sending (batch.map process) }) ∨
    (w.phase = .receiving ∧ w.jobs = [] ∧ w.senderAlive = false ∧
      v = { w with phase := .exited }) ∨
    (∃ dones, w.phase = .sending dones ∧ w.done.length < queueDepth ∧
      v = { w with done := w.done ++ [dones], phase := .waking }) ∨
    (w.phase = .waking ∧ v = { w with phase := .receiving }) := by
  unfold Worker.step at h
  split at h
  · next hp =>
    split at h
    · next batch rest hj =>
      cases h
      exact .inl ⟨batch, rest, hp, hj, rfl⟩
    · next hj =>
      split at h
      · cases h
      · next ha =>
        cases h
        exact .inr (.inl ⟨hp, hj, by simpa using ha, rfl⟩)
  · next dones hp =>
    split at h
    · next hd =>
      cases h
      exact .inr (.inr (.inl ⟨dones, hp, hd, rfl⟩))
    · cases h
  · next hp =>
    cases h
    exact .inr (.inr (.inr ⟨hp, rfl⟩))
  · cases h

theorem Worker.step_senderAlive {w v : Worker J D} {wakes : Bool}
    (h : w.step process = some (v, wakes)) : v.senderAlive = w.senderAlive := by
  obtain ⟨_, _, -, -, rfl⟩ | ⟨-, -, -, rfl⟩ | ⟨_, -, -, rfl⟩ | ⟨-, rfl⟩ := step_cases h <;> rfl

namespace Pipeline

variable {q p : Pipeline J D} {ok : Bool}

/-- A step of worker `i` replaces that worker by its successor. -/
theorem stepWorker_cases {i : Nat} (h : p.stepWorker process i = some q) :
    ∃ w v wakes, p.workers[i]? = some w ∧ w.step process = some (v, wakes) ∧
      q = { p with
        workers := p.workers.set i v
        wakeCount := if wakes then p.wakeCount + 1 else p.wakeCount } := by
  simp only [stepWorker, Option.bind_eq_bind, Option.bind_eq_some_iff, Option.pure_def,
    Option.some.injEq] at h
  obtain ⟨w, hw, ⟨v, wakes⟩, hv, rfl⟩ := h
  exact ⟨w, v, wakes, hw, hv, rfl⟩

/-- A batch is sent to a queue with room. -/
theorem trySend_sent {w : Worker J D} (h : trySend w = .sent) : w.jobs.length < queueDepth := by
  unfold trySend at h
  split at h
  · cases h
  · split at h
    · assumption
    · cases h

/-- Only a worker that left is disconnected. -/
theorem trySend_disconnected {w : Worker J D} (h : trySend w = .disconnected) :
    w.phase = .exited := by
  unfold trySend at h
  split at h
  · assumption
  · split at h <;> cases h

/-- What `flush` does to a pipeline none of whose workers has exited. -/
theorem flush_cases (hw : ∀ w ∈ p.workers, w.phase ≠ .exited) (h : p.flush = .ok (q, ok)) :
    ((p.batch = [] ∨ p.workers = []) ∧ q = p) ∨
    (∃ w, p.batch ≠ [] ∧ p.workers[p.nextDispatch]? = some w ∧ w.jobs.length < queueDepth ∧
      q = { p with
        batch := []
        workers := p.workers.set p.nextDispatch { w with jobs := w.jobs ++ [p.batch] }
        nextDispatch := (p.nextDispatch + 1) % p.workers.length
        inFlightBatches := p.inFlightBatches + 1
        dispatched := p.dispatched ++ [(p.batch, .sent)] }) ∨
    (p.workers ≠ [] ∧
      q = { p with
        batch := []
        dropped := p.dropped + .ofNat p.batch.length
        dispatched := p.dispatched ++ [(p.batch, .full)] }) := by
  unfold flush at h
  split at h
  · next hb =>
    cases h
    exact .inl ⟨by simpa using hb, rfl⟩
  · next hb =>
    simp only [Bool.or_eq_true, List.isEmpty_iff, not_or] at hb
    obtain ⟨w, hr, h⟩ := bind_eq_ok.mp h
    have hg := readAt_eq_ok_iff.mp hr
    dsimp only at h
    split at h
    · next ht =>
      cases h
      refine .inr (.inl ⟨w, hb.1, hg, trySend_sent ht, ?_⟩)
      rw [ht]
    · next ht =>
      cases h
      refine .inr (.inr ⟨hb.2, ?_⟩)
      rw [ht]
    · next ht => exact absurd (trySend_disconnected ht) (hw w (List.mem_of_getElem? hg))

/-- `submit` processes the job at once, or adds it to the pending batch and may flush. -/
theorem submit_cases {job : J} (h : p.submit process job = .ok (q, ok)) :
    (p.workers = [] ∧
      q = { p with
        inlineDone := p.inlineDone ++ [process job]
        submitted := p.submitted ++ [job]
        dispatched := p.dispatched ++ [([job], .sent)] }) ∨
    ∃ m, p.workers ≠ [] ∧
      m = { p with batch := p.batch ++ [job], submitted := p.submitted ++ [job] } ∧
      (m.flush = .ok (q, ok) ∨ q = m) := by
  unfold submit at h
  split at h
  · next hn =>
    cases h
    exact .inl ⟨by simpa using hn, rfl⟩
  · next hn =>
    refine .inr ⟨_, by simpa using hn, rfl, ?_⟩
    dsimp only at h
    split at h
    · exact .inl h
    · cases h
      exact .inr rfl

/-- What one round of the loop in `collect` does. -/
theorem tryCollect_cases {got : Option (List D)} (h : p.tryCollect = .ok (q, got)) :
    (q = p ∧ got = none) ∨
    ∃ w dones rest, p.inFlightBatches ≠ 0 ∧ p.workers[p.nextCollect]? = some w ∧
      w.done = dones :: rest ∧ got = some dones ∧
      q = { p with
        workers := p.workers.set p.nextCollect { w with done := rest }
        nextCollect := (p.nextCollect + 1) % p.workers.length
        inFlightBatches := p.inFlightBatches - 1 } := by
  unfold tryCollect at h
  split at h
  · cases h
    exact .inl ⟨rfl, rfl⟩
  · next hf =>
    obtain ⟨w, hr, h⟩ := bind_eq_ok.mp h
    split at h
    · cases h
      exact .inl ⟨rfl, rfl⟩
    · next dones rest hd =>
      cases h
      exact .inr ⟨w, dones, rest, hf, readAt_eq_ok_iff.mp hr, hd, rfl, rfl⟩

/-! ## The workers stay the same in number -/

theorem flush_length (h : p.flush = .ok (q, ok)) : q.workers.length = p.workers.length := by
  unfold flush at h
  split at h
  · cases h
    rfl
  · obtain ⟨w, -, h⟩ := bind_eq_ok.mp h
    dsimp only at h
    split at h
    · cases h
      exact List.length_set
    · cases h
      rfl
    · cases h
      rfl

theorem tryCollect_length {got : Option (List D)} (h : p.tryCollect = .ok (q, got)) :
    q.workers.length = p.workers.length := by
  obtain ⟨rfl, -⟩ | ⟨w, dones, rest, -, -, -, -, rfl⟩ := tryCollect_cases h
  · rfl
  · exact List.length_set

theorem stepWorker_length {i : Nat} (h : p.stepWorker process i = some q) :
    q.workers.length = p.workers.length := by
  obtain ⟨w, v, wakes, -, -, rfl⟩ := stepWorker_cases h
  exact List.length_set

/-! ## Workers do not exit while the pipeline is in use -/

/-- No worker has exited, and none will until its sender is dropped. -/
def Alive (p : Pipeline J D) : Prop :=
  ∀ w ∈ p.workers, w.senderAlive = true ∧ w.phase ≠ .exited

theorem alive_new (threads : Nat) : Alive (Pipeline.new threads : Pipeline J D) := by
  intro w hw
  rw [List.eq_of_mem_replicate hw]
  exact ⟨rfl, nofun⟩

namespace Alive

variable {p q : Pipeline J D}

/-- Replacing a worker by a live one. -/
theorem set (h : p.Alive) {i : Nat} {v : Worker J D}
    (hv : v.senderAlive = true ∧ v.phase ≠ .exited) : ∀ w ∈ p.workers.set i v,
      w.senderAlive = true ∧ w.phase ≠ .exited := by
  intro w hw
  rcases List.mem_or_eq_of_mem_set hw with hw | rfl
  · exact h w hw
  · exact hv

theorem not_exited (h : p.Alive) : ∀ w ∈ p.workers, w.phase ≠ .exited := fun w hw => (h w hw).2

theorem flush (h : p.Alive) {ok : Bool} (hq : p.flush = .ok (q, ok)) : q.Alive := by
  obtain ⟨-, rfl⟩ | ⟨w, -, hg, -, rfl⟩ | ⟨-, rfl⟩ := flush_cases h.not_exited hq
  · exact h
  · exact h.set (h w (List.mem_of_getElem? hg))
  · exact h

theorem submit (h : p.Alive) {job : J} {ok : Bool} (hq : p.submit process job = .ok (q, ok)) :
    q.Alive := by
  obtain ⟨-, rfl⟩ | ⟨m, -, hm, hf⟩ := submit_cases hq
  · exact h
  · have ha : m.Alive := by
      rw [hm]
      exact h
    rcases hf with hf | rfl
    · exact ha.flush hf
    · exact ha

theorem tryCollect (h : p.Alive) {got : Option (List D)} (hq : p.tryCollect = .ok (q, got)) :
    q.Alive := by
  obtain ⟨rfl, -⟩ | ⟨w, dones, rest, -, hw, -, -, rfl⟩ := tryCollect_cases hq
  · exact h
  · exact h.set (h w (List.mem_of_getElem? hw))

theorem stepWorker (h : p.Alive) {i : Nat} (hq : p.stepWorker process i = some q) : q.Alive := by
  obtain ⟨w, v, wakes, hw, hv, rfl⟩ := stepWorker_cases hq
  have hl := h w (List.mem_of_getElem? hw)
  refine h.set ⟨(Worker.step_senderAlive hv).trans hl.1, ?_⟩
  obtain ⟨_, _, -, -, rfl⟩ | ⟨-, -, hd, -⟩ | ⟨_, -, -, rfl⟩ | ⟨-, rfl⟩ := Worker.step_cases hv
  · exact nofun
  · rw [hl.1] at hd
    cases hd
  · exact nofun
  · exact nofun

end Alive

end Pipeline

namespace Threads

/-- Everything one step can do. -/
inductive Step (process : J → D) (s : Threads J D) : ThreadAction J → Threads J D → Prop
  | submit {job : J} {p : Pipeline J D} {ok : Bool} (hio : s.io = .idle)
      (hp : s.pipe.submit process job = .ok (p, ok)) :
      Step process s (.submit job) { s with pipe := p, io := .idle }
  | flush {p : Pipeline J D} {ok : Bool} (hio : s.io = .idle) (hp : s.pipe.flush = .ok (p, ok)) :
      Step process s .flush { s with pipe := p, io := .idle }
  | collectInline (hio : s.io = .idle) (hn : s.pipe.workers = []) :
      Step process s .collect
        { s with
          pipe := { s.pipe with inlineDone := [] }
          delivered := s.delivered ++ s.pipe.inlineDone }
  | collect {p : Pipeline J D} {ok : Bool} (hio : s.io = .idle) (hn : s.pipe.workers ≠ [])
      (hp : s.pipe.flush = .ok (p, ok)) :
      Step process s .collect { s with pipe := p, io := .draining }
  | drain (hio : s.io = .draining) :
      Step process s .drain { s with pipe := { s.pipe with wakeCount := 0 }, io := .collecting }
  | recv {p : Pipeline J D} {dones : List D} (hio : s.io = .collecting)
      (hp : s.pipe.tryCollect = .ok (p, some dones)) :
      Step process s .tryRecv { s with pipe := p, delivered := s.delivered ++ dones }
  | leave {p : Pipeline J D} (hio : s.io = .collecting) (hp : s.pipe.tryCollect = .ok (p, none)) :
      Step process s .tryRecv { s with pipe := p, io := .idle }
  | drop (hio : s.io = .idle) : Step process s .drop { s with io := .dropping 0 }
  | dropSender {k : Nat} {w : Worker J D} (hio : s.io = .dropping k)
      (hw : s.pipe.workers[k]? = some w) :
      Step process s .drop
        { s with
          pipe := { s.pipe with workers := s.pipe.workers.set k { w with senderAlive := false } }
          io := .dropping (k + 1) }
  | startJoin {k : Nat} (hio : s.io = .dropping k) (hw : s.pipe.workers[k]? = none) :
      Step process s .drop { s with io := .joining 0 }
  | joined {k : Nat} {w : Worker J D} (hio : s.io = .joining k)
      (hw : s.pipe.workers[k]? = some w) (he : w.phase = .exited) :
      Step process s .join { s with io := .joining (k + 1) }
  | closed {k : Nat} (hio : s.io = .joining k) (hw : s.pipe.workers[k]? = none) :
      Step process s .join { s with io := .closed }
  | worker {i : Nat} {p : Pipeline J D} (hp : s.pipe.stepWorker process i = some p) :
      Step process s (.worker i) { s with pipe := p }

theorem after_eq_some {s t : Threads J D} {io : IoPhase}
    {result : Except Panic (Pipeline J D × Bool)} (h : s.after io result = some t) :
    ∃ p ok, result = .ok (p, ok) ∧ t = { s with pipe := p, io } := by
  unfold after at h
  split at h
  · next p ok => exact ⟨p, ok, rfl, (Option.some.inj h).symm⟩
  · cases h

/-- What an action can do. -/
theorem step_cases {s t : Threads J D} {a : ThreadAction J} (h : s.step process a = some t) :
    Step process s a t := by
  unfold step at h
  split at h
  · next hio =>
    obtain ⟨p, ok, hp, rfl⟩ := after_eq_some h
    exact .submit hio hp
  · next hio =>
    obtain ⟨p, ok, hp, rfl⟩ := after_eq_some h
    exact .flush hio hp
  · next hio =>
    split at h
    · next hn =>
      cases h
      exact .collectInline hio (by simpa using hn)
    · next hn =>
      obtain ⟨p, ok, hp, rfl⟩ := after_eq_some h
      exact .collect hio (by simpa using hn) hp
  · next hio =>
    cases h
    exact .drain hio
  · next hio =>
    split at h
    · next p dones hp =>
      cases h
      exact .recv hio hp
    · next p hp =>
      cases h
      exact .leave hio hp
    · cases h
  · next hio =>
    cases h
    exact .drop hio
  · next k hio =>
    split at h
    · next w hw =>
      cases h
      exact .dropSender hio hw
    · next hw =>
      cases h
      exact .startJoin hio hw
  · next k hio =>
    split at h
    · next w hw =>
      split at h
      · next he =>
        cases h
        exact .joined hio hw he
      · cases h
    · next hw =>
      cases h
      exact .closed hio hw
  · obtain ⟨p, hp, rfl⟩ := Option.map_eq_some_iff.mp h
    exact .worker hp
  · cases h

end Threads

end Udp2raw
