import Mathlib.Data.List.Flatten
import Udp2raw.Generation.Ledger
import Udp2raw.Pipeline.Order

/-!
# A host: event handlers over the pipeline

One end of the tunnel with its crypto pipeline. The handlers run on the I/O
thread; the jobs they submit enter the pipeline in order, workers run in
between, and a delivered completion is handled when the I/O thread gets to it.
Each completion is kept together with its job, so that the log can say which
plaintext a transmitted packet came from.
-/

namespace Udp2raw

open Program

namespace Pipeline

variable {J D : Type} {process : J → D}

theorem flush_submitted {p q : Pipeline J D} {ok : Bool} (h : p.flush = .ok (q, ok)) :
    q.submitted = p.submitted := by
  unfold flush at h
  split at h
  · cases h
    rfl
  · obtain ⟨w, -, h⟩ := Checked.bind_eq_ok.mp h
    dsimp only at h
    split at h <;> cases h <;> rfl

theorem submit_submitted {p q : Pipeline J D} {job : J} {ok : Bool}
    (h : p.submit process job = .ok (q, ok)) : q.submitted = p.submitted ++ [job] := by
  obtain ⟨-, rfl⟩ | ⟨m, -, rfl, hm | rfl⟩ := submit_cases h
  · rfl
  · exact flush_submitted hm
  · rfl

/-- The jobs that were kept are submitted ones, in order. -/
theorem kept_sublist {p : Pipeline J D} {delivered : List D} {flying : List (List J)}
    (h : p.InOrder process delivered flying) : p.kept.Sublist p.submitted := by
  rw [h.submitted]
  exact ((List.filter_sublist.map Prod.fst).flatten).append (.refl _)

end Pipeline

namespace Threads

variable {J D : Type} {process : J → D} {s t : Threads J D} {a : ThreadAction J}

/-- Only `submit` submits. -/
theorem step_submitted (h : s.step process a = some t) :
    t.pipe.submitted = s.pipe.submitted ++
      (match a with
        | .submit job => [job]
        | _ => []) := by
  cases step_cases h with
  | submit hio hp => exact Pipeline.submit_submitted hp
  | flush hio hp => simpa using Pipeline.flush_submitted hp
  | collect hio hn hp => simpa using Pipeline.flush_submitted hp
  | recv hio hp =>
    obtain ⟨rfl, -⟩ | ⟨w, dones, rest, -, -, -, -, rfl⟩ := Pipeline.tryCollect_cases hp <;> simp
  | leave hio hp =>
    obtain ⟨rfl, -⟩ | ⟨w, dones, rest, -, -, -, -, rfl⟩ := Pipeline.tryCollect_cases hp <;> simp
  | worker hp =>
    obtain ⟨w, v, wakes, -, -, rfl⟩ := Pipeline.stepWorker_cases hp
    simp
  | _ => simp

/-- What was delivered stays delivered. -/
theorem step_delivered (h : s.step process a = some t) : s.delivered <+: t.delivered := by
  cases step_cases h <;> first | exact List.prefix_append _ _ | exact List.prefix_refl _

end Threads

/-- The event handlers of one end. -/
structure Party (σ E O : Type) where
  handle : E → Program σ Effect Fault Unit
  /-- The event that hands over a completion. -/
  completion : O → Done → E
  /-- The completion an event brings. -/
  cause : E → Option Done

/-- One end with its pipeline. -/
structure Host (σ : Type) where
  party : σ
  threads : Threads Job (Job × Done)
  /-- Jobs the last handler submitted that are not in the pipeline yet. -/
  outbox : List Job := []
  /-- How many of the delivered completions have been handled. -/
  handled : Nat := 0
  /-- All effects, each with the job whose completion was being handled. -/
  log : List (Option Job × Effect) := []

/-- What a host does next. -/
inductive HostAction (E O : Type) where
  /-- Handle an event that is not a completion. -/
  | event (ev : E)
  /-- Handle the next completion. -/
  | complete (o : O)
  /-- Hand the next job of the outbox to the pipeline. -/
  | submit
  /-- A step of the pipeline: a worker, or another call of the I/O thread. -/
  | thread (a : ThreadAction Job)

namespace Host

variable {σ E O : Type}

/-- The effects of a host, in order. -/
def effects (h : Host σ) : List Effect := h.log.map Prod.snd

/-- A job together with its completion. -/
def tag (work : Job → Done) (job : Job) : Job × Done := (job, work job)

/-- The I/O thread is between two calls. -/
def free (h : Host σ) : Bool := h.threads.io == .idle && h.outbox.isEmpty

/-- Every delivered completion has been handled. -/
def caughtUp (h : Host σ) : Bool := h.handled == h.threads.delivered.length

/-- Run a handler; one that aborts ends the process. -/
def apply (p : Party σ E O) (h : Host σ) (job : Option Job) (ev : E) : Option (Host σ) :=
  match p.handle ev h.party with
  | .error _ => none
  | .ok (_, t, out) =>
    some { h with
      party := t
      outbox := submitted out
      log := h.log ++ out.map (job, ·) }

/-- Whether the I/O thread may call this part of the pipeline now. -/
def mayTake (h : Host σ) : ThreadAction Job → Bool
  | .submit _ => false
  | .flush | .collect | .drop => h.outbox.isEmpty && h.caughtUp
  | _ => true

/-- One step of a host. -/
def step (work : Job → Done) (p : Party σ E O) (h : Host σ) : HostAction E O → Option (Host σ)
  | .event ev =>
    if h.free && h.caughtUp && (p.cause ev).isNone then h.apply p none ev else none
  | .complete o =>
    if h.free then do
      let (job, d) ← h.threads.delivered[h.handled]?
      let t ← h.apply p (some job) (p.completion o d)
      return { t with handled := h.handled + 1 }
    else none
  | .submit =>
    match h.outbox with
    | [] => none
    | job :: rest => do
      let t ← h.threads.step (tag work) (.submit job)
      return { h with threads := t, outbox := rest }
  | .thread a =>
    if h.mayTake a then do
      let t ← h.threads.step (tag work) a
      return { h with threads := t }
    else none

end Host

end Udp2raw
