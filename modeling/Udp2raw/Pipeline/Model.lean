import Udp2raw.Core.Checked
import Udp2raw.Core.Transition

/-!
# The ordered crypto pipeline

`Pipeline` of `pipeline.rs` with its worker threads. The jobs and what `process`
makes of them are parameters. A call of the I/O thread that touches a channel only
once is one step; `collect` and `Drop::drop` are cut at every channel operation and
at every wait, so that the workers can run in between.
-/

namespace Udp2raw

open Checked Transition

/-- Jobs per batch handed to a worker. -/
def batchJobs : Nat := 16

/-- Batches a job channel or a done channel holds. -/
def queueDepth : Nat := 64

variable {J D : Type}

/-- Where a worker thread stands in its loop. -/
inductive WorkerPhase (D : Type) where
  /-- At `job_rx.recv()`. -/
  | receiving
  /-- The batch is processed; at `done_tx.send(dones)`. -/
  | sending (dones : List D)
  /-- At the write to the wake descriptor. -/
  | waking
  /-- The thread has returned. -/
  | exited
  deriving DecidableEq

/-- A worker thread with its two channels. The done receiver lives in the `Pipeline` until the
thread has been joined, so `done_tx.send` can block but not fail. -/
structure Worker (J D : Type) where
  /-- Batches in the job channel, oldest first. -/
  jobs : List (List J) := []
  /-- Whether the I/O thread still holds the job sender. -/
  senderAlive : Bool := true
  phase : WorkerPhase D := .receiving
  /-- Batches in the done channel, oldest first. -/
  done : List (List D) := []

/-- One step of the worker thread, and whether it wrote to the wake descriptor. `none` means
that the thread is blocked or gone. -/
def Worker.step (process : J → D) (w : Worker J D) : Option (Worker J D × Bool) :=
  match w.phase with
  | .receiving =>
    match w.jobs with
    | batch :: rest => some ({ w with jobs := rest, phase := .sending (batch.map process) }, false)
    | [] => if w.senderAlive then none else some ({ w with phase := .exited }, false)
  | .sending dones =>
    if w.done.length < queueDepth then
      some ({ w with done := w.done ++ [dones], phase := .waking }, false)
    else none
  | .waking => some ({ w with phase := .receiving }, true)
  | .exited => none

/-- The outcome of `try_send` on a job channel. -/
inductive SendOutcome where
  | sent
  | full
  | disconnected
  deriving DecidableEq

/-- The I/O thread's side of the pipeline. The last two fields are the history of the calls:
no code reads them. -/
structure Pipeline (J D : Type) where
  workers : List (Worker J D)
  /-- Value of the wake descriptor's counter. -/
  wakeCount : Nat := 0
  nextDispatch : Nat := 0
  nextCollect : Nat := 0
  inFlightBatches : Nat := 0
  batch : List J := []
  inlineDone : List D := []
  /-- Jobs of refused batches; the counter wraps at `2^64` where overflow is not checked. -/
  dropped : UInt64 := 0
  /-- Every job passed to `submit`, in order. -/
  submitted : List J := []
  /-- Every batch that left `batch`, with the outcome of its `try_send`. Without workers each
  job is a batch of its own. -/
  dispatched : List (List J × SendOutcome) := []

namespace Pipeline

/-- `Pipeline::new`. -/
def new (threads : Nat) : Pipeline J D where
  workers := List.replicate threads {}

/-- Batches handed to workers and not yet collected, plus a pending partial batch. -/
def inFlight (p : Pipeline J D) : Nat :=
  p.inFlightBatches + if p.batch.isEmpty then 0 else 1

/-- `try_send` of a batch to a worker: disconnected when the worker has exited, and full when
its job channel is. -/
def trySend (w : Worker J D) : SendOutcome :=
  match w.phase with
  | .exited => .disconnected
  | _ => if w.jobs.length < queueDepth then .sent else .full

/-- Hand the pending batch to the next worker. -/
def flush (p : Pipeline J D) : Except Panic (Pipeline J D × Bool) :=
  if p.batch.isEmpty || p.workers.isEmpty then .ok (p, true)
  else do
    let w ← readAt p.workers p.nextDispatch
    let outcome := trySend w
    let taken := { p with batch := [], dispatched := p.dispatched ++ [(p.batch, outcome)] }
    match outcome with
    | .sent =>
      return ({ taken with
        workers := p.workers.set p.nextDispatch { w with jobs := w.jobs ++ [p.batch] }
        nextDispatch := (p.nextDispatch + 1) % p.workers.length
        inFlightBatches := p.inFlightBatches + 1 }, true)
    | .full => return ({ taken with dropped := p.dropped + .ofNat p.batch.length }, false)
    | .disconnected => return (taken, false)

/-- `Pipeline::submit`; without workers the job is processed at once. -/
def submit (process : J → D) (p : Pipeline J D) (job : J) : Except Panic (Pipeline J D × Bool) :=
  if p.workers.isEmpty then
    .ok ({ p with
      inlineDone := p.inlineDone ++ [process job]
      submitted := p.submitted ++ [job]
      dispatched := p.dispatched ++ [([job], .sent)] }, true)
  else
    let p := { p with batch := p.batch ++ [job], submitted := p.submitted ++ [job] }
    if batchJobs ≤ p.batch.length then p.flush else .ok (p, true)

/-- One round of the loop in `collect`: the batch taken from the next worker's done channel,
or `none` when the loop ends. -/
def tryCollect (p : Pipeline J D) : Except Panic (Pipeline J D × Option (List D)) :=
  if p.inFlightBatches = 0 then .ok (p, none)
  else do
    let w ← readAt p.workers p.nextCollect
    match w.done with
    | [] => return (p, none)
    | dones :: rest =>
      return ({ p with
        workers := p.workers.set p.nextCollect { w with done := rest }
        nextCollect := (p.nextCollect + 1) % p.workers.length
        inFlightBatches := p.inFlightBatches - 1 }, some dones)

/-- One step of worker `i`. -/
def stepWorker (process : J → D) (p : Pipeline J D) (i : Nat) : Option (Pipeline J D) := do
  let w ← p.workers[i]?
  let (moved, wakes) ← w.step process
  return { p with
    workers := p.workers.set i moved
    wakeCount := if wakes then p.wakeCount + 1 else p.wakeCount }

/-- The batches of a dispatch log whose `try_send` had the given outcome. -/
def batchesWith (outcome : SendOutcome) (log : List (List J × SendOutcome)) : List (List J) :=
  (log.filter fun entry => entry.2 = outcome).map Prod.fst

/-- The batches that workers took. -/
def accepted (p : Pipeline J D) : List (List J) := batchesWith .sent p.dispatched

/-- The batches that were refused as full. -/
def refused (p : Pipeline J D) : List (List J) := batchesWith .full p.dispatched

/-- The submitted jobs without those of the refused batches. -/
def kept (p : Pipeline J D) : List J := p.accepted.flatten ++ p.batch

end Pipeline

/-- What the I/O thread is doing. -/
inductive IoPhase where
  /-- Outside the pipeline. -/
  | idle
  /-- In `collect`, about to drain the wake descriptor. -/
  | draining
  /-- In `collect`, at the head of the receive loop. -/
  | collecting
  /-- In `drop`, with the job senders of the workers before `k` dropped. -/
  | dropping (k : Nat)
  /-- In `drop`, joining worker `k`. -/
  | joining (k : Nat)
  /-- The pipeline is gone. -/
  | closed
  deriving DecidableEq

/-- The pipeline, the program counter of the I/O thread and what `collect` has delivered. -/
structure Threads (J D : Type) where
  pipe : Pipeline J D
  io : IoPhase := .idle
  /-- Every value handed to the callback of `collect`, in order. -/
  delivered : List D := []

/-- A call, or a part of a call, of the I/O thread, or a step of one worker. -/
inductive ThreadAction (J : Type) where
  | submit (job : J)
  | flush
  /-- Enter `collect`. -/
  | collect
  /-- Read the wake descriptor. -/
  | drain
  /-- One round of the receive loop. -/
  | tryRecv
  /-- Enter `drop`, drop the next job sender, or go on to the joins. -/
  | drop
  /-- `join` returns for the next worker, or `drop` ends. -/
  | join
  | worker (i : Nat)

namespace Threads

/-- A new pipeline. -/
def new (threads : Nat) : Threads J D where
  pipe := Pipeline.new threads

/-- The state after a call that returned; a call that panics has no next state. -/
def after (s : Threads J D) (io : IoPhase) (result : Except Panic (Pipeline J D × Bool)) :
    Option (Threads J D) :=
  match result with
  | .ok (p, _) => some { s with pipe := p, io }
  | .error _ => none

/-- One step of the I/O thread or of a worker. -/
def step (process : J → D) (s : Threads J D) (a : ThreadAction J) : Option (Threads J D) :=
  match a, s.io with
  | .submit job, .idle => s.after .idle (s.pipe.submit process job)
  | .flush, .idle => s.after .idle s.pipe.flush
  | .collect, .idle =>
    if s.pipe.workers.isEmpty then
      some { s with
        pipe := { s.pipe with inlineDone := [] }
        delivered := s.delivered ++ s.pipe.inlineDone }
    else s.after .draining s.pipe.flush
  | .drain, .draining => some { s with pipe := { s.pipe with wakeCount := 0 }, io := .collecting }
  | .tryRecv, .collecting =>
    match s.pipe.tryCollect with
    | .ok (p, some dones) => some { s with pipe := p, delivered := s.delivered ++ dones }
    | .ok (p, none) => some { s with pipe := p, io := .idle }
    | .error _ => none
  | .drop, .idle => some { s with io := .dropping 0 }
  | .drop, .dropping k =>
    match s.pipe.workers[k]? with
    | some w =>
      let workers := s.pipe.workers.set k { w with senderAlive := false }
      some { s with pipe := { s.pipe with workers }, io := .dropping (k + 1) }
    | none => some { s with io := .joining 0 }
  | .join, .joining k =>
    match s.pipe.workers[k]? with
    | some w =>
      match w.phase with
      | .exited => some { s with io := .joining (k + 1) }
      | _ => none
    | none => some { s with io := .closed }
  | .worker i, _ => (s.pipe.stepWorker process i).map fun p => { s with pipe := p }
  | _, _ => none

/-- The I/O thread is at work, and has not begun to drop the pipeline. -/
def Running (s : Threads J D) : Prop := s.io = .idle ∨ s.io = .draining ∨ s.io = .collecting

end Threads

end Udp2raw
