import Amio.Basic
import Mathlib.Logic.Function.Basic

/-!
# The worker pool

`workers/worker_pool.cpp`. Write tasks wait in a FIFO queue and carry a per-(dataset, variable)
sequence number handed out under `mu_`; a task whose number is not next in line for its key is
moved to the back of the queue. Prefetch tasks wait in a heap ordered by distance.

The pool is cut at the points where threads can interleave: the critical sections under `mu_`
(`submit_write` after its wait, `submit_prefetch`, `try_execute_one` up to `lock.unlock()`), and
in a worker that holds a task each later access to shared state. A callback is a value of `α`;
what it does is not the pool's business, and an empty `std::function` is one that does nothing.
The sequence counters are natural numbers: wrapping one takes `2 ^ 64` submissions to one key.
`cv_` only paces the workers (they also poll every 50 ms), so a worker may take its turn at any
time. Heap allocation is taken not to fail.
-/

namespace Amio

/-- `WorkerPool::kMaxThreadCount`. -/
abbrev kMaxThreadCount : Nat := 256

structure DatasetVariableKey where
  datasetId : UInt64
  variableId : UInt64
  deriving DecidableEq, Repr

structure WriteTask (α : Type) where
  dvKey : DatasetVariableKey
  dvSeq : Nat
  handleId : UInt64
  callback : α
  deriving DecidableEq, Repr

structure PrefetchTask (α : Type) where
  timestep : Int
  distance : Int
  datasetId : UInt64
  handleId : UInt64
  callback : α
  deriving DecidableEq, Repr

structure BackpressureConfig where
  enabled : Bool := false
  lowWatermark : Nat := 0
  highWatermark : Nat := 0
  queueCapacity : Nat := 1024
  deriving DecidableEq, Repr

/-- `DvOrderState`; `mu` names the worker that holds the ordering mutex. -/
structure DvOrderState where
  mu : Option Nat := none
  nextSeq : Nat := 0
  execSeq : Nat := 0
  deriving DecidableEq, Repr

/-- Where a worker with a write task is: the task is dequeued, the ordering mutex is taken, the
callback has returned, `exec_seq` is advanced, the mutex is dropped, `writes_completed_` is
advanced. After the last it decrements `in_flight_` and is idle again. -/
inductive WritePhase
  | dequeued
  | locked
  | ran
  | bumped
  | unlocked
  | counted
  deriving DecidableEq, Repr

inductive PrefetchPhase
  | dequeued
  | ran
  | counted
  deriving DecidableEq, Repr

/-- The position of a worker thread in `worker_loop`. -/
inductive Worker (α : Type)
  | idle
  | writing (task : WriteTask α) (phase : WritePhase)
  | prefetching (task : PrefetchTask α) (phase : PrefetchPhase)
  | exited
  deriving DecidableEq, Repr

/-- A worker that may take its next turn. -/
def Worker.isIdle {α : Type} : Worker α → Bool
  | .idle => true
  | _ => false

theorem Worker.isIdle_iff {α : Type} {x : Worker α} : x.isIdle = true ↔ x = .idle := by
  cases x <;> simp [Worker.isIdle]

/-- The arguments of `submit_write`; the overloads without `handle_id` leave it zero. -/
structure WriteRequest (α : Type) where
  dvKey : DatasetVariableKey
  handleId : UInt64
  callback : α
  deriving DecidableEq, Repr

/-- How a `submit_write` ended. -/
inductive SubmitResult
  | shutDown
  | queueFull
  | accepted (seq : Nat)
  deriving DecidableEq, Repr

/-- What the overload with `seq_out` returns: a submission after shutdown is a no-op and `ok`. -/
def SubmitResult.status : SubmitResult → AmioErr
  | .queueFull => .queueFull
  | .shutDown => .ok
  | .accepted _ => .ok

/-- What the other two overloads return, and what `seq_out` is set to: zero also stands for a
submission that was refused. -/
def SubmitResult.seq : SubmitResult → Nat
  | .accepted seq => seq
  | .shutDown => 0
  | .queueFull => 0

/-- The position of a thread in `submit_write`: past the `shutdown_` check, waiting on
`backpressure_cv_`, or back in the caller. -/
inductive Submitter (α : Type)
  | idle
  | entered (req : WriteRequest α)
  | waiting (req : WriteRequest α)
  | returned (result : SubmitResult)
  deriving DecidableEq, Repr

/-- The state of a `WorkerPool` and of the threads inside it. -/
structure WorkerPool (α : Type) where
  threadCount : Nat
  backpressure : BackpressureConfig
  writeQueue : List (WriteTask α)
  prefetchQueue : List (PrefetchTask α)
  dvStates : DatasetVariableKey → DvOrderState
  shutdown : Bool
  inFlight : Nat
  writesCompleted : Nat
  prefetchesCompleted : Nat
  worker : Nat → Worker α
  submitter : Nat → Submitter α

namespace WorkerPool

variable {α : Type}

/-- The constructor: `thread_count` idle workers and nothing queued. -/
def create (α : Type) (threadCount : Nat) (backpressure : BackpressureConfig) : WorkerPool α where
  threadCount := threadCount
  backpressure := backpressure
  writeQueue := []
  prefetchQueue := []
  dvStates := fun _ => {}
  shutdown := false
  inFlight := 0
  writesCompleted := 0
  prefetchesCompleted := 0
  worker := fun _ => .idle
  submitter := fun _ => .idle

variable (p : WorkerPool α)

def setWorker (w : Nat) (x : Worker α) : WorkerPool α :=
  { p with worker := Function.update p.worker w x }

def setSubmitter (c : Nat) (x : Submitter α) : WorkerPool α :=
  { p with submitter := Function.update p.submitter c x }

def setDvState (k : DatasetVariableKey) (st : DvOrderState) : WorkerPool α :=
  { p with dvStates := Function.update p.dvStates k st }

/-! ### Submission -/

/-- Whether `submit_write` goes to waiting on `backpressure_cv_`. -/
def blocksWriter : Bool :=
  p.backpressure.enabled && decide (p.backpressure.highWatermark ≤ p.writeQueue.length)

/-- Whether the wait of `submit_write` may end; `timedOut` when its one second is over. -/
def wakesWriter (timedOut : Bool) : Bool :=
  timedOut || decide (p.writeQueue.length < p.backpressure.lowWatermark) || p.shutdown

/-- The refusal decided under `mu_`. A wait that timed out refuses nothing, and without
backpressure the shutdown flag is not read again. -/
def refusal : Option SubmitResult :=
  if p.backpressure.enabled then
    if p.shutdown then some .shutDown else none
  else if p.backpressure.queueCapacity ≤ p.writeQueue.length then some .queueFull
  else none

/-- The task a request becomes. -/
def taskOf (req : WriteRequest α) : WriteTask α where
  dvKey := req.dvKey
  dvSeq := (p.dvStates req.dvKey).nextSeq
  handleId := req.handleId
  callback := req.callback

/-- Hand out the next sequence number of the key and push the task. -/
def enqueueWrite (req : WriteRequest α) : WorkerPool α :=
  { p with
    writeQueue := p.writeQueue ++ [p.taskOf req]
    dvStates := Function.update p.dvStates req.dvKey
      { p.dvStates req.dvKey with nextSeq := (p.dvStates req.dvKey).nextSeq + 1 } }

def pushPrefetch (task : PrefetchTask α) : WorkerPool α :=
  { p with prefetchQueue := p.prefetchQueue ++ [task] }

/-! ### `try_execute_one` up to the unlock -/

/-- `top` is a position the heap may have at its top: one of smallest distance. -/
def isTop (top : Nat) : Bool :=
  match p.prefetchQueue[top]? with
  | some t => p.prefetchQueue.all fun u => decide (t.distance ≤ u.distance)
  | none => p.prefetchQueue.isEmpty

/-- Pop the prefetch task at the top, if there is one. -/
def takePrefetch (w top : Nat) : WorkerPool α :=
  -- `top` is the task that the priority queue gives
  match p.prefetchQueue[top]? with
  | some task =>
    { p with
      prefetchQueue := p.prefetchQueue.eraseIdx top
      inFlight := p.inFlight + 1
      worker := Function.update p.worker w (.prefetching task .dequeued) }
  | none => p

/-- `try_execute_one` up to `lock.unlock()`, or up to its return when it executes nothing: the
front write task if it is next in line for its key, otherwise that task goes to the back and a
prefetch task is taken. -/
def tryExecuteOne (w top : Nat) : WorkerPool α :=
  match p.writeQueue with
  | task :: rest =>
    -- its turn has not come: it goes to the back, and a prefetch is tried
    if task.dvSeq ≠ (p.dvStates task.dvKey).execSeq then
      { p with writeQueue := rest ++ [task] }.takePrefetch w top
    else
      { p with
        writeQueue := rest
        inFlight := p.inFlight + 1
        worker := Function.update p.worker w (.writing task .dequeued) }
  | [] => p.takePrefetch w top

/-- The predicate `drain()` waits for. -/
def Drained : Prop := p.writeQueue = [] ∧ p.prefetchQueue = [] ∧ p.inFlight = 0

instance : Decidable p.Drained := inferInstanceAs (Decidable (_ = [] ∧ _ = [] ∧ _ = 0))

end WorkerPool

end Amio
