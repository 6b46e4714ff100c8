import Amio.Lib.System
import Amio.Workers.Pool
import Mathlib.Data.Multiset.Basic

/-!
# Runs of the worker pool

The pool with its history: which write tasks were accepted, whose callback has run, and for which
`exec_seq` has been advanced. A step is a critical section under `mu_` or one access of a worker
to shared state, by any thread and in any order. The last section says what a step can do, for
developments on top of the pool.
-/

namespace Amio

variable {α : Type}

/-! ### What the threads hold -/

/-- The write task of a worker for which `exec_seq` has not been advanced. -/
def Worker.outstanding : Worker α → Multiset (WriteTask α)
  | .writing t .dequeued | .writing t .locked | .writing t .ran => {t}
  | _ => 0

/-- The tasks that a worker has in flight. -/
theorem Worker.mem_outstanding {x : Worker α} {t : WriteTask α} : t ∈ x.outstanding ↔
    x = .writing t .dequeued ∨ x = .writing t .locked ∨ x = .writing t .ran := by
  unfold Worker.outstanding
  split <;> simp_all [eq_comm]

/-- The prefetch task of a worker whose callback has not run. -/
def Worker.unrun : Worker α → Multiset (PrefetchTask α)
  | .prefetching t .dequeued => {t}
  | _ => 0

/-- Whether the worker is counted in `in_flight_`. -/
def Worker.busy : Worker α → Nat
  | .writing _ _ | .prefetching _ _ => 1
  | _ => 0

/-! ### Runs of the pool -/

/-- A `submit_write` that has returned: who called, with what, and the answer. -/
structure Submission (α : Type) where
  caller : Nat
  request : WriteRequest α
  result : SubmitResult

/-- The task that an answer names: what the caller asked for, under the number it was told. -/
def Submission.task (x : Submission α) : Option (WriteTask α) :=
  match x.result with
  | .accepted n => some ⟨x.request.dvKey, n, x.request.handleId, x.request.callback⟩
  | .shutDown | .queueFull => none

/-- A pool with its history, oldest first. -/
structure WorkerRun (α : Type) where
  pool : WorkerPool α
  submissions : List (Submission α)
  accepted : List (WriteTask α)
  ran : List (WriteTask α)
  completed : List (WriteTask α)
  acceptedPrefetch : List (PrefetchTask α)
  ranPrefetch : List (PrefetchTask α)

/-- A step: `enter`, `lock` and `wake` are the three parts of a `submit_write` by thread `c`,
`turn` is a worker's turn under `mu_` with the heap position it pops, and `advance` is the next
access of a worker that holds a task. `late` marks a `submit_prefetch` that read `shutdown_`
before it was set. -/
inductive WorkerOp (α : Type)
  | enter (c : Nat) (req : WriteRequest α)
  | lock (c : Nat)
  | wake (c : Nat) (timedOut : Bool)
  | submitPrefetch (task : PrefetchTask α) (late : Bool)
  | shutdown
  | turn (w top : Nat)
  | advance (w : Nat)

namespace WorkerRun

variable (s : WorkerRun α)

/-- The critical section of `submit_write` after its wait, if there was one. -/
def finishSubmit (c : Nat) (req : WriteRequest α) : WorkerRun α :=
  -- backpressure: only a shut-down pool refuses; otherwise only a full queue does
  match s.pool.refusal with
  | some r =>
    { s with
      pool := s.pool.setSubmitter c (.returned r)
      submissions := s.submissions ++ [⟨c, req, r⟩] }
  | none =>
    { s with
      pool := (s.pool.enqueueWrite req).setSubmitter c
        (.returned (.accepted (s.pool.taskOf req).dvSeq))
      submissions := s.submissions ++ [⟨c, req, .accepted (s.pool.taskOf req).dvSeq⟩]
      accepted := s.accepted ++ [s.pool.taskOf req] }

/-- A worker's turn: it leaves its loop when the pool is shut down and both queues are empty. -/
def turn (w top : Nat) : WorkerRun α :=
  if s.pool.shutdown = true ∧ s.pool.writeQueue = [] ∧ s.pool.prefetchQueue = [] then
    { s with pool := s.pool.setWorker w .exited }
  else { s with pool := s.pool.tryExecuteOne w top }

/-- The next access of worker `w`, after `lock.unlock()`. -/
def advance (w : Nat) : Option (WorkerRun α) :=
  match s.pool.worker w with
  | .writing t .dequeued =>
    -- `std::lock_guard dv_lock(state.mu)`
    if (s.pool.dvStates t.dvKey).mu = none then
      some { s with
        pool := (s.pool.setDvState t.dvKey { s.pool.dvStates t.dvKey with mu := some w }).setWorker
          w (.writing t .locked) }
    else none
  | .writing t .locked =>
    some { s with pool := s.pool.setWorker w (.writing t .ran), ran := s.ran ++ [t] }
  -- `state.exec_seq++`, still under the mutex
  | .writing t .ran =>
    some { s with
      pool := (s.pool.setDvState t.dvKey { s.pool.dvStates t.dvKey with
        execSeq := (s.pool.dvStates t.dvKey).execSeq + 1 }).setWorker w (.writing t .bumped)
      completed := s.completed ++ [t] }
  | .writing t .bumped =>
    some { s with
      pool := (s.pool.setDvState t.dvKey { s.pool.dvStates t.dvKey with mu := none }).setWorker
        w (.writing t .unlocked) }
  | .writing t .unlocked =>
    some { s with
      pool := { s.pool.setWorker w (.writing t .counted) with
        writesCompleted := s.pool.writesCompleted + 1 } }
  | .writing _ .counted =>
    some { s with pool := { s.pool.setWorker w .idle with inFlight := s.pool.inFlight - 1 } }
  -- a prefetch callback runs under no lock
  | .prefetching t .dequeued =>
    some { s with
      pool := s.pool.setWorker w (.prefetching t .ran), ranPrefetch := s.ranPrefetch ++ [t] }
  | .prefetching t .ran =>
    some { s with
      pool := { s.pool.setWorker w (.prefetching t .counted) with
        prefetchesCompleted := s.pool.prefetchesCompleted + 1 } }
  | .prefetching _ .counted =>
    some { s with pool := { s.pool.setWorker w .idle with inFlight := s.pool.inFlight - 1 } }
  | .idle => none
  | .exited => none

/-- One step of one thread. -/
def step : WorkerOp α → Option (WorkerRun α)
  | .enter c req =>
    match s.pool.submitter c with
    | .entered _ | .waiting _ => none
    | .idle | .returned _ =>
      some { s with
        pool := s.pool.setSubmitter c
          (if s.pool.shutdown then .returned .shutDown else .entered req)
        submissions :=
          if s.pool.shutdown then s.submissions ++ [⟨c, req, .shutDown⟩] else s.submissions }
  | .lock c =>
    match s.pool.submitter c with
    | .entered req =>
      if s.pool.blocksWriter then
        some { s with pool := s.pool.setSubmitter c (.waiting req) }
      else some (s.finishSubmit c req)
    | _ => none
  | .wake c timedOut =>
    match s.pool.submitter c with
    | .waiting req => if s.pool.wakesWriter timedOut then some (s.finishSubmit c req) else none
    | _ => none
  -- the flag is read before `mu_` is taken and not again under it
  | .submitPrefetch task late =>
    if s.pool.shutdown = true ∧ late = false then some s
    else some { s with
      pool := s.pool.pushPrefetch task
      acceptedPrefetch := s.acceptedPrefetch ++ [task] }
  | .shutdown => some { s with pool := { s.pool with shutdown := true } }
  | .turn w top =>
    if w < s.pool.threadCount ∧ (s.pool.worker w).isIdle = true ∧ s.pool.isTop top = true then
      some (s.turn w top)
    else none
  | .advance w => s.advance w

/-- A freshly constructed pool. -/
def start (α : Type) (threadCount : Nat) (backpressure : BackpressureConfig) : WorkerRun α :=
  ⟨.create α threadCount backpressure, [], [], [], [], [], []⟩

/-- Pools of any size and any backpressure configuration, used by any threads. -/
def system (α : Type) : Lts.System (WorkerRun α) (WorkerOp α) where
  init s := ∃ n bp, s = start α n bp
  step := step

variable {s} {s' : WorkerRun α}

/-! ### What a step can do

For developments on top of the pool: the effect of a step on the submitters, the accepted tasks, the
workers and the completed tasks. -/

/-- The effect of a worker's access after the unlock: it locks the key, returns from the callback,
advances `exec_seq`, or does something that touches no write task on its way to the callback. -/
inductive Advanced (s s' : WorkerRun α) (w : Nat) : Prop
  | locked (t : WriteTask α) (before : s.pool.worker w = .writing t .dequeued)
      (after : s'.pool.worker = Function.update s.pool.worker w (.writing t .locked))
      (completed : s'.completed = s.completed)
  | ran (t : WriteTask α) (before : s.pool.worker w = .writing t .locked)
      (after : s'.pool.worker = Function.update s.pool.worker w (.writing t .ran))
      (completed : s'.completed = s.completed)
  | bumped (t : WriteTask α) (before : s.pool.worker w = .writing t .ran)
      (after : s'.pool.worker = Function.update s.pool.worker w (.writing t .bumped))
      (completed : s'.completed = s.completed ++ [t])
  | other (x : Worker α) (before : (s.pool.worker w).outstanding = 0)
      (outstanding : x.outstanding = 0)
      (after : s'.pool.worker = Function.update s.pool.worker w x)
      (completed : s'.completed = s.completed)

/-- What an access of a worker does. -/
theorem advance_cases {w : Nat} (h : s.advance w = some s') :
    s'.accepted = s.accepted ∧ s'.pool.submitter = s.pool.submitter ∧
      s'.pool.threadCount = s.pool.threadCount ∧ Advanced s s' w := by
  unfold WorkerRun.advance at h
  split at h
  case h_1 t hw =>
    simp only [Option.ite_none_right_eq_some, Option.some.injEq] at h
    obtain ⟨-, rfl⟩ := h
    exact ⟨rfl, rfl, rfl, .locked t hw rfl rfl⟩
  case h_2 t hw =>
    obtain rfl := Option.some.inj h
    exact ⟨rfl, rfl, rfl, .ran t hw rfl rfl⟩
  case h_3 t hw =>
    obtain rfl := Option.some.inj h
    exact ⟨rfl, rfl, rfl, .bumped t hw rfl rfl⟩
  -- an idle or exited worker does not advance
  case h_10 => cases h
  case h_11 => cases h
  -- the remaining steps touch neither queue nor books
  all_goals
    next hw =>
      obtain rfl := Option.some.inj h
      exact ⟨rfl, rfl, rfl, .other _ (by rw [hw]; rfl) (by rfl) rfl rfl⟩

/-- A worker that has moved on is not about to run a callback without a lock. -/
theorem advance_ne_prefetching {w : Nat} (h : s.advance w = some s') (t : PrefetchTask α) :
    s'.pool.worker w ≠ .prefetching t .dequeued := by
  unfold WorkerRun.advance at h
  split at h
  case h_1 =>
    simp only [Option.ite_none_right_eq_some, Option.some.injEq] at h
    obtain ⟨-, rfl⟩ := h
    simp [WorkerPool.setWorker]
  case h_10 => cases h
  case h_11 => cases h
  all_goals
    obtain rfl := Option.some.inj h
    simp [WorkerPool.setWorker]

theorem advance_worker_of_ne {v w : Nat} (hv : v ≠ w) (h : s.advance w = some s') :
    s'.pool.worker v = s.pool.worker v := by
  obtain ⟨-, -, -, hadv⟩ := advance_cases h
  cases hadv with
  | locked t before after => rw [after, Function.update_of_ne hv]
  | ran t before after => rw [after, Function.update_of_ne hv]
  | bumped t before after => rw [after, Function.update_of_ne hv]
  | other x before outstanding after => rw [after, Function.update_of_ne hv]

/-- `op` takes `s` to `s'`. -/
inductive Step (s : WorkerRun α) : WorkerOp α → WorkerRun α → Prop
  | enters (c : Nat) (req : WriteRequest α)
      (free : s.pool.submitter c = .idle ∨ ∃ r, s.pool.submitter c = .returned r) :
      Step s (.enter c req) { s with
        pool := s.pool.setSubmitter c
          (if s.pool.shutdown then .returned .shutDown else .entered req)
        submissions :=
          if s.pool.shutdown then s.submissions ++ [⟨c, req, .shutDown⟩] else s.submissions }
  | waits {c : Nat} {req : WriteRequest α} (before : s.pool.submitter c = .entered req)
      (full : s.pool.blocksWriter = true) :
      Step s (.lock c) { s with pool := s.pool.setSubmitter c (.waiting req) }
  | locks {c : Nat} {req : WriteRequest α} (before : s.pool.submitter c = .entered req)
      (room : s.pool.blocksWriter = false) : Step s (.lock c) (s.finishSubmit c req)
  | wakes {c : Nat} {req : WriteRequest α} {timedOut : Bool}
      (before : s.pool.submitter c = .waiting req) (wakes : s.pool.wakesWriter timedOut = true) :
      Step s (.wake c timedOut) (s.finishSubmit c req)
  | dropped (task : PrefetchTask α) (down : s.pool.shutdown = true) :
      Step s (.submitPrefetch task false) s
  | prefetches (task : PrefetchTask α) (late : Bool)
      (late_of : ¬ (s.pool.shutdown = true ∧ late = false)) :
      Step s (.submitPrefetch task late) { s with
        pool := s.pool.pushPrefetch task
        acceptedPrefetch := s.acceptedPrefetch ++ [task] }
  | shuts : Step s .shutdown { s with pool := { s.pool with shutdown := true } }
  | turns {w top : Nat} (lt : w < s.pool.threadCount) (idle : s.pool.worker w = .idle)
      (isTop : s.pool.isTop top = true) : Step s (.turn w top) (s.turn w top)
  | advances {w : Nat} {s' : WorkerRun α} (ran : s.advance w = some s') : Step s (.advance w) s'

/-- **What a step of the pool can be.** The step function is taken apart only here. -/
theorem step_cases {op : WorkerOp α} (h : s.step op = some s') : Step s op s' := by
  cases op with
  -- a submitter may be used again once its submission has returned
  | enter c req =>
    simp only [WorkerRun.step] at h
    split at h
    · cases h
    · cases h
    · next hidle =>
      obtain rfl := Option.some.inj h
      exact .enters c req (.inl hidle)
    · next r hreturned =>
      obtain rfl := Option.some.inj h
      exact .enters c req (.inr ⟨r, hreturned⟩)
  -- above the high watermark the submission waits, else it is decided at once
  | lock c =>
    simp only [WorkerRun.step] at h
    split at h
    · next req hreq =>
      split at h
      · next hfull =>
        obtain rfl := Option.some.inj h
        exact .waits hreq hfull
      · next hroom =>
        obtain rfl := Option.some.inj h
        exact .locks hreq (by simpa using hroom)
    · cases h
  | wake c timedOut =>
    simp only [WorkerRun.step] at h
    split at h
    · next req hreq =>
      simp only [Option.ite_none_right_eq_some, Option.some.injEq] at h
      obtain ⟨hwakes, rfl⟩ := h
      exact .wakes hreq hwakes
    · cases h
  -- dropped after shutdown
  | submitPrefetch task late =>
    simp only [WorkerRun.step] at h
    split at h
    · next hdown =>
      obtain ⟨hshutdown, rfl⟩ := hdown
      obtain rfl := Option.some.inj h
      exact .dropped task hshutdown
    · next hlate =>
      obtain rfl := Option.some.inj h
      exact .prefetches task late hlate
  | shutdown =>
    obtain rfl := Option.some.inj h
    exact .shuts
  | turn w top =>
    simp only [WorkerRun.step, Option.ite_none_right_eq_some, Option.some.injEq,
      Worker.isIdle_iff] at h
    obtain ⟨⟨hw, hidle, htop⟩, rfl⟩ := h
    exact .turns hw hidle htop
  | advance w => exact .advances h

/-- The effect of the critical sections: a submission under way moves on, is refused or becomes a
task at the back of the accepted ones; or a worker takes its turn; or neither happens. -/
inductive Sectioned (s s' : WorkerRun α) : Prop
  | waits (c : Nat) (req : WriteRequest α) (before : s.pool.submitter c = .entered req)
      (after : s'.pool.submitter = Function.update s.pool.submitter c (.waiting req))
      (accepted : s'.accepted = s.accepted) (worker : s'.pool.worker = s.pool.worker)
  | refused (c : Nat) (req : WriteRequest α) (r : SubmitResult)
      (before : s.pool.submitter c = .entered req ∨ s.pool.submitter c = .waiting req)
      (refusal : s.pool.refusal = some r)
      (after : s'.pool.submitter = Function.update s.pool.submitter c (.returned r))
      (accepted : s'.accepted = s.accepted) (worker : s'.pool.worker = s.pool.worker)
  | admitted (c : Nat) (req : WriteRequest α)
      (before : s.pool.submitter c = .entered req ∨ s.pool.submitter c = .waiting req)
      (refusal : s.pool.refusal = none)
      (after : s'.pool.submitter = Function.update s.pool.submitter c
        (.returned (.accepted (s.pool.taskOf req).dvSeq)))
      (accepted : s'.accepted = s.accepted ++ [s.pool.taskOf req])
      (worker : s'.pool.worker = s.pool.worker)
  | turned (w : Nat) (x : Worker α) (before : s.pool.worker w = .idle)
      (phase : ∀ t ph, x = .writing t ph → ph = .dequeued)
      (submitter : s'.pool.submitter = s.pool.submitter) (accepted : s'.accepted = s.accepted)
      (after : s'.pool.worker = Function.update s.pool.worker w x)
  | same (submitter : s'.pool.submitter = s.pool.submitter) (accepted : s'.accepted = s.accepted)
      (worker : s'.pool.worker = s.pool.worker)

/-- A refusal is not an acceptance. -/
theorem refusal_ne_accepted {p : WorkerPool α} {r : SubmitResult} (h : p.refusal = some r)
    (n : Nat) : r ≠ .accepted n := by
  rintro rfl
  unfold WorkerPool.refusal at h
  split at h
  · split at h <;> cases h
  · split at h <;> cases h

/-- A submission that is decided. -/
theorem finishSubmit_cases {c : Nat} {req : WriteRequest α}
    (hb : s.pool.submitter c = .entered req ∨ s.pool.submitter c = .waiting req) :
    Sectioned s (s.finishSubmit c req) := by
  unfold WorkerRun.finishSubmit
  split
  · next r hr => exact .refused c req r hb hr rfl rfl rfl
  · next hr => exact .admitted c req hb hr rfl rfl rfl

/-- A turn takes one task or none. -/
theorem turn_worker {w : Nat} (top : Nat) (hidle : s.pool.worker w = .idle) :
    ∃ x, (s.turn w top).pool.worker = Function.update s.pool.worker w x ∧
      ∀ t ph, x = .writing t ph → ph = .dequeued := by
  -- the prefetch part is reached from two places
  have htake : ∀ p : WorkerPool α, p.worker w = .idle →
      ∃ x, (p.takePrefetch w top).worker = Function.update p.worker w x ∧
        ∀ t ph, x = .writing t ph → ph = .dequeued := by
    intro p hp
    unfold WorkerPool.takePrefetch
    split
    · exact ⟨_, rfl, by simp⟩
    · exact ⟨.idle, by rw [← hp, Function.update_eq_self], by simp⟩
  unfold WorkerRun.turn
  split
  · exact ⟨.exited, rfl, by simp⟩
  · simp only [WorkerPool.tryExecuteOne]
    split
    · split
      · exact htake _ hidle
      · exact ⟨_, rfl, by rintro t ph h; cases h; rfl⟩
    · exact htake _ hidle

/-- A turn leaves the submissions. -/
theorem turn_frame (s : WorkerRun α) (w top : Nat) :
    (s.turn w top).pool.submitter = s.pool.submitter ∧
      (s.turn w top).pool.threadCount = s.pool.threadCount ∧
      (s.turn w top).accepted = s.accepted ∧ (s.turn w top).completed = s.completed := by
  -- a turn moves tasks and nothing else
  have htake : ∀ p : WorkerPool α, (p.takePrefetch w top).submitter = p.submitter ∧
      (p.takePrefetch w top).threadCount = p.threadCount := by
    intro p
    unfold WorkerPool.takePrefetch
    split <;> exact ⟨rfl, rfl⟩
  have htry : (s.pool.tryExecuteOne w top).submitter = s.pool.submitter ∧
      (s.pool.tryExecuteOne w top).threadCount = s.pool.threadCount := by
    unfold WorkerPool.tryExecuteOne
    split
    · split
      · exact htake _
      · exact ⟨rfl, rfl⟩
    · exact htake _
  unfold WorkerRun.turn
  split
  · exact ⟨rfl, rfl, rfl, rfl⟩
  · exact ⟨htry.1, htry.2, rfl, rfl⟩

/-- The steps that are critical sections. -/
theorem step_sectioned {op : WorkerOp α} (henter : ∀ c req, op ≠ .enter c req)
    (hadvance : ∀ w, op ≠ .advance w) (h : s.step op = some s') :
    s'.completed = s.completed ∧ s'.pool.threadCount = s.pool.threadCount ∧ Sectioned s s' := by
  -- neither answer of a submission completes a task
  have hfinish : ∀ c req, (s.finishSubmit c req).completed = s.completed ∧
      (s.finishSubmit c req).pool.threadCount = s.pool.threadCount := by
    intro c req
    unfold WorkerRun.finishSubmit
    split <;> exact ⟨rfl, rfl⟩
  cases step_cases h with
  | enters c req => exact absurd rfl (henter c req)
  | @advances w => exact absurd rfl (hadvance w)
  | @waits c req before => exact ⟨rfl, rfl, .waits c req before rfl rfl rfl⟩
  | @locks c req before =>
    exact ⟨(hfinish c req).1, (hfinish c req).2, finishSubmit_cases (.inl before)⟩
  | @wakes c req timedOut before =>
    exact ⟨(hfinish c req).1, (hfinish c req).2, finishSubmit_cases (.inr before)⟩
  | dropped | prefetches | shuts => exact ⟨rfl, rfl, .same rfl rfl rfl⟩
  | @turns w top lt idle =>
    obtain ⟨x, hx, hph⟩ := turn_worker top idle
    obtain ⟨hsub, hn, hacc, hcomp⟩ := turn_frame s w top
    exact ⟨hcomp, hn, .turned w x idle hph hsub hacc hx⟩

/-- Only `submit_write` changes what the submitters see. -/
theorem step_submitter {op : WorkerOp α} (henter : ∀ c req, op ≠ .enter c req)
    (hadvance : ∀ w, op ≠ .advance w) (h : s.step op = some s') :
    s'.pool.submitter = s.pool.submitter ∨ (∃ c, op = .lock c) ∨
      ∃ c timedOut, op = .wake c timedOut := by
  cases step_cases h with
  | enters c req => exact absurd rfl (henter c req)
  | @advances w => exact absurd rfl (hadvance w)
  | @waits c | @locks c => exact .inr (.inl ⟨c, rfl⟩)
  | @wakes c req timedOut => exact .inr (.inr ⟨c, timedOut, rfl⟩)
  | dropped | prefetches | shuts => exact .inl rfl
  | @turns w top => exact .inl (turn_frame s w top).1

/-- Only a worker that takes its turn or moves on changes its place. -/
theorem step_worker {op : WorkerOp α} (hturn : ∀ w top, op ≠ .turn w top)
    (hadvance : ∀ w, op ≠ .advance w) (h : s.step op = some s') :
    s'.pool.worker = s.pool.worker := by
  cases step_cases h with
  | @turns w top => exact absurd rfl (hturn w top)
  | @advances w => exact absurd rfl (hadvance w)
  | enters | waits | dropped | prefetches | shuts => rfl
  | locks | wakes =>
    unfold WorkerRun.finishSubmit
    split <;> rfl

/-- The effect of a step on the queues: a write submission pushes under `mu_`, at once or when its
wait is over; a prefetch is pushed; a worker takes its turn, which makes no queue longer, and leaves
its loop only when both are empty; every other step leaves the queues alone. -/
inductive Queued (s s' : WorkerRun α) : WorkerOp α → Prop
  | same {op : WorkerOp α} (hop : ∀ w top, op ≠ .turn w top)
      (writeQueue : s'.pool.writeQueue = s.pool.writeQueue)
      (prefetchQueue : s'.pool.prefetchQueue = s.pool.prefetchQueue) : Queued s s' op
  | locked (c : Nat) (req : WriteRequest α) (before : s.pool.submitter c = .entered req)
      (room : s.pool.blocksWriter = false) (refusal : s.pool.refusal = none)
      (writeQueue : s'.pool.writeQueue = s.pool.writeQueue ++ [s.pool.taskOf req]) :
      Queued s s' (.lock c)
  | woken (c : Nat) (req : WriteRequest α) (timedOut : Bool)
      (before : s.pool.submitter c = .waiting req) (wakes : s.pool.wakesWriter timedOut = true)
      (refusal : s.pool.refusal = none)
      (writeQueue : s'.pool.writeQueue = s.pool.writeQueue ++ [s.pool.taskOf req]) :
      Queued s s' (.wake c timedOut)
  | prefetched (task : PrefetchTask α) (late : Bool)
      (late_of : ¬ (s.pool.shutdown = true ∧ late = false))
      (writeQueue : s'.pool.writeQueue = s.pool.writeQueue) :
      Queued s s' (.submitPrefetch task late)
  | turned (w top : Nat) (before : s.pool.worker w = .idle) (lt : w < s.pool.threadCount)
      (length : s'.pool.writeQueue.length ≤ s.pool.writeQueue.length)
      (left : s'.pool.worker w = .exited →
        s'.pool.writeQueue = [] ∧ s'.pool.prefetchQueue = []) : Queued s s' (.turn w top)

/-- A turn that does not leave the loop. -/
theorem tryExecuteOne_spec {p : WorkerPool α} {w : Nat} (top : Nat) (hidle : p.worker w = .idle) :
    (p.tryExecuteOne w top).worker w ≠ .exited ∧
      (p.tryExecuteOne w top).writeQueue.length ≤ p.writeQueue.length := by
  -- taking a prefetch leaves the write queue alone
  have htake : ∀ q : WorkerPool α, q.worker w = .idle →
      (q.takePrefetch w top).worker w ≠ .exited ∧
        (q.takePrefetch w top).writeQueue = q.writeQueue := by
    intro q hq
    unfold WorkerPool.takePrefetch
    split
    · simp
    · simp [hq]
  unfold WorkerPool.tryExecuteOne
  split
  · next task rest hqueue =>
    split
    · obtain ⟨hin, hsame⟩ := htake { p with writeQueue := rest ++ [task] } hidle
      exact ⟨hin, by simp [hsame, hqueue]⟩
    · simp [hqueue]
  · obtain ⟨hin, hsame⟩ := htake p hidle
    exact ⟨hin, by rw [hsame]⟩

/-- A worker that holds a task stays in its loop and looks at no queue. -/
theorem advance_frame {w : Nat} (h : s.advance w = some s') :
    s'.pool.writeQueue = s.pool.writeQueue ∧ s'.pool.prefetchQueue = s.pool.prefetchQueue ∧
      s'.pool.backpressure = s.pool.backpressure ∧ s'.pool.shutdown = s.pool.shutdown ∧
      s'.pool.worker w ≠ .exited := by
  unfold WorkerRun.advance at h
  split at h
  case h_1 =>
    simp only [Option.ite_none_right_eq_some, Option.some.injEq] at h
    obtain ⟨-, rfl⟩ := h
    exact ⟨rfl, rfl, rfl, rfl, by simp [WorkerPool.setWorker]⟩
  case h_10 => cases h
  case h_11 => cases h
  all_goals
    obtain rfl := Option.some.inj h
    exact ⟨rfl, rfl, rfl, rfl, by simp [WorkerPool.setWorker]⟩

/-- What a step does to the queue of writes. -/
theorem step_queued {op : WorkerOp α} (h : s.step op = some s') : Queued s s' op := by
  cases step_cases h with
  | enters | waits | dropped | shuts => exact .same (by simp) rfl rfl
  -- a submission that is not refused puts its task into the queue
  | @locks c req before room =>
    unfold WorkerRun.finishSubmit
    split
    · exact .same (by simp) rfl rfl
    · next hnone => exact .locked c req before room hnone rfl
  | @wakes c req timedOut before wakes =>
    unfold WorkerRun.finishSubmit
    split
    · exact .same (by simp) rfl rfl
    · next hnone => exact .woken c req timedOut before wakes hnone rfl
  | prefetches task late late_of => exact .prefetched task late late_of rfl
  | @turns w top lt idle =>
    unfold WorkerRun.turn
    split
    -- the worker leaves, or takes a task, or puts one to the back
    · next hdone => exact .turned w top idle lt le_rfl fun _ => hdone.2
    · obtain ⟨hin, hlen⟩ := tryExecuteOne_spec top idle
      exact .turned w top idle lt hlen fun hleft => absurd hleft hin
  | advances ran =>
    obtain ⟨hwrite, hprefetch, -⟩ := advance_frame ran
    exact .same (by simp) hwrite hprefetch

/-- A turn leaves the configuration. -/
theorem turn_config (s : WorkerRun α) (w top : Nat) :
    (s.turn w top).pool.backpressure = s.pool.backpressure ∧
      (s.turn w top).pool.shutdown = s.pool.shutdown := by
  have htake : ∀ p : WorkerPool α, (p.takePrefetch w top).backpressure = p.backpressure ∧
      (p.takePrefetch w top).shutdown = p.shutdown := by
    intro p
    unfold WorkerPool.takePrefetch
    split <;> exact ⟨rfl, rfl⟩
  unfold WorkerRun.turn
  split
  · exact ⟨rfl, rfl⟩
  · simp only [WorkerPool.tryExecuteOne]
    split
    · split
      · exact htake _
      · exact ⟨rfl, rfl⟩
    · exact htake _

/-- What no step changes, and the flag that is never taken back. -/
theorem step_frame {op : WorkerOp α} (h : s.step op = some s') :
    s'.pool.threadCount = s.pool.threadCount ∧ s'.pool.backpressure = s.pool.backpressure ∧
      (s.pool.shutdown = true → s'.pool.shutdown = true) := by
  cases step_cases h with
  | enters | waits | dropped | prefetches => exact ⟨rfl, rfl, id⟩
  | locks | wakes =>
    unfold WorkerRun.finishSubmit
    split <;> exact ⟨rfl, rfl, id⟩
  | shuts => exact ⟨rfl, rfl, fun _ => rfl⟩
  | @turns w top =>
    obtain ⟨hbackpressure, hshutdown⟩ := turn_config s w top
    exact ⟨(turn_frame s w top).2.1, hbackpressure, fun hset => hshutdown.trans hset⟩
  | advances ran =>
    obtain ⟨-, -, hcount, -⟩ := advance_cases ran
    obtain ⟨-, -, hbackpressure, hshutdown, -⟩ := advance_frame ran
    exact ⟨hcount, hbackpressure, fun hset => hshutdown.trans hset⟩

end WorkerRun

end Amio
