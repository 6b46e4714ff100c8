import Amio.Prefetch.Run
import Amio.Workers.Run

/-!
# The order of the prefetches

Any number of prefetch queues over one worker pool. The heap of the pool is popped by smallest
`distance`, which `worker_pool.hpp` documents as the distance from the current read position;
`schedule_fetch` hands in the timestep, "distance = timestep (from position 0)". The key is fixed at
the submission, while the reads of each queue go where they like.

A step is a step of one queue, a step of the pool, or a submission, which is a step of both. A fetch
takes its steps on the worker that has popped it. The staging pool is shared by the queues and by
the writes; each queue sees the others as "other" users of it, as in `Prefetch.Run`.

The result is `pops_nearest_iff`: the pool pops the right task when the earliest of the queued
timesteps is also the nearest to where its queue is being read.
-/

namespace Amio

/-! ### Queues over one pool -/

/-- What a task of the pool runs: the write of a host, or fetch `f` of queue `k`. -/
inductive Job
  | write
  | fetch (k f : Nat)
  deriving DecidableEq

/-- The pool and the queues. `requested k` is the timestep that the last `get_buffer` on queue `k`
asked for, and zero before the first. -/
structure LookAheadRun where
  workers : WorkerRun Job
  queues : Nat → PrefetchRun
  requested : Nat → Int

inductive LookAheadOp
  | queue (k : Nat) (op : ReadOp)
  | submit (k c : Nat) (late : Bool)
  | worker (op : WorkerOp Job)

namespace LookAheadRun

variable (s : LookAheadRun)

/-- Worker `w` has popped fetch `f` of queue `k` and not returned from it. -/
def runs (k f w : Nat) : Bool :=
  match s.workers.pool.worker w with
  | .prefetching task .dequeued => decide (task.callback = .fetch k f)
  | _ => false

/-- The fetch is in the hands of some worker. -/
def onWorker (k f : Nat) : Bool := (List.range s.workers.pool.threadCount).any (s.runs k f)

/-- Worker `w` is inside the callback of a fetch. -/
def fetching (w : Nat) : Bool :=
  match s.workers.pool.worker w with
  | .prefetching ⟨_, _, _, _, .fetch k f⟩ .dequeued =>
    decide (((s.queues k).fetches f).phase ≠ .finished ∧ ((s.queues k).fetches f).phase ≠ .lost)
  | _ => false

/-- The arguments that `schedule_fetch` of queue `k` gives to `submit_prefetch`. -/
def prefetchTask (k : Nat) (timestep : Int) : PrefetchTask Job where
  timestep := timestep
  -- distance = timestep (from position 0)
  distance := timestep
  datasetId := (s.queues k).stage.queue.datasetId
  handleId := 0
  callback := .fetch k (s.queues k).nfetches

/-- The read positions after a step of queue `k`: a `get_buffer` moves that of its own queue. -/
def requestedAfter (k : Nat) : ReadOp → Nat → Int
  | .begin .getBuffer t _ => Function.update s.requested k t
  | _ => s.requested

def queueStep (k : Nat) (op : ReadOp) : Option LookAheadRun :=
  ((s.queues k).step op).map fun q =>
    { s with queues := Function.update s.queues k q, requested := s.requestedAfter k op }

/-- Call `c` of queue `k` is in `submit_prefetch`. A pool that is shut down drops the closure,
unless the flag was read before it was set. -/
def submitStep (k c : Nat) (late : Bool) : Option LookAheadRun :=
  match ((s.queues k).calls c).pc with
  | .submitting t _ _ =>
    ((s.queues k).step (.submit c (s.workers.pool.shutdown && !late))).bind fun q =>
      (s.workers.step (.submitPrefetch (s.prefetchTask k t) late)).map fun x =>
        { s with workers := x, queues := Function.update s.queues k q }
  | _ => none

def workerStep (op : WorkerOp Job) : Option LookAheadRun :=
  (s.workers.step op).map fun x => { s with workers := x }

def step : LookAheadOp → Option LookAheadRun
  -- submissions and the shutdown of the pool are steps of both sides
  | .queue _ (.submit _ _) | .queue _ .shutdown | .worker (.submitPrefetch _ _) => none
  | .queue k (.fetch f op) => if s.onWorker k f then s.queueStep k (.fetch f op) else none
  | .queue k op => s.queueStep k op
  | .submit k c late => s.submitStep k c late
  | .worker .shutdown =>
    (s.workers.step .shutdown).map fun x =>
      { s with workers := x, queues := fun k => { s.queues k with workersDown := true } }
  -- a worker leaves the callback of a fetch when the fetch is over
  | .worker (.advance w) => if s.fetching w then none else s.workerStep (.advance w)
  | .worker op => s.workerStep op

/-- Any queues over any pool. -/
def system : Lts.System LookAheadRun LookAheadOp where
  init s := (WorkerRun.system Job).init s.workers ∧
    (∀ k, PrefetchRun.system.init (s.queues k)) ∧ ∀ k, s.requested k = 0
  step := step

/-! ### What should be popped first -/

/-- The queue that submitted a task. -/
def queueOf (task : PrefetchTask Job) : Nat :=
  match task.callback with
  | .fetch k _ => k
  | .write => 0

/-- The tasks in `prefetch_queue_`. -/
def queued : List (PrefetchTask Job) := s.workers.pool.prefetchQueue

/-- How far a task is from where its own queue is being read. -/
def away (task : PrefetchTask Job) : Nat := (task.timestep - s.requested (queueOf task)).natAbs

/-- Some reader is blocked on the timestep of the task. -/
def wanted (task : PrefetchTask Job) : Bool :=
  let q := s.queues (queueOf task)
  (List.range q.ncalls).any fun c =>
    decide ((q.calls c).timestep = task.timestep) &&
      match (q.calls c).pc with
      | .waiting _ => true
      | _ => false

/-- No queued task is nearer, and a look-ahead fetch is popped only when no reader is blocked on a
queued one. -/
structure First (task : PrefetchTask Job) : Prop where
  nearest : ∀ other ∈ s.queued, s.away task ≤ s.away other
  wanted : s.wanted task = false → ∀ other ∈ s.queued, s.wanted other = false

/-- The heap may have the task at its top. -/
def AtTop (task : PrefetchTask Job) : Prop :=
  ∃ top, s.workers.pool.isTop top = true ∧ s.queued[top]? = some task

/-- Worker `w` may take its next turn, and pops the task in it. -/
def Pops (w : Nat) (task : PrefetchTask Job) : Prop :=
  ∃ top s', s.step (.worker (.turn w top)) = some s' ∧
    s'.workers.pool.worker w = .prefetching task .dequeued

/-- No queued fetch is of an earlier timestep. -/
def Earliest (task : PrefetchTask Job) : Prop :=
  ∀ other ∈ s.queued, task.timestep ≤ other.timestep

/-- Where the queues are being read, the order of the timesteps is the order of urgency: what is
queued for the earliest timestep is at least as near to the position of its queue as all the rest,
and a blocked reader is blocked on it if any is blocked on a queued fetch. -/
structure ReadInOrder : Prop where
  near : ∀ x ∈ s.queued, s.Earliest x → ∀ y ∈ s.queued,
    (x.timestep - s.requested (queueOf x)).natAbs ≤ (y.timestep - s.requested (queueOf y)).natAbs
  blocked : ∀ x ∈ s.queued, s.Earliest x → (∃ y ∈ s.queued, s.wanted y = true) → s.wanted x = true

variable {s} {s' : LookAheadRun} {w : Nat} {task : PrefetchTask Job}

/-! ### What reaches the heap -/

/-- A task of the heap has its timestep as distance. -/
def Keyed (s : LookAheadRun) : Prop := ∀ task ∈ s.queued, task.distance = task.timestep

/-- What the heap holds after a turn it held before. -/
theorem mem_of_turn {p : WorkerPool Job} {top : Nat}
    (h : task ∈ (p.tryExecuteOne w top).prefetchQueue) : task ∈ p.prefetchQueue := by
  -- the prefetch part is reached with the write queue as it was, or rotated
  have htake : ∀ q : WorkerPool Job, task ∈ (q.takePrefetch w top).prefetchQueue →
      task ∈ q.prefetchQueue := by
    intro q hq
    unfold WorkerPool.takePrefetch at hq
    split at hq
    · exact List.mem_of_mem_eraseIdx hq
    · exact hq
  unfold WorkerPool.tryExecuteOne at h
  split at h
  · split at h
    · have hold := htake _ h
      exact hold
    · exact h
  · exact htake _ h

/-- A step of the pool puts into the heap what is submitted, and nothing else. -/
theorem mem_of_step {x x' : WorkerRun Job} {op : WorkerOp Job} (h : x.step op = some x')
    (hmem : task ∈ x'.pool.prefetchQueue) :
    task ∈ x.pool.prefetchQueue ∨ ∃ late, op = .submitPrefetch task late := by
  cases WorkerRun.step_cases h with
  | enters | waits | dropped | shuts => exact .inl hmem
  | locks | wakes =>
    unfold WorkerRun.finishSubmit at hmem
    split at hmem
    · exact .inl hmem
    · exact .inl hmem
  -- only `submit_prefetch` adds to the heap
  | prefetches new late =>
    rcases List.mem_append.mp hmem with hold | hnew
    · exact .inl hold
    · obtain rfl := List.mem_singleton.mp hnew
      exact .inr ⟨late, rfl⟩
  | turns =>
    unfold WorkerRun.turn at hmem
    split at hmem
    · exact .inl hmem
    · exact .inl (mem_of_turn hmem)
  | advances ran =>
    obtain ⟨-, hheap, -⟩ := WorkerRun.advance_frame ran
    exact .inl (hheap ▸ hmem)

/-- A step of the pool alone submits nothing. -/
theorem Keyed.worker (hs : s.Keyed) {op : WorkerOp Job} {x : WorkerRun Job}
    (hop : ∀ task late, op ≠ .submitPrefetch task late) (hstep : s.workers.step op = some x)
    (heq : s'.workers = x) : s'.Keyed := by
  intro task hmem
  rw [queued, heq] at hmem
  rcases mem_of_step hstep hmem with hold | ⟨late, hsubmit⟩
  · exact hs task hold
  · exact absurd hsubmit (hop task late)

/-- A step of a queue keeps the heap's keys. -/
theorem Keyed.queueStep (hs : s.Keyed) {k : Nat} {op : ReadOp} (h : s.queueStep k op = some s') :
    s'.Keyed := by
  obtain ⟨q, -, rfl⟩ := Option.map_eq_some_iff.mp h
  exact hs

theorem Keyed.workerStep (hs : s.Keyed) {op : WorkerOp Job}
    (hop : ∀ task late, op ≠ .submitPrefetch task late) (h : s.workerStep op = some s') :
    s'.Keyed := by
  obtain ⟨x, hx, rfl⟩ := Option.map_eq_some_iff.mp h
  exact hs.worker hop hx rfl

/-- What a queue submits has its timestep as distance. -/
theorem Keyed.submitStep (hs : s.Keyed) {k c : Nat} {late : Bool}
    (h : s.submitStep k c late = some s') : s'.Keyed := by
  unfold LookAheadRun.submitStep at h
  split at h
  · next t sel next hpc =>
    obtain ⟨q, -, hrest⟩ := Option.bind_eq_some_iff.mp h
    obtain ⟨x, hx, rfl⟩ := Option.map_eq_some_iff.mp hrest
    intro task hmem
    rcases mem_of_step hx hmem with hold | ⟨late', hsubmit⟩
    · exact hs task hold
    · obtain ⟨rfl, -⟩ := WorkerOp.submitPrefetch.inj hsubmit
      rfl
  · cases h

theorem Keyed.step (hs : s.Keyed) {op : LookAheadOp} (h : s.step op = some s') : s'.Keyed := by
  cases op with
  | queue k op =>
    cases op with
    | submit | shutdown => cases h
    | fetch f op =>
      simp only [LookAheadRun.step, Option.ite_none_right_eq_some] at h
      exact hs.queueStep h.2
    | «begin» | call | expire | release | cancel | other => exact hs.queueStep h
  | submit k c late => exact hs.submitStep h
  | worker op =>
    cases op with
    | submitPrefetch => cases h
    | shutdown =>
      simp only [LookAheadRun.step, Option.map_eq_some_iff] at h
      obtain ⟨x, hx, rfl⟩ := h
      exact hs.worker (by simp) hx rfl
    | advance w =>
      simp only [LookAheadRun.step, Option.ite_none_left_eq_some] at h
      exact hs.workerStep (by simp) h.2
    | enter | lock | wake | turn => exact hs.workerStep (by simp) h

/-- **Every queued task has its timestep as distance**, wherever its queue is being read. -/
theorem keyed_of_reachable (h : system.Reachable s) : s.Keyed := by
  refine h.invariant ?_ fun _ _ _ hs _ hstep => hs.step hstep
  rintro s ⟨⟨n, bp, hworkers⟩, -⟩ task hmem
  rw [queued, hworkers] at hmem
  cases hmem

/-! ### What is popped -/

/-- The pool pops what the heap has at its top. -/
theorem Pops.atTop (h : s.Pops w task) : s.AtTop task := by
  obtain ⟨top, s', hstep, hafter⟩ := h
  obtain ⟨x, hx, rfl⟩ := Option.map_eq_some_iff.mp hstep
  refine ⟨top, ?_⟩
  cases WorkerRun.step_cases hx with
  | turns hlt hidle htop =>
    refine ⟨htop, ?_⟩
    -- an idle worker has no task unless it takes one from the heap
    have htake : ∀ q : WorkerPool Job,
        (q.takePrefetch w top).worker w = .prefetching task .dequeued → q.worker w = .idle →
        q.prefetchQueue[top]? = some task := by
      intro q hw hq
      unfold WorkerPool.takePrefetch at hw
      split at hw
      · next found hfound =>
        simp only [Function.update_self, Worker.prefetching.injEq, and_true] at hw
        exact hw ▸ hfound
      · rw [hq] at hw
        cases hw
    unfold WorkerRun.turn at hafter
    split at hafter
    · simp [WorkerPool.setWorker] at hafter
    · unfold WorkerPool.tryExecuteOne at hafter
      split at hafter
      · split at hafter
        · have hfound := htake _ hafter hidle
          exact hfound
        · simp at hafter
      · exact htake _ hafter hidle

/-- What is on top is queued. -/
theorem AtTop.mem (h : s.AtTop task) : task ∈ s.queued := by
  obtain ⟨top, -, hfound⟩ := h
  exact List.mem_of_getElem? hfound

/-- At the top of the heap are the queued fetches of the earliest timestep. -/
theorem Keyed.atTop_iff (hs : s.Keyed) : s.AtTop task ↔ task ∈ s.queued ∧ s.Earliest task := by
  constructor
  · intro h
    have hmem := h.mem
    refine ⟨hmem, fun other hother => ?_⟩
    obtain ⟨top, htop, hfound⟩ := h
    unfold WorkerPool.isTop at htop
    rw [show s.workers.pool.prefetchQueue[top]? = some task from hfound] at htop
    -- the heap's comparison is of the keys, which are the distances
    have hle := of_decide_eq_true (List.all_eq_true.mp htop other hother)
    rwa [hs task hmem, hs other hother] at hle
  · rintro ⟨hmem, hearliest⟩
    obtain ⟨top, hfound⟩ := List.mem_iff_getElem?.mp hmem
    refine ⟨top, ?_, hfound⟩
    unfold WorkerPool.isTop
    rw [show s.workers.pool.prefetchQueue[top]? = some task from hfound]
    refine List.all_eq_true.mpr fun other hother => decide_eq_true ?_
    rw [hs task hmem, hs other hother]
    exact hearliest other hother

/-- What a blocked reader waits for comes first when the earliest timestep is such. -/
theorem ReadInOrder.first (h : s.ReadInOrder) (hmem : task ∈ s.queued)
    (hearliest : s.Earliest task) : s.First task where
  nearest := h.near task hmem hearliest
  wanted hlookahead other hother := by
    by_contra hwanted
    have hfirst := h.blocked task hmem hearliest ⟨other, hother, by simpa using hwanted⟩
    rw [hlookahead] at hfirst
    cases hfirst

/-- **When the right prefetch is popped.** In every reachable state, whatever the heap may have at
its top is nearest to where its queue is being read, and wanted by a blocked reader if any queued
fetch is, if and only if the queues are read in the order of the queued timesteps; and then every
worker that pops a prefetch pops such a one. -/
theorem pops_nearest_iff (h : system.Reachable s) :
    ((∀ task, s.AtTop task → s.First task) ↔ s.ReadInOrder) ∧
      (s.ReadInOrder → ∀ w task, s.Pops w task → s.First task) := by
  have hkeyed := keyed_of_reachable h
  have hfirst : s.ReadInOrder → ∀ task, s.AtTop task → s.First task := by
    intro horder task htop
    obtain ⟨hmem, hearliest⟩ := hkeyed.atTop_iff.mp htop
    exact horder.first hmem hearliest
  refine ⟨⟨fun hall => ⟨?_, ?_⟩, hfirst⟩, fun horder w task hpops => hfirst horder task hpops.atTop⟩
  · intro x hx hearliest
    exact (hall x (hkeyed.atTop_iff.mpr ⟨hx, hearliest⟩)).nearest
  · rintro x hx hearliest ⟨y, hy, hwanted⟩
    -- a look-ahead task on top would precede a wanted one
    by_contra hlookahead
    have := (hall x (hkeyed.atTop_iff.mpr ⟨hx, hearliest⟩)).wanted (by simpa using hlookahead) y hy
    rw [hwanted] at this
    cases this

/-- Reads in step: when the queues are all being read at `p` and nothing queued lies behind it, the
earliest timestep is the nearest. -/
theorem nearest_of_forward {p : Int} (hposition : ∀ x ∈ s.queued, s.requested (queueOf x) = p)
    (hahead : ∀ x ∈ s.queued, p ≤ x.timestep) :
    ∀ x ∈ s.queued, s.Earliest x → ∀ y ∈ s.queued, s.away x ≤ s.away y := by
  intro x hx hearliest y hy
  have hxy := hearliest y hy
  have hpx := hahead x hx
  unfold away
  rw [hposition x hx, hposition y hy]
  omega

/-! ### Two variables -/

/-- Two workers. Queue `0` looks two timesteps ahead, the others one; all have `200` records of one
byte. -/
def twoQueues : LookAheadRun where
  workers := .start Job 2 {}
  queues k :=
    .start (if k = 0 then 2 else 1) 1 [118] ⟨some .u8, ⟨1, fun _ => 1, fun _ => 0⟩, 200⟩
      PoolRun.pairArgs
  requested _ := 0

theorem twoQueues_init : system.init twoQueues :=
  ⟨⟨2, {}, rfl⟩, fun _ => ⟨_, _, _, _, _, rfl⟩, fun _ => rfl⟩

/-- Timestep `0` of variable `0` is read: its window is submitted and the reader waits. -/
def firstReadOps : List LookAheadOp :=
  [.queue 0 (.begin .getBuffer 0 none), .queue 0 (.call 0), .queue 0 (.call 0), .submit 0 0 false,
    .queue 0 (.call 0), .submit 0 0 false, .queue 0 (.call 0)]

/-- Timestep `100` of variable `1` is read, and a worker takes the fetch of timestep `0`. -/
def secondReadOps : List LookAheadOp :=
  [.queue 1 (.begin .getBuffer 100 none), .queue 1 (.call 0), .queue 1 (.call 0),
    .submit 1 0 false, .queue 1 (.call 0), .worker (.turn 0 0)]

/-- The task of fetch `f` of queue `k`, for timestep `t`. -/
def laterTask (k : Nat) (t : Int) (f : Nat) : PrefetchTask Job := ⟨t, t, 1, 0, .fetch k f⟩

/-- The reader of timestep `0` is served first. -/
theorem pops_nearest_iff_of_first_read :
    ∃ s, system.replay (fun _ _ => True) twoQueues firstReadOps = some s ∧ s.ReadInOrder ∧
      ∃ task, s.Pops 0 task ∧ task.timestep = 0 ∧ s.First task := by
  -- the two timesteps of the first queue are read from the first on
  have horder : ∀ s : LookAheadRun, s.queued = [laterTask 0 0 0, laterTask 0 1 1] →
      s.requested 0 = 0 → s.wanted (laterTask 0 0 0) = true → s.ReadInOrder := by
    intro s hqueued hposition hwanted
    constructor
    · refine nearest_of_forward (p := 0) (fun x hx => ?_) fun x hx => ?_
      · rw [hqueued] at hx
        simp only [List.mem_cons, List.not_mem_nil, or_false] at hx
        rcases hx with rfl | rfl <;> exact hposition
      · rw [hqueued] at hx
        simp only [List.mem_cons, List.not_mem_nil, or_false] at hx
        rcases hx with rfl | rfl <;> simp [laterTask]
    · intro x hx hearliest _
      rw [hqueued] at hx
      simp only [List.mem_cons, List.not_mem_nil, or_false] at hx
      rcases hx with rfl | rfl
      · exact hwanted
      · -- timestep `1` is not the earliest
        have hle := hearliest (laterTask 0 0 0) (by simp [hqueued])
        simp [laterTask] at hle
  exact ⟨_, rfl, horder _ rfl rfl rfl, laterTask 0 0 0, ⟨0, _, rfl, rfl⟩, rfl,
    (pops_nearest_iff (Lts.System.Reachable.of_replay firstReadOps twoQueues_init rfl)).2
      (horder _ rfl rfl rfl) 0 _ ⟨0, _, rfl, rfl⟩⟩

/-- Then a reader of the other variable is blocked on timestep `100`, at distance zero, and the
other worker pops the look-ahead fetch of timestep `1`. -/
theorem look_ahead_overtakes :
    ∃ s, system.replay (fun _ _ => True) twoQueues (firstReadOps ++ secondReadOps) = some s ∧
      system.Reachable s ∧ ∃ task other, s.Pops 1 task ∧ task.timestep = 1 ∧ other ∈ s.queued ∧
        other.timestep = 100 ∧ s.away other < s.away task ∧ s.wanted other = true ∧
        s.wanted task = false ∧ ¬ s.First task := by
  have hother : ∀ s : LookAheadRun, s.queued[1]? = some (laterTask 1 100 0) →
      laterTask 1 100 0 ∈ s.queued := fun s hs => List.mem_of_getElem? hs
  refine ⟨_, rfl, Lts.System.Reachable.of_replay (firstReadOps ++ secondReadOps) twoQueues_init rfl,
    laterTask 0 1 1, laterTask 1 100 0, ⟨0, _, rfl, rfl⟩, rfl, hother _ rfl, rfl, ?_, rfl, rfl, ?_⟩
  · exact Nat.zero_lt_one
  · intro h
    have hwanted := h.wanted rfl _ (hother _ rfl)
    cases hwanted

end LookAheadRun

end Amio
