import Amio.Prefetch.Stage

/-!
# Reads with workers

A `PrefetchQueue` with a worker pool. Any number of threads are inside `get_buffer`,
`schedule_next` and `schedule_initial`; the fetches they dispatch run on worker threads; and each
critical section, each submission and each access of a fetch to the pool or the driver is one step.
A wait ends at any time: a notification, a spurious wake-up and the deadline are all the
scheduler's choice, and `waiting` only remembers whether a `notify_all` was issued since the wait
began.

Of the worker pool the queue uses one thing: a closure given to `submit_prefetch` is run once, by
some worker, at some later time, unless the pool was shut down before. The pool orders its
prefetches by distance, which only excludes some of the orders considered here. An exception that
leaves a fetch is swallowed by the worker.
-/

namespace Amio

/-! ### Threads -/

/-- Where a call goes on when `schedule_fetch` returns: with the next timestep of the look-ahead
window, into the loop of `get_buffer`, to the failure check that follows a dropped buffer, or back
to the caller. -/
inductive After
  | window (k : Nat)
  | loop
  | recheck
  | done
  deriving DecidableEq

/-- Where a call is, by what it does next. `scheduling`, `checking`, `looping` and `rechecking` are
about to take `mu_`; `submitting` has inserted its timestep into `pending_`. -/
inductive ReadPc
  | entering
  | scheduling (t : Int) (next : After)
  | submitting (t : Int) (sel : Option Bbox) (next : After)
  | checking
  | looping
  | rechecking
  | waiting (notified : Bool)
  | returned (status : AmioErr) (out : Option Nat)
  deriving DecidableEq

inductive ReadKind
  | getBuffer
  | scheduleNext
  | scheduleInitial
  deriving DecidableEq

/-- One call; `released` when the caller has given its buffer back. -/
structure ReadCall where
  kind : ReadKind
  timestep : Int
  bbox : Option Bbox
  pc : ReadPc
  released : Bool := false
  deriving DecidableEq

/-- Where a fetch is. `lost` is a fetch that will not go on: the worker pool never ran it, or an
exception left it before it was marked. -/
inductive FetchPhase
  | queued
  | started
  | blocked
  | denied
  | acquired (buf : Nat)
  | filled (buf : Nat)
  | threw (buf : Nat)
  | emptied
  | finished
  | lost
  deriving DecidableEq

structure Fetch where
  timestep : Int
  sel : Option Bbox
  phase : FetchPhase
  deriving DecidableEq

structure PrefetchRun where
  stage : Stage
  workersDown : Bool
  ncalls : Nat
  calls : Nat → ReadCall
  nfetches : Nat
  fetches : Nat → Fetch

/-- The steps of a fetch. `alloc` is whether an allocation succeeds and `payload` what the driver
delivers, `none` when it throws. -/
inductive FetchOp
  | start
  | acquire (alloc : Bool)
  | giveUp (alloc : Bool)
  | read (payload : Option (List UInt8))
  | mark

/-- The other users of the staging pool. -/
inductive PoolUse
  | acquire (r : Nat) (alloc : Bool) (final : Bool)
  | release (buf : Nat)
  | fill (buf : Nat) (bytes : List UInt8)

inductive ReadOp
  | begin (kind : ReadKind) (t : Int) (bbox : Option Bbox)
  | call (c : Nat)
  | submit (c : Nat) (lost : Bool)
  | expire (c : Nat)
  | fetch (f : Nat) (op : FetchOp)
  | release (c : Nat)
  | cancel
  | shutdown
  | other (op : PoolUse)

/-- `notify_all`, for one thread. -/
def ReadPc.notify : ReadPc → ReadPc
  | .waiting _ => .waiting true
  | pc => pc

namespace PrefetchRun

variable (s : PrefetchRun)

def withStage (stage : Stage) : PrefetchRun := { s with stage := stage }

/-- Call `c` goes to `pc`. -/
def goto (c : Nat) (pc : ReadPc) : PrefetchRun :=
  { s with calls := Function.update s.calls c { s.calls c with pc := pc } }

def setPhase (f : Nat) (phase : FetchPhase) : PrefetchRun :=
  { s with fetches := Function.update s.fetches f { s.fetches f with phase := phase } }

/-- `cv_.notify_all()`. -/
def notifyAll : PrefetchRun :=
  { s with calls := fun c => { s.calls c with pc := (s.calls c).pc.notify } }

/-! ### Calls -/

/-- The loops of `get_buffer` and `schedule_initial` over the look-ahead window, at the `k`-th
timestep. -/
def windowPc (c k : Nat) : ReadPc :=
  let call := s.calls c
  if k < s.stage.queue.windowCount call.timestep then
    .scheduling (i64 (call.timestep + k)) (.window k)
  else if call.kind = .getBuffer then .checking
  else .returned .ok none

/-- Where call `c` is when `schedule_fetch` has returned. -/
def resume (c : Nat) : After → ReadPc
  | .window k => s.windowPc c (k + 1)
  | .loop => .looping
  | .recheck => .rechecking
  | .done => .returned .ok none

/-- The end of the loop body. -/
def waitSection (c : Nat) : PrefetchRun :=
  match s.stage.waitCheck (s.calls c).timestep with
  | (.ret status out, st) => (s.withStage st).goto c (.returned status out)
  -- `cv_.wait_until` gives up the lock and waits in one step
  | (_, st) => (s.withStage st).goto c (.waiting false)

/-- The loop body from its top; a stale buffer makes the call drop the lock. -/
def loopSection (c : Nat) : PrefetchRun :=
  match s.stage.loopCheck c (s.calls c).timestep (s.calls c).bbox with
  | (.ret status out, st) => (s.withStage st).goto c (.returned status out)
  | (.unlock, st) => (s.withStage st).goto c (.scheduling (s.calls c).timestep .recheck)
  | (.proceed, st) => (s.withStage st).waitSection c

/-- `get_buffer` from its first look at the results on. -/
def firstSection (c : Nat) : PrefetchRun :=
  match s.stage.firstCheck c (s.calls c).timestep (s.calls c).bbox with
  | (.ret status out, st) => (s.withStage st).goto c (.returned status out)
  | (.unlock, st) => (s.withStage st).goto c (.scheduling (s.calls c).timestep .loop)
  | (.proceed, st) => (s.withStage st).loopSection c

def latch (bbox : Option Bbox) : PrefetchRun :=
  s.withStage (s.stage.withQueue { s.stage.queue with latchedBbox := bbox })

def markKickedOff : PrefetchRun :=
  s.withStage (s.stage.withQueue { s.stage.queue with kickedOff := true })

/-- The first section of a call. -/
def enterSection (c : Nat) : PrefetchRun :=
  let call := s.calls c
  match call.kind with
  | .getBuffer =>
    let s' := s.latch call.bbox
    -- the window is opened outside the lock, one `schedule_fetch` at a time
    if s.stage.queue.kickedOff then s'.firstSection c
    else s'.markKickedOff.goto c (s.windowPc c 0)
  | .scheduleNext =>
    let next := s.stage.queue.nextTimestep call.timestep
    s.goto c (if s.stage.queue.totalTimesteps ≤ next then .returned .ok none
      else .scheduling next .done)
  | .scheduleInitial => s.markKickedOff.goto c (s.windowPc c 0)

/-- The critical section of `schedule_fetch`. -/
def trackSection (c : Nat) (t : Int) (next : After) : PrefetchRun :=
  match s.stage.queue.track t with
  | (some sel, q) => (s.withStage (s.stage.withQueue q)).goto c (.submitting t sel next)
  | (none, _) => s.goto c (s.resume c next)

/-- The next critical section of call `c`; for a waiting call, its wake-up. -/
def callStep (c : Nat) : Option PrefetchRun :=
  match (s.calls c).pc with
  | .entering => some (s.enterSection c)
  | .scheduling t next => some (s.trackSection c t next)
  | .checking => some (s.firstSection c)
  | .looping => some (s.loopSection c)
  | .rechecking => some (s.waitSection c)
  -- a wake-up goes back to the head of the loop
  | .waiting _ => some (s.loopSection c)
  -- a submission is outside the queue's own mutex
  | .submitting _ _ _ => none
  | .returned _ _ => none

/-- `submit_prefetch`. -/
def submitStep (c : Nat) (lost : Bool) : Option PrefetchRun :=
  match (s.calls c).pc with
  | .submitting t sel next =>
    -- only a pool that is shut down drops the closure
    if lost ∧ s.workersDown = false then none
    else
      some { s.goto c (s.resume c next) with
        nfetches := s.nfetches + 1
        fetches := Function.update s.fetches s.nfetches
          ⟨t, sel, if lost then .lost else .queued⟩ }
  | _ => none

/-- The wait of call `c` times out. -/
def expireStep (c : Nat) : Option PrefetchRun :=
  match (s.calls c).pc with
  | .waiting _ =>
    match s.stage.lastCheck c (s.calls c).timestep with
    | (.ret status out, st) => some ((s.withStage st).goto c (.returned status out))
    | _ => none
  | _ => none

/-! ### Fetches -/

/-- The end of an attempt of fetch `f` to acquire a buffer; `onBlocked` when there is none. -/
def afterAcquire (f : Nat) (onBlocked : FetchPhase) (res : StagingPool.Acquired × StagingPool) :
    PrefetchRun :=
  match res.1 with
  | .got buf => (s.withStage (s.stage.acquired res.2 buf (.fetch f))).setPhase f (.acquired buf)
  | .threw => (s.withStage (s.stage.withPool res.2)).setPhase f .lost
  | .blocked => (s.withStage (s.stage.withPool res.2)).setPhase f onBlocked

/-- What fetch `f` asks the pool for. -/
def requestedBytes (f : Nat) : Nat :=
  s.stage.queue.info.acquireBytes s.stage.pool.bufferCapacity (s.fetches f).sel

/-- The next access of fetch `f`: `sync_fetch` on a worker. -/
def fetchStep (f : Nat) (op : FetchOp) : Option PrefetchRun :=
  let t := (s.fetches f).timestep
  let sel := (s.fetches f).sel
  match op, (s.fetches f).phase with
  -- the cancellation check comes first
  | .start, .queued =>
    match s.stage.queue.startFetch t with
    | (true, _) => some (s.setPhase f .started)
    | (false, q) => some ((s.withStage (s.stage.withQueue q)).setPhase f .finished)
  | .acquire alloc, .started | .acquire alloc, .blocked =>
    some (s.afterAcquire f .blocked (s.stage.pool.acquireOnce (s.requestedBytes f) alloc))
  | .giveUp alloc, .blocked =>
    some (s.afterAcquire f .denied (s.stage.pool.acquireFinal (s.requestedBytes f) alloc))
  | .read (some payload), .acquired buf =>
    some ((s.withStage (s.stage.deliver buf (s.stage.queue.driverRead t sel payload))).setPhase f
      (.filled buf))
  | .read none, .acquired buf => some (s.setPhase f (.threw buf))
  -- the guard against a driver that reports more than the buffer holds
  | .mark, .filled buf =>
    if s.stage.overCapacity buf then
      some ((s.withStage (s.stage.release buf)).setPhase f .emptied)
    else some (((s.withStage (s.stage.complete t buf sel)).setPhase f .finished).notifyAll)
  -- `catch (...)`: the buffer is released before the failure is recorded
  | .mark, .threw buf => some ((s.withStage (s.stage.release buf)).setPhase f .emptied)
  | .mark, .emptied =>
    some (((s.withStage (s.stage.fail t .backendFailure)).setPhase f .finished).notifyAll)
  | .mark, .denied =>
    some (((s.withStage (s.stage.fail t .stagingBackpressure)).setPhase f .finished).notifyAll)
  | _, _ => none

/-! ### The system -/

def beginCall (kind : ReadKind) (t : Int) (bbox : Option Bbox) : PrefetchRun :=
  let start := if kind = .scheduleInitial then 0 else t
  { s with
    ncalls := s.ncalls + 1
    calls := Function.update s.calls s.ncalls ⟨kind, start, bbox, .entering, false⟩ }

/-- The caller of `c` releases the buffer it was given. -/
def releaseStep (c : Nat) : Option PrefetchRun :=
  match (s.calls c).pc, (s.calls c).released with
  -- a view is released once
  | .returned .ok (some buf), false =>
    some { s.withStage (s.stage.release buf) with
      calls := Function.update s.calls c { s.calls c with released := true } }
  | _, _ => none

/-- Other users of the pool keep to their own buffers. -/
def otherStep : PoolUse → Option PrefetchRun
  | .acquire r alloc final =>
    let res := if final then s.stage.pool.acquireFinal r alloc else s.stage.pool.acquireOnce r alloc
    match res.1 with
    | .got buf => some (s.withStage (s.stage.acquired res.2 buf .other))
    | _ => some (s.withStage (s.stage.withPool res.2))
  | .release buf =>
    if s.stage.owner buf = some .other then some (s.withStage (s.stage.release buf)) else none
  | .fill buf bytes =>
    if s.stage.owner buf = some .other then
      some (s.withStage (s.stage.withPool (s.stage.pool.fill buf bytes)))
    else none

def step : ReadOp → Option PrefetchRun
  | .begin kind t bbox => some (s.beginCall kind t bbox)
  | .call c => if c < s.ncalls then s.callStep c else none
  | .submit c lost => if c < s.ncalls then s.submitStep c lost else none
  | .expire c => if c < s.ncalls then s.expireStep c else none
  | .fetch f op => if f < s.nfetches then s.fetchStep f op else none
  | .release c => if c < s.ncalls then s.releaseStep c else none
  -- `cancel_pending` is one section, and wakes everybody
  | .cancel => some (s.withStage s.stage.cancelPending).notifyAll
  | .shutdown => some { s with workersDown := true }
  | .other op => s.otherStep op

def start (depth : Nat) (datasetId : UInt64) (varName : List UInt8) (info : VariableInfo)
    (a : PoolArgs) : PrefetchRun where
  stage :=
    { queue := .create depth datasetId varName info
      pool := .create a
      owner := fun _ => none
      lastRead := fun _ => none }
  workersDown := false
  ncalls := 0
  calls := fun _ => ⟨.getBuffer, 0, none, .returned .invalidInput none, false⟩
  nfetches := 0
  fetches := fun _ => ⟨0, none, .finished⟩

/-- Every queue and every pool that the constructors accept. -/
def system : Lts.System PrefetchRun ReadOp where
  init s := ∃ depth id name info a, s = start depth id name info a
  step := step

/-! ### A small queue

Fragments of concrete runs, for the examples of the modules that follow. -/

/-- One record of two bytes, and two buffers of eight. -/
def oneRecord : PrefetchRun :=
  start 1 1 [118] ⟨some .u8, ⟨1, fun _ => 2, fun _ => 0⟩, 1⟩ PoolRun.pairArgs

theorem oneRecord_init : system.init oneRecord := ⟨_, _, _, _, _, rfl⟩

/-- The first byte of the record. -/
def firstByte : Bbox := ⟨1, fun _ => 0, fun _ => 1, fun _ => 1⟩

/-- Call `0` warms the window: a fetch of the whole record is submitted. -/
def warmOps : List ReadOp :=
  [.begin .scheduleInitial 0 none, .call 0, .call 0, .submit 0 false]

/-- Fetch `f` runs to its end and delivers `payload`. -/
def fetchOps (f : Nat) (payload : List UInt8) : List ReadOp :=
  [.fetch f .start, .fetch f (.acquire true), .fetch f (.read (some payload)), .fetch f .mark]

end PrefetchRun

end Amio
