import Amio.Boundary.Completion

/-!
# Who calls the driver

A dataset has one driver. Workers call its `write` from the callbacks of write tasks, under the
ordering mutex of the task's (dataset, variable) pair, and its `read` from prefetch callbacks, under
no lock. Host threads call `describe_variable` from `resolve_variable`, under `variables_mu`, and
`flush` and `close` from `close_dataset`, under no lock. `backend_driver.hpp` promises the drivers
that the calls on one instance are serialised.

The run of the write path is extended by what happens inside a prefetch callback and by the host
calls `describe`, `read` and `close_dataset`. Of `read` its way to the prefetch queue is followed;
from there it may submit prefetches, and at some point it returns. A prefetch callback does not call
the driver when the queue is cancelled or there is no staging buffer; here it may do so at any time.
The two loads of step 3 of `close_dataset` are one.
-/

namespace Amio

/-! ### Host calls -/

inductive Mode
  | write
  | read
  deriving DecidableEq

/-- The fields of `DatasetRecord` that the write path does not use. `variablesMu` names the call
that holds `variables_mu`, `variableNames` are the keys of the map `variables`, and `released` says
that the handle is gone from the handle table. -/
structure ReadSide where
  mode : Mode
  variablesMu : Option Nat := none
  variableNames : List (List UInt8) := []
  outstandingViews : Nat := 0
  released : Bool := false

/-- The variable has been resolved before. -/
def ReadSide.knows (x : ReadSide) (varName : List UInt8) : Bool :=
  decide (varName ∈ x.variableNames)

/-- A host call with its arguments; a null name is an empty one, and `nullArg` says that another
pointer is null. -/
inductive AccessKind
  | describe (varName : List UInt8) (nullArg : Bool)
  | read (varName : List UInt8) (timestep : Int)
  | closeDataset

namespace AccessKind

/-- The variable that the call resolves. -/
def varName : AccessKind → Option (List UInt8)
  | .describe varName _ => some varName
  | .read varName _ => some varName
  | .closeDataset => none

/-- The checks before the first access to shared state. -/
def check (mode : Mode) : AccessKind → AmioErr
  | .describe varName nullArg =>
    if varName = [] ∨ nullArg = true then .invalidInput
    else if mode ≠ .read then .invalidInput
    else .ok
  | .read varName timestep =>
    if varName = [] then .invalidInput
    else if mode ≠ .read then .invalidInput
    else if timestep < 0 then .invalidInput
    else .ok
  | .closeDataset => .ok

end AccessKind

/-- Where a host call is, by the last thing it did; in `missed` it holds `variables_mu` and has not
found the variable in the map. -/
inductive AccessPc
  | checked
  | missed
  | inDescribe
  | resolved
  | viewless
  | draining
  | drained
  | surfaced (result : AmioErr)
  | inFlush (result : AmioErr)
  | flushed (result : AmioErr)
  | inClose (result : AmioErr)
  | closed (result : AmioErr)
  | returned (status : AmioErr)
  deriving DecidableEq

/-- `describe` is done when the variable is resolved. -/
def AccessKind.onResolved : AccessKind → AccessPc
  | .read _ _ => .resolved
  | _ => .returned .ok

/-- What `catch (...)` in `close_dataset` makes of the result so far. -/
def AmioErr.caught (result : AmioErr) (ok : Bool) : AmioErr :=
  if ok = false ∧ result = .ok then .backendFailure else result

structure AccessCall where
  dataset : Nat
  kind : AccessKind
  pc : AccessPc

/-- Where a prefetch callback is. -/
inductive FetchPc
  | entered
  | inDriver
  | returned
  deriving DecidableEq

/-- The write path with the other users of the drivers. `fetches w` is the position in the prefetch
callback that worker `w` runs, if it runs one. -/
structure AccessRun where
  core : WriteRun
  sides : Nat → ReadSide
  fetches : Nat → FetchPc
  nhosts : Nat
  hosts : Nat → AccessCall

/-- The steps of the host calls. `enter` calls the driver and `leave ok` is its return: the variable
is found, or nothing is thrown. `fetch` submits a prefetch and `finish` is the return of `read`. -/
inductive AccessStep
  | lookup
  | enter
  | leave (ok : Bool)
  | fetch (timestep : Int) (late : Bool)
  | finish (status : AmioErr)
  | checkViews
  | cancel
  | poll (timedOut : Bool)
  | surface
  | release

/-- A step: `callback` is the next access of the prefetch callback of a worker, which does not call
the driver when it is `skipped`, and `releaseView` is a call of `release_view`. -/
inductive AccessOp
  | core (op : WriteOp)
  | callback (w : Nat) (skipped : Bool)
  | access (dataset : Nat) (kind : AccessKind)
  | host (h : Nat) (op : AccessStep)
  | releaseView (dataset : Nat)

namespace AccessRun

variable (s : AccessRun)

def setPc (h : Nat) (pc : AccessPc) : AccessRun :=
  { s with hosts := Function.update s.hosts h { s.hosts h with pc := pc } }

def setSide (d : Nat) (x : ReadSide) : AccessRun :=
  { s with sides := Function.update s.sides d x }

/-- The record of the dataset of call `h`. -/
def sideOf (h : Nat) : ReadSide := s.sides (s.hosts h).dataset

/-- The wait of `close_dataset` ends: there are no pending writes, or 30 seconds are over. -/
def endsWait (h : Nat) (timedOut : Bool) : Bool :=
  timedOut || decide ((s.core.datasets (s.hosts h).dataset).pendingWrites = 0)

/-- The prefetch that `schedule_fetch` submits for the dataset of call `h`. -/
def prefetchOf (h : Nat) (timestep : Int) : PrefetchTask Closure where
  timestep := timestep
  distance := timestep
  datasetId := (s.core.datasets (s.hosts h).dataset).datasetId
  handleId := 0
  callback := .prefetch (s.hosts h).dataset

/-! ### Steps -/

/-- A thread makes a host call. A handle that was released is refused at the C boundary. -/
def beginAccess (d : Nat) (kind : AccessKind) : Option AccessRun :=
  -- the dataset's token is not valid any more
  if (s.sides d).released then none
  else
    some { s with
      nhosts := s.nhosts + 1
      hosts := Function.update s.hosts s.nhosts
        { dataset := d, kind := kind
          pc := if kind.check (s.sides d).mode = .ok then .checked
            else .returned (kind.check (s.sides d).mode) } }

/-- The next access of host call `h`. -/
def hostStep (h : Nat) (op : AccessStep) : Option AccessRun :=
  let x := s.hosts h
  let side := s.sideOf h
  match op, x.pc with
  | .lookup, .checked =>
    match x.kind.varName with
    | none => none
    | some varName =>
      if side.variablesMu ≠ none then none
      -- a variable that was resolved before is answered from the map
      else if side.knows varName then some (s.setPc h x.kind.onResolved)
      -- the lock is held across `describe_variable`, until the answer is in the map
      else some ((s.setPc h .missed).setSide x.dataset { side with variablesMu := some h })
  | .enter, .missed => some (s.setPc h .inDescribe)
  | .leave found, .inDescribe =>
    if found then
      some ((s.setPc h x.kind.onResolved).setSide x.dataset { side with
        variablesMu := none, variableNames := side.variableNames ++ x.kind.varName.toList })
    else
      some ((s.setPc h (.returned .backendFailure)).setSide x.dataset
        { side with variablesMu := none })
  | .fetch timestep late, .resolved =>
    (s.core.step (.worker (.submitPrefetch (s.prefetchOf h timestep) late))).map fun core =>
      { s with core := core }
  -- a read that returns `AMIO_OK` has handed out a view
  | .finish status, .resolved =>
    some ((s.setPc h (.returned status)).setSide x.dataset { side with
      outstandingViews := side.outstandingViews + if status = .ok then 1 else 0 })
  | .checkViews, .checked =>
    match x.kind with
    | .closeDataset =>
      some (s.setPc h
        (if 0 < side.outstandingViews then .returned .viewsOutstanding else .viewless))
    | _ => none
  -- `cancel` of the prefetch queues walks the map under `variables_mu`
  | .cancel, .viewless => if side.variablesMu = none then some (s.setPc h .draining) else none
  | .poll timedOut, .draining =>
    some (s.setPc h (if s.endsWait h timedOut then .drained else .draining))
  | .surface, .drained => some (s.setPc h (.surfaced (s.core.datasets x.dataset).verdict))
  -- the dataset is flushed and closed even if the wait has timed out
  | .enter, .surfaced result => some (s.setPc h (.inFlush result))
  | .leave ok, .inFlush result => some (s.setPc h (.flushed (result.caught ok)))
  | .enter, .flushed result => some (s.setPc h (.inClose result))
  | .leave ok, .inClose result => some (s.setPc h (.closed (result.caught ok)))
  | .release, .closed result =>
    some ((s.setPc h (.returned result)).setSide x.dataset { side with released := true })
  | _, _ => none

/-- The next access of the prefetch callback that worker `w` runs. -/
def callbackStep (w : Nat) (skipped : Bool) : Option AccessRun :=
  match s.core.workers.pool.worker w, s.fetches w with
  -- a fetch may return before it calls the driver
  | .prefetching _ .dequeued, .entered =>
    some { s with
      fetches := Function.update s.fetches w (if skipped then .returned else .inDriver) }
  | .prefetching _ .dequeued, .inDriver =>
    some { s with fetches := Function.update s.fetches w .returned }
  | _, _ => none

/-- Worker `w` runs a prefetch callback that has not returned. -/
def fetching (w : Nat) : Bool :=
  match s.core.workers.pool.worker w with
  | .prefetching _ .dequeued => decide (s.fetches w ≠ .returned)
  | _ => false

/-- A step of the write path. A worker leaves a prefetch callback when it has returned, and only
`read` submits prefetches. -/
def coreStep (op : WriteOp) : Option AccessRun :=
  match op with
  | .call args =>
    if (s.sides args.dataset).released then none
    else (s.core.step (.call args)).map fun core => { s with core := core }
  | .worker (.submitPrefetch _ _) => none
  | .worker (.advance w) =>
    if s.fetching w then none
    -- the next prefetch callback of this worker, if any, will be at its beginning
    else
      (s.core.step (.worker (.advance w))).map fun core =>
        { s with core := core, fetches := Function.update s.fetches w .entered }
  | op => (s.core.step op).map fun core => { s with core := core }

/-- One step of one thread. -/
def step : AccessOp → Option AccessRun
  | .core op => s.coreStep op
  | .callback w skipped => s.callbackStep w skipped
  | .access d kind => s.beginAccess d kind
  | .host h op => if h < s.nhosts then s.hostStep h op else none
  | .releaseView d =>
    if 0 < (s.sides d).outstandingViews then
      some (s.setSide d
        { s.sides d with outstandingViews := (s.sides d).outstandingViews - 1 })
    else none

/-- Datasets opened in the given modes. -/
def start (core : WriteRun) (mode : Nat → Mode) : AccessRun where
  core := core
  sides := fun d => { mode := mode d }
  fetches := fun _ => .entered
  nhosts := 0
  hosts := fun _ => ⟨0, .closeDataset, .returned .invalidInput⟩

/-- Any core, any datasets in any modes. -/
def system : Lts.System AccessRun AccessOp where
  init s := ∃ core mode, WriteRun.system.init core ∧ s = start core mode
  step := step

/-! ### Inside the driver -/

/-- The threads that may call a driver: the workers, and the threads of the host calls. -/
inductive Thread
  | worker (w : Nat)
  | host (h : Nat)
  deriving DecidableEq

/-- The dataset whose driver a thread is inside of. -/
def inside : Thread → Option Nat
  | .worker w =>
    match s.core.workers.pool.worker w with
    -- under the ordering mutex of the pair
    | .writing ⟨_, _, _, .write c⟩ .locked =>
      if (s.core.calls c).cb = .inDriver then some (s.core.calls c).args.dataset else none
    -- under no lock
    | .prefetching ⟨_, _, _, _, .prefetch d⟩ .dequeued =>
      if s.fetches w = .inDriver then some d else none
    | _ => none
  | .host h =>
    match (s.hosts h).pc with
    | .inDescribe | .inFlush _ | .inClose _ => some (s.hosts h).dataset
    | _ => none

/-- **Driver calls are mutually exclusive**: no two threads are inside the same driver. -/
def DriverExclusive : Prop :=
  ∀ d a b, s.inside a = some d → s.inside b = some d → a = b

end AccessRun

end Amio
