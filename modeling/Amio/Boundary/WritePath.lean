import Amio.Boundary.HandleTable
import Amio.Staging.Ownership
import Amio.Workers.Order

/-!
# The write path

`amio::detail::write`, the callback it submits, and `flush`, over the staging pool, the worker pool
and the handle table of one core (`c_boundary/amio_core.cpp`). Any number of host threads have any
number of calls in progress: each call is a small program whose next access to shared state is one
step, and so is each access of its callback once a worker runs it. The worker pool takes its own
steps in between, other users of the core acquire and release buffers and mint handles of other
kinds, and the pool may be shut down.

A core built from a validated configuration has both pools, and a dataset that was opened has a
driver, so the branches of `write` for a missing pool and the null checks of the callback are left
out. The driver is its environment: a call of `driver->write` begins, is logged with the payload it
is given, and later returns or throws.
-/

namespace Amio

/-! ### Arguments -/

/-- The arguments of a `write`; `nullArg` when one of the pointers is null. The host memory is not
an argument: its contents are read at the copy. -/
structure WriteArgs where
  dataset : Nat
  varName : List UInt8
  nullArg : Bool := false
  dtype : Option Dtype
  shape : Shape
  deriving DecidableEq

/-- `validate_shape`. -/
def validateShape (shape : Shape) : Bool :=
  decide (1 ≤ shape.rank ∧ shape.rank ≤ maxRank) &&
    (dims shape.rank).all fun i => decide (0 < shape.extents i)

/-- `compute_element_count`, in `std::size_t`. -/
def computeElementCount (shape : Shape) : Nat :=
  (dims shape.rank).foldl (fun count i => u64 (count * (shape.extents i % 2 ^ 64).toNat)) 1

/-- The hash that stands for the variable in the ordering key. `char` is signed. -/
def varHash (name : List UInt8) : UInt64 :=
  name.foldl (fun h c => h * 31 + c.toInt8.toInt64.toUInt64) 0

namespace WriteArgs

variable (a : WriteArgs)

def payloadBytes : Nat := u64 (computeElementCount a.shape * elementSize a.dtype)

/-- Steps 1 and 2 of `write`: the status of a call that is rejected for its arguments. -/
def check : AmioErr :=
  if a.nullArg then .invalidInput
  -- an unknown dtype has size 0
  else if elementSize a.dtype = 0 then .invalidInput
  else if validateShape a.shape = false then .invalidInput
  -- the byte count is a 64-bit product, so large positive extents can wrap to zero
  else if a.payloadBytes = 0 then .invalidInput
  else .ok

end WriteArgs

/-- The `VarMeta` that `write` passes to the driver. -/
def WriteArgs.varMeta (a : WriteArgs) (datasetId : UInt64) : VarMeta where
  datasetId := datasetId
  variableId := varHash a.varName
  name := a.varName
  dtype := a.dtype
  shape := a.shape

/-! ### Records -/

structure IoRecord where
  datasetId : UInt64 := 0
  dvSeq : Nat := 0
  token : Token := 0
  completed : Bool := false
  failed : Bool := false
  failureCode : AmioErr := .ok
  deriving DecidableEq

/-- The fields of `DatasetRecord` that the write path uses; `pendingWrites` is the value of a
64-bit unsigned counter. -/
structure DatasetRecord where
  datasetId : UInt64
  pendingWrites : Nat := 0
  hasFailure : Bool := false
  firstFailureCode : AmioErr := .ok
  deriving DecidableEq

/-- Where a call of `write` is, by the last thing it did. -/
inductive HostPc
  | checked
  | blocked
  | acquired
  | copied
  | inserted
  | submitting
  | submitted
  | counted
  | returned (status : AmioErr)
  deriving DecidableEq

/-- Where the callback of a write is, by the last thing it did. -/
inductive CallbackPc
  | waiting
  | entered
  | inDriver
  | wrote
  | threw
  | markedFailed
  | coded
  | markedDataset
  | flagged
  | released
  | finished
  deriving DecidableEq

/-- One call of `write` with its `IoRecord` and its callback. `snapshot` is what was copied from
the host, `result` what `submit_write` answered, `added` whether `pending_writes` was incremented,
and `outcome` whether the driver returned. -/
structure WriteCall where
  args : WriteArgs
  host : HostPc
  buf : Nat := 0
  snapshot : List UInt8 := []
  io : IoRecord := {}
  result : Option SubmitResult := none
  added : Bool := false
  cb : CallbackPc := .waiting
  outcome : Option Bool := none

/-- What the tasks of the worker pool run: the callback of a write, or a prefetch for a dataset. -/
inductive Closure
  | write (c : Nat)
  | prefetch (dataset : Nat)
  deriving DecidableEq

/-- Who owns a staging buffer: a write, or another user of the core. -/
inductive Holder
  | write (c : Nat)
  | other
  deriving DecidableEq

/-- A `driver->write` that began. -/
structure DriverWrite where
  call : Nat
  payload : List UInt8
  varMeta : VarMeta
  deriving DecidableEq

inductive FlushPc
  | entered
  | polling
  | drained
  | returned (status : AmioErr)
  deriving DecidableEq

/-- One call of `flush`; `before` are the writes that had returned `AMIO_OK` when it began. -/
structure Flush where
  dataset : Nat
  before : List Nat
  pc : FlushPc
  deriving DecidableEq

/-- The state of the core, of the calls in progress, and what the driver was asked. -/
structure WriteRun where
  staging : StagingPool
  owner : Nat → Option Holder
  workers : WorkerRun Closure
  handles : HandleTable Nat
  datasets : Nat → DatasetRecord
  ncalls : Nat
  calls : Nat → WriteCall
  driverLog : List DriverWrite
  nflushes : Nat
  flushes : Nat → Flush

/-- The steps of a write call, in their order. `alloc` is whether an allocation by the staging
pool succeeds and `bytes` what the host memory holds. -/
inductive HostOp
  | acquire (alloc : Bool)
  | giveUp (alloc : Bool)
  | copy (bytes : List UInt8)
  | insert
  | enter
  | submitted
  | count
  | ret

/-- What the rest of the core does with buffers and handles. -/
inductive OtherOp
  | acquire (requiredBytes : Nat) (alloc final : Bool)
  | release (buf : Nat)
  | fill (buf : Nat) (bytes : List UInt8)
  | insertHandle (kind : HandleKind) (payload : Option Nat)
  | releaseHandle (token : Token) (kind : HandleKind)

inductive FlushOp
  | read
  | timeout
  | finish

inductive WriteOp
  | call (args : WriteArgs)
  | host (c : Nat) (op : HostOp)
  | callback (w : Nat) (ok : Bool)
  | worker (op : WorkerOp Closure)
  | other (op : OtherOp)
  | flush (dataset : Nat)
  | flushStep (f : Nat) (op : FlushOp)

namespace WriteRun

variable (s : WriteRun)

def setCall (c : Nat) (x : WriteCall) : WriteRun :=
  { s with calls := Function.update s.calls c x }

def setDataset (d : Nat) (x : DatasetRecord) : WriteRun :=
  { s with datasets := Function.update s.datasets d x }

/-- The dataset of a call. -/
def datasetOf (c : Nat) : DatasetRecord := s.datasets (s.calls c).args.dataset

/-- The metadata captured by the callback of call `c`. -/
def metaOf (c : Nat) : VarMeta := (s.calls c).args.varMeta (s.datasetOf c).datasetId

/-- What call `c` submits to the worker pool. -/
def requestOf (c : Nat) : WriteRequest Closure where
  dvKey := ⟨(s.datasetOf c).datasetId, varHash (s.calls c).args.varName⟩
  handleId := (s.calls c).io.token
  callback := .write c

/-! ### `write` -/

/-- A thread calls `write`. -/
def beginCall (args : WriteArgs) : WriteRun :=
  { s.setCall s.ncalls
      { args := args, host := if args.check = .ok then .checked else .returned args.check } with
    ncalls := s.ncalls + 1 }

/-- The end of an attempt to acquire: an exception of the allocation is translated at the C
boundary, and `onBlocked` is where the call goes when there is no buffer. -/
def afterAcquire (c : Nat) (onBlocked : HostPc) (res : StagingPool.Acquired × StagingPool) :
    WriteRun :=
  match res.1 with
  | .got b =>
    { s.setCall c { s.calls c with host := .acquired, buf := b } with
      staging := res.2
      owner := Function.update s.owner b (some (.write c)) }
  -- the growth of the buffer has thrown, which the boundary translates
  | .threw =>
    { s.setCall c { s.calls c with host := .returned .backendFailure } with staging := res.2 }
  -- the pool is exhausted: the call waits, or gives up
  | .blocked => { s.setCall c { s.calls c with host := onBlocked } with staging := res.2 }

/-- The next access of call `c`. The handle id of the task is the fresh Io token, and whatever
`submit_write` answers, `pending_writes` is incremented and the call returns `AMIO_OK`. -/
def hostStep (c : Nat) (op : HostOp) : Option WriteRun :=
  match op, (s.calls c).host with
  | .acquire alloc, .checked | .acquire alloc, .blocked =>
    some (s.afterAcquire c .blocked (s.staging.acquireOnce (s.calls c).args.payloadBytes alloc))
  -- the deadline is past: one last attempt under the lock, then AMIO_STAGING_BACKPRESSURE
  | .giveUp alloc, .blocked =>
    some (s.afterAcquire c (.returned .stagingBackpressure)
      (s.staging.acquireFinal (s.calls c).args.payloadBytes alloc))
  | .copy bytes, .acquired =>
    if bytes.length = (s.calls c).args.payloadBytes then
      some { s.setCall c { s.calls c with host := .copied, snapshot := bytes } with
        staging := s.staging.fill (s.calls c).buf bytes }
    else none
  | .insert, .copied =>
    some { s.setCall c { s.calls c with
        host := .inserted
        io := { datasetId := (s.datasetOf c).datasetId
                token := (s.handles.insert .io (some c)).1 } } with
      handles := (s.handles.insert .io (some c)).2 }
  -- the submission is identified by the call; from here the worker pool drives it
  -- (`WorkerOp.lock`, `WorkerOp.wake`) until its submitter has returned
  | .enter, .inserted =>
    (s.workers.step (.enter c (s.requestOf c))).map fun r =>
      { s.setCall c { s.calls c with host := .submitting } with workers := r }
  | .submitted, .submitting =>
    match s.workers.pool.submitter c with
    | .returned res =>
      some (s.setCall c { s.calls c with
        host := .submitted, result := some res, io := { (s.calls c).io with dvSeq := res.seq } })
    | _ => none
  -- `result` is not looked at: a refused submission is counted too
  | .count, .submitted =>
    some ((s.setCall c { s.calls c with host := .counted, added := true }).setDataset
      (s.calls c).args.dataset
      { s.datasetOf c with pendingWrites := u64 ((s.datasetOf c).pendingWrites + 1) })
  | .ret, .counted => some (s.setCall c { s.calls c with host := .returned .ok })
  | _, _ => none

/-! ### The callback -/

/-- The next access of the callback of call `c`; `ok` is whether the driver returns, where it is
asked. `catch (...)` sets two flags of the write and two of the dataset, one after the other. -/
def runCallback (c : Nat) (ok : Bool) : Option WriteRun :=
  let call := s.calls c
  match call.cb with
  | .waiting => none
  | .entered =>
    some { s.setCall c { call with cb := .inDriver } with
      driverLog := s.driverLog ++ [⟨c, s.staging.payload call.buf, s.metaOf c⟩] }
  | .inDriver =>
    some (s.setCall c { call with cb := if ok then .wrote else .threw, outcome := some ok })
  -- `completed` is stored in the `try` block, after the driver returned
  | .wrote =>
    some (s.setCall c { call with cb := .flagged, io := { call.io with completed := true } })
  | .threw =>
    some (s.setCall c { call with cb := .markedFailed, io := { call.io with failed := true } })
  | .markedFailed =>
    some (s.setCall c { call with
      cb := .coded, io := { call.io with failureCode := .backendFailure } })
  | .coded =>
    some ((s.setCall c { call with cb := .markedDataset }).setDataset call.args.dataset
      { s.datasetOf c with hasFailure := true })
  -- a plain check for AMIO_OK and a plain store: the first failure keeps its code
  | .markedDataset =>
    some ((s.setCall c { call with cb := .flagged }).setDataset call.args.dataset
      { s.datasetOf c with
        firstFailureCode :=
          if (s.datasetOf c).firstFailureCode = .ok then .backendFailure
          else (s.datasetOf c).firstFailureCode })
  | .flagged =>
    some { s.setCall c { call with cb := .released } with
      staging := s.staging.release call.buf
      owner := Function.update s.owner call.buf none }
  -- `fetch_sub(1)` on the unsigned counter
  | .released =>
    some ((s.setCall c { call with cb := .finished }).setDataset call.args.dataset
      { s.datasetOf c with
        pendingWrites := u64 ((s.datasetOf c).pendingWrites + (2 ^ 64 - 1)) })
  | .finished => none

/-- The call whose callback worker `w` is inside of, if any. -/
def runningCall (w : Nat) : Option Nat :=
  match s.workers.pool.worker w with
  | .writing ⟨_, _, _, .write c⟩ .locked => some c
  | _ => none

/-- The call whose callback worker `w` is about to enter, if any. -/
def nextCall (w : Nat) : Option Nat :=
  match s.workers.pool.worker w with
  | .writing ⟨_, _, _, .write c⟩ .dequeued => some c
  | _ => none

/-! ### Worker pool, other users, flush -/

/-- A step of the worker pool. A worker leaves a callback only when it is finished, and enters one
at its beginning. -/
def workerStep (op : WorkerOp Closure) : Option WriteRun :=
  match op with
  -- submissions are entered by `hostStep` alone
  | .enter _ _ => none
  | .submitPrefetch task late =>
    match task.callback with
    | .prefetch _ =>
      (s.workers.step (.submitPrefetch task late)).map fun r => { s with workers := r }
    | .write _ => none
  -- `locked` to `ran` is the return of the callback, and `dequeued` to `locked` its start; the
  -- accesses in between are `runCallback`
  | .advance w =>
    if (s.runningCall w).all fun c => decide ((s.calls c).cb = .finished) then
      (s.workers.step (.advance w)).map fun r =>
        { s with
          workers := r
          calls :=
            match s.nextCall w with
            | some c => Function.update s.calls c { s.calls c with cb := .entered }
            | none => s.calls }
    else none
  | op => (s.workers.step op).map fun r => { s with workers := r }

/-- Other users of the pools keep to their own buffers and to handles that are not Io handles. -/
def otherStep : OtherOp → Option WriteRun
  | .acquire r alloc final =>
    let res := if final then s.staging.acquireFinal r alloc else s.staging.acquireOnce r alloc
    match res.1 with
    | .got b => some { s with staging := res.2, owner := Function.update s.owner b (some .other) }
    | _ => some { s with staging := res.2 }
  -- the other users release and fill only what is theirs
  | .release b =>
    if s.owner b = some .other then
      some { s with staging := s.staging.release b, owner := Function.update s.owner b none }
    else none
  | .fill b bytes =>
    if s.owner b = some .other then some { s with staging := s.staging.fill b bytes } else none
  -- Io handles are made by the writes alone
  | .insertHandle kind payload =>
    if kind = .io then none else some { s with handles := (s.handles.insert kind payload).2 }
  | .releaseHandle token kind =>
    if kind = .io then none else some { s with handles := (s.handles.release token kind).2 }

/-- A thread calls `flush`. -/
def beginFlush (d : Nat) : WriteRun :=
  { s with
    nflushes := s.nflushes + 1
    flushes := Function.update s.flushes s.nflushes
      { dataset := d, pc := .entered
        -- ghost: the writes this flush is a barrier for
        before := (List.range s.ncalls).filter fun c =>
          decide ((s.calls c).args.dataset = d ∧ (s.calls c).host = .returned .ok) } }

/-- The next access of flush `f`: it polls `pending_writes` until that is zero or the deadline is
past, and then reads the failure flag. -/
def flushStep (f : Nat) (op : FlushOp) : Option WriteRun :=
  let x := s.flushes f
  let record := s.datasets x.dataset
  match op, x.pc with
  | .read, .entered | .read, .polling =>
    some { s with
      flushes := Function.update s.flushes f
        { x with pc := if record.pendingWrites = 0 then .drained else .polling } }
  -- a flush may time out at any of its polls
  | .timeout, .polling =>
    some { s with flushes := Function.update s.flushes f { x with pc := .returned .timeout } }
  -- the failures are read after the drain
  | .finish, .drained =>
    some { s with
      flushes := Function.update s.flushes f
        { x with pc := .returned (if record.hasFailure then record.firstFailureCode else .ok) } }
  | _, _ => none

/-- One step of one thread. -/
def step : WriteOp → Option WriteRun
  | .call args => some (s.beginCall args)
  | .host c op => if c < s.ncalls then s.hostStep c op else none
  | .callback w ok => (s.runningCall w).bind fun c => s.runCallback c ok
  | .worker op => s.workerStep op
  | .other op => s.otherStep op
  | .flush d => some (s.beginFlush d)
  | .flushStep f op => if f < s.nflushes then s.flushStep f op else none

/-- A core as `init` leaves it, with datasets opened for writing. -/
def start (a : PoolArgs) (threadCount : Nat) (bp : BackpressureConfig) (ids : Nat → UInt64) :
    WriteRun where
  staging := .create a
  owner := fun _ => none
  workers := .start Closure threadCount bp
  handles := .empty
  datasets := fun d => { datasetId := ids d }
  ncalls := 0
  calls := fun _ =>
    -- a call that has not been made
    { args := ⟨0, [], false, none, ⟨0, fun _ => 0, fun _ => 0⟩⟩, host := .returned .invalidInput }
  driverLog := []
  nflushes := 0
  flushes := fun _ => ⟨0, [], .entered⟩

/-- Every pool configuration the constructors accept. -/
def system : Lts.System WriteRun WriteOp where
  init s := ∃ a n bp ids, n ≤ kMaxThreadCount ∧ s = start a n bp ids
  step := step

/-! ### A small core

Fragments of concrete runs, for the examples of the modules that follow. -/

/-- A core with two buffers of eight bytes. -/
def byteCore (threadCount : Nat) (bp : BackpressureConfig) : WriteRun :=
  start PoolRun.pairArgs threadCount bp fun d => UInt64.ofNat d

theorem byteCore_init (n : Nat) (hn : n ≤ kMaxThreadCount) (bp : BackpressureConfig) :
    system.init (byteCore n bp) :=
  ⟨_, n, bp, _, hn, rfl⟩

/-- Call `c`, of one byte for a variable of dataset `0`, up to its submission. -/
def prepareOps (c : Nat) (varName : List UInt8) (byte : UInt8) : List WriteOp :=
  [.call ⟨0, varName, false, some .u8, ⟨1, fun _ => 1, fun _ => 0⟩⟩, .host c (.acquire true),
    .host c (.copy [byte]), .host c .insert]

/-- Call `c` from its submission to its return. -/
def submitOps (c : Nat) : List WriteOp :=
  [.host c .enter, .worker (.lock c), .host c .submitted, .host c .count, .host c .ret]

/-- Worker `w` takes the next task and runs its callback to the end. A driver that throws takes
three more accesses. -/
def executeOps (w : Nat) (ok : Bool) : List WriteOp :=
  [.worker (.turn w 0), .worker (.advance w)] ++
    List.replicate (if ok then 5 else 8) (.callback w ok) ++
    [.worker (.advance w), .worker (.advance w)]

end WriteRun

end Amio
