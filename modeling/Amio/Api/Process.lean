import Amio.Boundary.Bounds
import Amio.Boundary.DriverAccess
import Amio.Boundary.HandleRefinement
import Amio.Boundary.Isolation

/-!
# The public calls

Any number of cores in one process, the handle table they share, and a host that makes one public
call after another (`c_boundary/amio_api.cpp` and `amio_core.cpp`). Each core is an `IoRun`: its
writes, its prefetch queues and its staging pool, whose steps are interleaved with those of the
host thread. A call is a sequence of steps, between which the workers run; `ApiCall` is where the
host is, and `last` the status of the last call that returned.

The host decides what it calls with which tokens. What the environment answers stands in the labels:
whether the manifest is accepted and the backend opens, whether a variable is found, whether a
driver throws. What a constructor is given is fixed in the initial state: `io k` is the core that
the `k`-th `init` builds, and queue `q` of it the one that the `q`-th variable gets.

Backend drivers are kept by what they are called with: `received` is the history of one driver
instance. A driver whose `open` throws is destroyed at once and leaves no record.
-/

namespace Amio

/-! ### Records -/

/-- What a handle stands for: a core, or a record of one. -/
inductive Payload
  | core (k : Nat)
  | dataset (k d : Nat)
  | io (k c : Nat)
  | view (k v : Nat)
  deriving DecidableEq

namespace Payload

def kind : Payload → HandleKind
  | .core _ => .core
  | .dataset _ _ => .dataset
  | .io _ _ => .io
  | .view _ _ => .view

/-- The core that the record belongs to. -/
def home : Payload → Nat
  | .core k | .dataset k _ | .io k _ | .view k _ => k

/-- The record among those of its core. -/
def index : Payload → Nat
  | .core _ => 0
  | .dataset _ i | .io _ i | .view _ i => i

end Payload

/-- What a `Backend_Driver` is asked. -/
inductive DriverCall
  | openWrite
  | openRead
  | write
  | describe
  | read
  | flush
  | close
  deriving DecidableEq

def Mode.opening : Mode → DriverCall
  | .write => .openWrite
  | .read => .openRead

/-- `AMIO_Core` without its pools. Datasets, prefetch queues and views are numbered in the order in
which they are made, so that dataset `d` has the id `d + 1`. -/
structure CoreRecord where
  token : Token := 0
  ndatasets : Nat := 0
  nqueues : Nat := 0
  nviews : Nat := 0
  -- the worker threads are joined, the core is deleted
  joined : Bool := false
  deleted : Bool := false

/-- The fields of `DatasetRecord` that the write path does not use. `closed` and `received` are
history. -/
structure OpenRecord where
  mode : Mode := .write
  token : Token := 0
  outstandingViews : Nat := 0
  variableStates : List (List UInt8 × Nat) := []
  closed : Bool := false
  received : List DriverCall := []

/-- `ViewRecord`. Its staging buffer is the one that call `call` of `get_buffer` on queue `queue`
was given. -/
structure ViewRecord where
  dataset : Nat := 0
  queue : Nat := 0
  call : Nat := 0
  token : Token := 0
  freed : Bool := false

/-- The call that the host is inside of, by what it does next. -/
inductive ApiCall
  | idle
  | writing (k c : Nat)
  | reading (k d q c : Nat)
  | advancing (k q c : Nat)
  | flushing (k f : Nat)
  | waiting (k c : Nat)
  -- `close_dataset`: cancel the queues, drain, read the failure flag, flush and close the driver
  | cancelling (k d : Nat) (rest : List Nat)
  | draining (k d : Nat)
  | surfacing (k d : Nat)
  | closing (k d : Nat) (result : AmioErr)
  | flushed (k d : Nat) (result : AmioErr)
  -- `finalize`: drain and join the workers, tear the datasets down
  | stopping (k : Nat)
  | tearing (k : Nat) (rest : List Nat)
  deriving DecidableEq

/-- The process. `reads k q` is the dataset of queue `q`, and `observed k c` whether a `wait` has
seen write `c` completed. -/
structure Process where
  handles : HandleRun Payload
  ncores : Nat
  cores : Nat → CoreRecord
  io : Nat → IoRun
  datasets : Nat → Nat → OpenRecord
  views : Nat → Nat → ViewRecord
  reads : Nat → Nat → Nat
  observed : Nat → Nat → Bool
  call : ApiCall
  last : AmioErr

inductive ApiOp
  | init (refused : Option AmioErr)
  | openDataset (core : Token) (mode : Mode) (refused : Option AmioErr)
  | write (dataset : Token) (args : WriteArgs) (region : Nat)
  | describe (dataset : Token) (name : List UInt8) (found : Bool)
  | read (dataset : Token) (name : List UInt8) (t : Int) (bbox : Option Bbox) (found : Bool)
  | mint
  | wait (io : Token)
  | flush (dataset : Token)
  | releaseView (view : Token)
  | viewData (view : Token)
  | close (dataset : Token)
  | cancel (q : Nat)
  | surface
  | flushDriver (ok : Bool)
  | closeDriver (ok : Bool)
  | finalize (core : Token)
  | join
  | teardown (d : Nat) (ok : Bool)
  | destroy
  -- the call in progress goes on, or gives up
  | proceed
  | expire
  -- a step inside core `k`
  | run (k : Nat) (op : IoOp)

/-! ### The handle table -/

/-- A table whose payloads are renamed. -/
def HandleTable.map {α β : Type} (f : α → β) (t : HandleTable α) : HandleTable β where
  size := t.size
  slot i := ⟨(t.slot i).generation, (t.slot i).live, (t.slot i).kind, (t.slot i).payload.map f⟩
  freeList := t.freeList

namespace HandleRun

variable {α : Type} (r : HandleRun α)

/-- The token that `insert` returns. -/
def fresh (kind : HandleKind) (payload : α) : Token := (r.table.insert kind (some payload)).1

def insert (kind : HandleKind) (payload : α) : HandleRun α :=
  ⟨(r.table.insert kind (some payload)).2, .inserted kind (some payload) (r.fresh kind payload) ::
    r.log⟩

def release (token : Token) (kind : HandleKind) : HandleRun α :=
  ⟨(r.table.release token kind).2,
    if (r.table.release token kind).1 = .ok then .released token :: r.log else r.log⟩

end HandleRun

namespace Process

variable (s : Process)

/-! ### State updates -/

/-- The call in progress returns. -/
def ret (status : AmioErr) : Process := { s with call := .idle, last := status }

def setCore (k : Nat) (x : CoreRecord) : Process :=
  { s with cores := Function.update s.cores k x }

def setDataset (k d : Nat) (x : OpenRecord) : Process :=
  { s with datasets := Function.update s.datasets k (Function.update (s.datasets k) d x) }

def setView (k v : Nat) (x : ViewRecord) : Process :=
  { s with views := Function.update s.views k (Function.update (s.views k) v x) }

/-- The driver of dataset `d` is called. -/
def receive (k d : Nat) (calls : List DriverCall) : Process :=
  s.setDataset k d { s.datasets k d with received := (s.datasets k d).received ++ calls }

/-- `kind_dispatch`: a handle that does not pass the table is all that the call looks at. -/
def dispatch (token : Token) (kind : HandleKind) (body : Payload → Option Process) :
    Option Process :=
  match s.handles.table.lookup token kind with
  | (.ok, some payload) => body payload
  | (.ok, none) => none
  | (status, _) => some (s.ret status)

/-! ### Inside a core -/

/-- Core `k` with the handle table of the process. -/
def ioOf (k : Nat) : IoRun :=
  { s.io k with writes := { (s.io k).writes with handles := s.handles.table.map Payload.index } }

/-- The handle table after a step of core `k`: a write mints its Io handle. -/
def handlesAfter (k : Nat) : IoOp → HandleRun Payload
  | .write (.host c .insert) => s.handles.insert .io (.io k c)
  | _ => s.handles

/-- The call that a driver of core `k` receives in a step. -/
def driverCall (k : Nat) : IoOp → Option (Nat × DriverCall)
  | .write (.callback w _) =>
    ((s.io k).writes.runningCall w).bind fun c =>
      if ((s.io k).writes.calls c).cb = .entered then
        some (((s.io k).writes.calls c).args.dataset, .write)
      else none
  | .read q (.fetch _ (.read _)) => some (s.reads k q, .read)
  | _ => none

def ioStep (k : Nat) (op : IoOp) : Option Process :=
  ((s.ioOf k).step op).map fun io =>
    let s' := { s with io := Function.update s.io k io, handles := s.handlesAfter k op }
    match s.driverCall k op with
    | some (d, call) => s'.receive k d [call]
    | none => s'

/-- Whose step `op` of core `k` is: of the workers until they are joined, or of the host, inside
the call that makes it. -/
def permitted (k : Nat) : IoOp → Bool
  -- the threads of the pool, until they are joined
  | .write (.callback _ _) | .write (.worker (.turn _ _)) | .write (.worker (.advance _))
  | .read _ (.fetch _ _) => !(s.cores k).joined
  -- the host's thread moves only in the call that it has made
  | .write (.worker (.lock c)) | .write (.worker (.wake c _)) | .write (.host c _) | .copy c =>
    decide (s.call = .writing k c)
  | .write (.worker .shutdown) | .read _ .shutdown => decide (s.call = .stopping k)
  | .write (.worker (.submitPrefetch _ _)) =>
    match s.call with
    | .reading k' _ _ _ | .advancing k' _ _ => decide (k' = k)
    | _ => false
  | .read q (.call c) | .read q (.submit c _) | .read q (.expire c) =>
    match s.call with
    | .reading k' _ q' c' | .advancing k' q' c' => decide (k' = k ∧ q' = q ∧ c' = c)
    | _ => false
  | .write (.flushStep f _) => decide (s.call = .flushing k f)
  -- the host may write to its own memory at any time
  | .mutate _ _ => true
  | _ => false

/-! ### The calls -/

/-- `init_from_config`. -/
def init (refused : Option AmioErr) : Process :=
  match refused with
  | some status => s.ret status
  | none =>
    { s.setCore s.ncores { token := s.handles.fresh .core (.core s.ncores) } with
      ncores := s.ncores + 1
      handles := s.handles.insert .core (.core s.ncores) }.ret .ok

/-- `open_dataset_from_config`: the record is made when the driver is open. -/
def openDataset (k : Nat) (mode : Mode) (refused : Option AmioErr) : Process :=
  match refused with
  -- the factory or the driver refuses: no record is made
  | some status => s.ret status
  | none =>
    let d := (s.cores k).ndatasets
    { (s.setCore k { s.cores k with ndatasets := d + 1 }).setDataset k d
        { mode := mode
          token := s.handles.fresh .dataset (.dataset k d)
          received := [mode.opening] } with
      handles := s.handles.insert .dataset (.dataset k d) }.ret .ok

/-- `write` begins. -/
def write (k d : Nat) (args : WriteArgs) (region : Nat) : Option Process :=
  (s.ioStep k (.call { args with dataset := d } region)).map fun s' =>
    { s' with call := .writing k (s.io k).writes.ncalls }

/-- `resolve_variable`: the queue of a variable, which is made when the driver knows it. -/
def resolveVariable (k d : Nat) (name : List UInt8) (found : Bool) :
    Option (Option Nat × Process) :=
  match (s.datasets k d).variableStates.lookup name with
  | some q => some (some q, s)
  | none =>
    let s' := s.receive k d [.describe]
    if found then
      let q := (s.cores k).nqueues
      let queue := ((s.io k).queues q).stage.queue
      -- the queue was constructed for this variable
      if queue.varName = name ∧ queue.datasetId = ((s.io k).writes.datasets d).datasetId then
        some (some q,
          { (s'.setCore k { s.cores k with nqueues := q + 1 }).setDataset k d
              { s'.datasets k d with
                variableStates := (name, q) :: (s.datasets k d).variableStates } with
            reads := Function.update s.reads k (Function.update (s.reads k) q d) })
      else none
    else some (none, s')

def describe (k d : Nat) (name : List UInt8) (found : Bool) : Option Process :=
  let check := (AccessKind.describe name false).check (s.datasets k d).mode
  if check ≠ .ok then some (s.ret check)
  else
    match s.resolveVariable k d name found with
    | some (some _, s') => some (s'.ret .ok)
    -- the driver does not describe the variable
    | some (none, s') => some (s'.ret .backendFailure)
    | none => none

/-- `read` after the variable is resolved, up to `get_buffer`. -/
def fetchBuffer (k d q : Nat) (t : Int) (bbox : Option Bbox) : Option Process :=
  let info := ((s.io k).queues q).stage.queue.info
  if info.totalTimesteps ≤ t then some (s.ret .invalidInput)
  else if validateBbox bbox info.shape ≠ .ok then some (s.ret (validateBbox bbox info.shape))
  else
    (s.ioStep k (.read q (.begin .getBuffer t bbox))).map fun s' =>
      { s' with call := .reading k d q ((s.io k).queues q).ncalls }

def read (k d : Nat) (name : List UInt8) (t : Int) (bbox : Option Bbox) (found : Bool) :
    Option Process :=
  let check := (AccessKind.read name t).check (s.datasets k d).mode
  if check ≠ .ok then some (s.ret check)
  else
    match s.resolveVariable k d name found with
    | some (some q, s') => s'.fetchBuffer k d q t bbox
    | some (none, s') => some (s'.ret .backendFailure)
    | none => none

/-- `read` after `get_buffer`: a buffer becomes a view, and `schedule_next` follows. The token is
not looked at. -/
def mint (k d q c : Nat) : Option Process :=
  let call := ((s.io k).queues q).calls c
  match call.pc with
  | .returned .ok (some _) =>
    -- the token is not looked at, also where it is 0
    let v := (s.cores k).nviews
    let s' :=
      { ((s.setCore k { s.cores k with nviews := v + 1 }).setView k v
          { dataset := d, queue := q, call := c, token := s.handles.fresh .view (.view k v) }
          ).setDataset k d
          { s.datasets k d with outstandingViews := u64 ((s.datasets k d).outstandingViews + 1) }
        with handles := s.handles.insert .view (.view k v) }
    -- then `schedule_next`, before the call returns
    (s'.ioStep k (.read q (.begin .scheduleNext call.timestep none))).map fun s' =>
      { s' with call := .advancing k q ((s.io k).queues q).ncalls }
  -- the guard of `read` for a null buffer
  | .returned .ok none => some (s.ret .backendFailure)
  | .returned status _ => some (s.ret status)
  | _ => none

/-- `release_view`. The view of a core that was deleted points to freed memory. -/
def releaseView (k v : Nat) : Option Process :=
  let view := s.views k v
  -- the record is a part of the core
  if (s.cores k).deleted then none
  else
    (s.ioStep k (.read view.queue (.release view.call))).map fun s' =>
      { (s'.setDataset k view.dataset
          { s'.datasets k view.dataset with
            outstandingViews := u64 ((s.datasets k view.dataset).outstandingViews + (2 ^ 64 - 1)) }
          ).setView k v { view with freed := true } with
        handles := s.handles.release view.token .view }.ret .ok

/-- `close_dataset` up to the first queue: outstanding views refuse it. -/
def close (k d : Nat) : Process :=
  if 0 < (s.datasets k d).outstandingViews then s.ret .viewsOutstanding
  else { s with call := .cancelling k d ((s.datasets k d).variableStates.map Prod.snd) }

/-- `driver->close` and the end of `close_dataset`: the record stays in the core's map. -/
def closeDriver (k d : Nat) (result : AmioErr) : Process :=
  { s.setDataset k d
      { s.datasets k d with
        received := (s.datasets k d).received ++ [DriverCall.close]
        closed := true } with
    handles := s.handles.release (s.datasets k d).token .dataset }.ret result

/-- Every worker thread has left its loop, and no fetch is left to be run. -/
def stopped (k : Nat) : Bool :=
  let io := s.io k
  ((List.range io.writes.workers.pool.threadCount).all fun w =>
    decide (io.writes.workers.pool.worker w = .exited)) &&
  (List.range (s.cores k).nqueues).all fun q =>
    (List.range (io.queues q).nfetches).all fun f =>
      decide (((io.queues q).fetches f).phase = .finished ∨ ((io.queues q).fetches f).phase = .lost)

/-- One dataset in `finalize`. A driver that throws in `flush` is not closed. -/
def teardown (k d : Nat) (rest : List Nat) (ok : Bool) : Process :=
  { s.receive k d (if ok then [.flush, .close] else [.flush]) with
    handles :=
      if (s.datasets k d).token = 0 then s.handles
      else s.handles.release (s.datasets k d).token .dataset
    call := .tearing k (rest.erase d) }

/-- The end of `finalize`. -/
def destroy (k : Nat) : Process :=
  { s.setCore k { s.cores k with deleted := true } with
    handles := s.handles.release (s.cores k).token .core }.ret .ok

/-! ### The steps -/

/-- The host makes a call. -/
def begin : ApiOp → Option Process
  | .init refused => some (s.init refused)
  | .openDataset core mode refused =>
    s.dispatch core .core fun
      | .core k => some (s.openDataset k mode refused)
      | _ => none
  | .write dataset args region =>
    -- null arguments are rejected before the handle is looked at
    if args.nullArg then some (s.ret .invalidInput)
    else s.dispatch dataset .dataset fun
      | .dataset k d => s.write k d args region
      | _ => none
  | .describe dataset name found =>
    s.dispatch dataset .dataset fun
      | .dataset k d => s.describe k d name found
      | _ => none
  | .read dataset name t bbox found =>
    s.dispatch dataset .dataset fun
      | .dataset k d => s.read k d name t bbox found
      | _ => none
  | .wait io =>
    s.dispatch io .io fun
      | .io k c => some { s with call := .waiting k c }
      | _ => none
  | .flush dataset =>
    s.dispatch dataset .dataset fun
      | .dataset k d =>
        (s.ioStep k (.write (.flush d))).map fun s' =>
          { s' with call := .flushing k (s.io k).writes.nflushes }
      | _ => none
  | .releaseView view =>
    s.dispatch view .view fun
      | .view k v => s.releaseView k v
      | _ => none
  | .viewData view =>
    s.dispatch view .view fun
      | .view k _ => if (s.cores k).deleted then none else some (s.ret .ok)
      | _ => none
  | .close dataset =>
    s.dispatch dataset .dataset fun
      | .dataset k d => some (s.close k d)
      | _ => none
  | .finalize core =>
    s.dispatch core .core fun
      | .core k => some { s with call := .stopping k }
      | _ => none
  | _ => none

/-- The call in progress goes on. -/
def proceed : Option Process :=
  match s.call with
  | .writing k c =>
    match ((s.io k).writes.calls c).host with
    | .returned status => some (s.ret status)
    | _ => none
  | .advancing k q c =>
    match (((s.io k).queues q).calls c).pc with
    | .returned _ _ => some (s.ret .ok)
    | _ => none
  | .flushing k f =>
    match ((s.io k).writes.flushes f).pc with
    | .returned status => some (s.ret status)
    | _ => none
  | .waiting k c =>
    -- `wait` polls `completed`, which a failed write does not set
    let io := ((s.io k).writes.calls c).io
    if io.completed then
      some ({ s with
        observed := Function.update s.observed k (Function.update (s.observed k) c true) }.ret
        io.verdict)
    else none
  -- all queues of the dataset are cancelled; then the drain of `pending_writes`
  | .cancelling k d [] => some { s with call := .draining k d }
  | .draining k d =>
    if ((s.io k).writes.datasets d).pendingWrites = 0 then some { s with call := .surfacing k d }
    else none
  | _ => none

/-- One step. -/
def step (op : ApiOp) : Option Process :=
  match op, s.call with
  | .run k op, _ => if k < s.ncores ∧ s.permitted k op then s.ioStep k op else none
  | .proceed, _ => s.proceed
  | .mint, .reading k d q c => s.mint k d q c
  | .expire, .waiting _ _ => some (s.ret .timeout)
  -- the thirty seconds of the drain are over: the close goes on
  | .expire, .draining k d => some { s with call := .surfacing k d }
  | .cancel q, .cancelling k d rest =>
    if q ∈ rest then
      (s.ioStep k (.read q .cancel)).map fun s' =>
        { s' with call := .cancelling k d (rest.erase q) }
    else none
  | .surface, .surfacing k d =>
    some { s with call := .closing k d ((s.io k).writes.datasets d).verdict }
  | .flushDriver ok, .closing k d result =>
    some { s.receive k d [.flush] with call := .flushed k d (result.caught ok) }
  | .closeDriver ok, .flushed k d result =>
    some (s.closeDriver k d (result.caught ok))
  | .join, .stopping k =>
    if s.stopped k then
      some { s.setCore k { s.cores k with joined := true } with
        call := .tearing k (List.range (s.cores k).ndatasets) }
    else none
  | .teardown d ok, .tearing k rest => if d ∈ rest then some (s.teardown k d rest ok) else none
  | .destroy, .tearing k [] => some (s.destroy k)
  | op, .idle => s.begin op
  | _, _ => none

/-- Every process before its first call. -/
def system : Lts.System Process ApiOp where
  init s := s.handles = ⟨.empty, []⟩ ∧ s.ncores = 0 ∧ s.cores = (fun _ => {}) ∧
    (∀ k, IoRun.system.init (s.io k) ∧
      ∀ d, ((s.io k).writes.datasets d).datasetId = UInt64.ofNat (d + 1)) ∧
    s.datasets = (fun _ _ => {}) ∧ s.views = (fun _ _ => {}) ∧ s.reads = (fun _ _ => 0) ∧
    s.observed = (fun _ _ => false) ∧ s.call = .idle ∧ s.last = .ok
  step := step

/-! ### A small process

Fragments of concrete runs, for the examples of the modules that follow. -/

/-- A core with one worker and two buffers, for variables with one record of two bytes. -/
def smallCore : IoRun where
  memory := .create PoolRun.pairArgs
  owner := fun _ => none
  writes := .start PoolRun.pairArgs 1 {} fun d => UInt64.ofNat (d + 1)
  queues := fun _ => .start 1 1 [118] ⟨some .u8, ⟨1, fun _ => 2, fun _ => 0⟩, 1⟩ PoolRun.pairArgs
  host := fun _ => [7]
  source := fun _ => 0
  passed := fun _ => []

/-- A process whose cores are all small. -/
def smallProcess : Process where
  handles := ⟨.empty, []⟩
  ncores := 0
  cores := fun _ => {}
  io := fun _ => smallCore
  datasets := fun _ _ => {}
  views := fun _ _ => {}
  reads := fun _ _ => 0
  observed := fun _ _ => false
  call := .idle
  last := .ok

theorem smallProcess_init : system.init smallProcess :=
  ⟨rfl, rfl, rfl, fun _ => ⟨⟨_, 1, _, _, by decide, rfl, rfl, rfl, fun _ => ⟨_, _, _, _, rfl⟩⟩,
    fun _ => rfl⟩, rfl, rfl, rfl, rfl, rfl, rfl⟩

/-- Write `c` of core `0`, of one byte to the dataset with the given handle, until it returns. -/
def writeOps (dataset : Token) (c : Nat) : List ApiOp :=
  [.write dataset ⟨0, [97], false, some .u8, ⟨1, fun _ => 1, fun _ => 0⟩⟩ 0,
    .run 0 (.write (.host c (.acquire true))), .run 0 (.copy c),
    .run 0 (.write (.host c .insert))] ++
  (WriteRun.submitOps c).map (fun op => .run 0 (.write op)) ++ [.proceed]

/-- The worker of core `0` executes the next write. -/
def workOps : List ApiOp := (WriteRun.executeOps 0 true).map fun op => .run 0 (.write op)

/-- Two cores, and a view of a variable of the first. -/
def viewOps : List ApiOp :=
  [.init none, .init none, .openDataset (pack 0 1) .read none,
    .read (pack 2 1) [118] 0 none true, .run 0 (.read 0 (.call 0)), .run 0 (.read 0 (.call 0)),
    .run 0 (.read 0 (.submit 0 false))] ++
  (PrefetchRun.fetchOps 0 [1, 2]).map (fun op => .run 0 (.read 0 op)) ++
  [.run 0 (.read 0 (.call 0)), .mint, .run 0 (.read 0 (.call 1)), .proceed]

end Process

end Amio
