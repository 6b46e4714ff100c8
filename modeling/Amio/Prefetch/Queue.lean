import Amio.Staging.Ownership
import Mathlib.Data.List.AList
import Mathlib.Data.Finset.Insert

/-!
# The prefetch queue

`prefetch/prefetch_queue.{hpp,cpp}`: the staged results of one variable. `get_buffer`,
`schedule_fetch` and `sync_fetch` hold `mu_` only between the points where they look at the maps, so
they are cut there: each function below is one critical section, on the queue together with the
staging pool whose lock nests inside. How the sections follow one another is said twice, for a queue
without workers (`Prefetch.Synchronous`) and for one whose fetches run on worker threads
(`Prefetch.Run`).

The two `std::map`s keyed by timestep and `failed_` are association lists, `pending_` is a finite
set. `pool_` and `driver_` are not null in a queue that `resolve_variable` made. The read timeout
only fixes the deadline of the wait, which is left to the environment. With the queue go two ghost
maps: who owns each staging buffer, and which driver read filled it last.
-/

namespace Amio

/-! ### Selections -/

/-- `PrefetchQueue::bbox_same`. -/
def bboxSame : Option Bbox → Option Bbox → Bool
  | none, none => true
  | some x, some y =>
    -- only the dimensions below the rank are compared, as only these reach the driver
    decide (x.rank = y.rank) && (dims x.rank).all fun d =>
      decide (x.offsets d = y.offsets d ∧ x.extents d = y.extents d ∧ x.strides d = y.strides d)
  | _, _ => false

/-- The `BoundingBox` that `sync_fetch` builds for the driver: the entries below `rank`, and zero
beyond. -/
def Bbox.toDriver (b : Bbox) : Bbox where
  rank := b.rank
  offsets d := if (d : Int) < b.rank then b.offsets d else 0
  extents d := if (d : Int) < b.rank then b.extents d else 0
  strides d := if (d : Int) < b.rank then b.strides d else 0

/-- The axes below the rank. -/
theorem mem_dims {rank : Int} {d : Fin maxRank} : d ∈ dims rank ↔ (d : Int) < rank := by
  simp [dims]

/-- **`bbox_same` is equality of what the driver is given.** -/
theorem bboxSame_iff {a b : Option Bbox} :
    bboxSame a b = true ↔ a.map Bbox.toDriver = b.map Bbox.toDriver := by
  cases a with
  | none => cases b <;> simp [bboxSame]
  | some x =>
    cases b with
    | none => simp [bboxSame]
    | some y =>
      simp only [bboxSame, Bool.and_eq_true, decide_eq_true_eq, List.all_eq_true, mem_dims,
        Option.map_some, Option.some.injEq, Bbox.toDriver, Bbox.mk.injEq]
      constructor
      -- entries beyond the rank are zero in the driver's box, on both sides
      · rintro ⟨hrank, hall⟩
        refine ⟨hrank, ?_, ?_, ?_⟩
        all_goals
          funext d
          rw [← hrank]
          split
          · next hd => simp [hall d hd]
          · rfl
      · rintro ⟨hrank, hoff, hext, hstr⟩
        refine ⟨hrank, fun d hd => ⟨?_, ?_, ?_⟩⟩
        · simpa [hd, hrank ▸ hd] using congrFun hoff d
        · simpa [hd, hrank ▸ hd] using congrFun hext d
        · simpa [hd, hrank ▸ hd] using congrFun hstr d

/-! ### The queue -/

/-- The fields of `VariableInfo` that the queue reads. -/
structure VariableInfo where
  dtype : Option Dtype
  shape : Shape
  totalTimesteps : Int
  deriving DecidableEq

/-- The byte count of a block of elements, when it can be derived: the two loops over `extents` in
`sync_fetch`. Arithmetic is that of `std::size_t`. -/
def blockBytes (elem : Nat) (rank : Int) (extents : Fin maxRank → Int) : Option Nat :=
  if 0 < elem ∧ 0 < rank ∧ (dims rank).all (fun d => decide (0 < extents d)) then
    some (u64 (elem * (dims rank).foldl (fun n d => u64 (n * (extents d % 2 ^ 64).toNat)) 1))
  else none

/-- `acquire_bytes` in `sync_fetch`, for a pool of the given nominal capacity: the size of the
selection, else that of the record, else the nominal capacity. -/
def VariableInfo.acquireBytes (info : VariableInfo) (capacity : Nat) (bbox : Option Bbox) : Nat :=
  let elem := elementSize info.dtype
  let record := (blockBytes elem info.shape.rank info.shape.extents).getD 0
  let payload :=
    match bbox with
    | some b => (blockBytes elem b.rank b.extents).getD record
    | none => record
  -- a record of unknown size gets a buffer of nominal capacity
  if 0 < payload then payload else capacity

/-- A buffer that is asked for has room. -/
theorem VariableInfo.acquireBytes_pos {info : VariableInfo} {capacity : Nat} (h : 0 < capacity)
    (bbox : Option Bbox) : 0 < info.acquireBytes capacity bbox := by
  simp only [VariableInfo.acquireBytes]
  split
  all_goals
    split
    · assumption
    · exact h

/-- `std::map<std::int64_t, β>`. -/
abbrev StepMap (β : Type) := AList fun _ : Int => β

/-- What is erased is not found. -/
theorem StepMap.lookup_erase {β : Type} (m : StepMap β) (t t' : Int) :
    AList.lookup t' (AList.erase t m) = if t' = t then none else m.lookup t' := by
  split
  · next h => rw [h, AList.lookup_erase]
  · next h => exact AList.lookup_erase_ne h

/-- What is inserted is found. -/
theorem StepMap.lookup_insert {β : Type} (m : StepMap β) (t t' : Int) (v : β) :
    AList.lookup t' (AList.insert t v m) = if t' = t then some v else m.lookup t' := by
  split
  · next h => subst h; exact AList.lookup_insert m
  · next h => exact AList.lookup_insert_ne h

structure PrefetchQueue where
  depth : Nat
  totalTimesteps : Int
  datasetId : UInt64
  varName : List UInt8
  info : VariableInfo
  -- guarded by `mu_` from here on
  completed : StepMap Nat
  fetchedBbox : StepMap Bbox
  pending : Finset Int
  failed : StepMap AmioErr
  latchedBbox : Option Bbox
  kickedOff : Bool
  cancelled : Bool

/-- One `driver->read`, with the payload it delivered. -/
structure DriverRead where
  varMeta : VarMeta
  timestep : Int
  bbox : Option Bbox
  payload : List UInt8
  deriving DecidableEq

/-- Why a `driver->read` throws: the buffer is too small, with the sizes that the message names, or
anything else. -/
inductive ReadError
  | overCapacity (required capacity : Nat)
  | failed
  deriving DecidableEq

/-- The end that `read` has in the drivers: the check of `total_bytes` against the capacity, the
transfer by the library, and `used_bytes`. -/
def readInto {β : Type} (capacity totalBytes : Nat) (transfer : Option β) :
    Except ReadError (β × Nat) :=
  if capacity < totalBytes then .error (.overCapacity totalBytes capacity)
  else
    match transfer with
    | some out => .ok (out, totalBytes)
    | none => .error .failed

/-- What a read delivers, if it does not throw. -/
theorem toOption_readInto {β : Type} (capacity totalBytes : Nat) (transfer : Option β) :
    (readInto capacity totalBytes transfer).toOption =
      if capacity < totalBytes then none else transfer.map fun out => (out, totalBytes) := by
  unfold readInto
  split
  · rfl
  · cases transfer <;> rfl

namespace PrefetchQueue

/-- `kMinDepth` and `kMaxDepth`. -/
abbrev kMinDepth : Nat := 1

abbrev kMaxDepth : Nat := 1024

/-- The constructor, as `resolve_variable` calls it. -/
def create (depth : Nat) (datasetId : UInt64) (varName : List UInt8) (info : VariableInfo) :
    PrefetchQueue where
  -- clamped, not refused
  depth := if depth < kMinDepth then kMinDepth else if kMaxDepth < depth then kMaxDepth else depth
  totalTimesteps := info.totalTimesteps
  datasetId := datasetId
  varName := varName
  info := info
  completed := ∅
  fetchedBbox := ∅
  pending := ∅
  failed := ∅
  latchedBbox := none
  kickedOff := false
  cancelled := false

variable (q : PrefetchQueue)

/-- The number of fetches that open the look-ahead window at `start`. Timesteps are added and
subtracted as `std::int64_t`. -/
def windowCount (start : Int) : Nat := (min (q.depth : Int) (i64 (q.totalTimesteps - start))).toNat

/-- `next_t` of `schedule_next`. Nothing checks the sum, which may wrap around. -/
def nextTimestep (t : Int) : Int := i64 (t + q.depth)

/-- Whether `schedule_fetch` leaves timestep `t` alone. -/
def tracked (t : Int) : Bool :=
  decide (t ∈ q.pending) || (q.completed.lookup t).isSome || (q.failed.lookup t).isSome

/-- The critical section of `schedule_fetch`: `some sel` when a fetch of `t` with the selection
`sel` is to be dispatched. -/
def track (t : Int) : Option (Option Bbox) × PrefetchQueue :=
  if q.cancelled || q.tracked t then (none, q)
  else (some q.latchedBbox, { q with pending := insert t q.pending })

/-- `mark_complete`. -/
def markComplete (t : Int) (buf : Nat) (bbox : Option Bbox) : PrefetchQueue :=
  { q with
    pending := q.pending.erase t
    completed := q.completed.insert t buf
    -- a whole record is remembered by the absence of an entry, so an entry left by an earlier
    -- fetch of the timestep is erased
    fetchedBbox :=
      match bbox with
      | some b => q.fetchedBbox.insert t b
      | none => q.fetchedBbox.erase t }

/-- `mark_failed`. -/
def markFailed (t : Int) (error : AmioErr) : PrefetchQueue :=
  { q with pending := q.pending.erase t, failed := q.failed.insert t error }

/-- The cancellation check of `sync_fetch`: `false` when the fetch is not to go on. -/
def startFetch (t : Int) : Bool × PrefetchQueue :=
  if q.cancelled then (false, { q with pending := q.pending.erase t }) else (true, q)

def dropFailed (t : Int) : PrefetchQueue := { q with failed := q.failed.erase t }

def dropCompleted (t : Int) : PrefetchQueue :=
  { q with completed := q.completed.erase t, fetchedBbox := q.fetchedBbox.erase t }

/-- The `driver->read` of timestep `t` with selection `bbox`, delivering `payload`. -/
def driverRead (t : Int) (bbox : Option Bbox) (payload : List UInt8) : DriverRead where
  varMeta := ⟨q.datasetId, 0, q.varName, q.info.dtype, q.info.shape, t⟩
  timestep := t
  bbox := bbox.map Bbox.toDriver
  payload := payload

end PrefetchQueue

/-! ### The queue and the staging pool -/

/-- Who owns a staging buffer: the queue, under a timestep of `completed_`; the fetch that acquired
it; the caller `get_buffer` handed it to; or another user of the pool. -/
inductive Keeper
  | staged (t : Int)
  | fetch (f : Nat)
  | caller (c : Nat)
  | other
  deriving DecidableEq

/-- The queue, the pool, and the two ghost maps. -/
structure Stage where
  queue : PrefetchQueue
  pool : StagingPool
  owner : Nat → Option Keeper
  lastRead : Nat → Option DriverRead

/-- How a critical section of `get_buffer` ends: the call returns, or it drops the lock to call
`schedule_fetch`, or it goes on under the lock. -/
inductive Verdict
  | ret (status : AmioErr) (out : Option Nat)
  | unlock
  | proceed
  deriving DecidableEq, Repr

namespace Stage

variable (s : Stage)

def withQueue (q : PrefetchQueue) : Stage := { s with queue := q }

def withPool (p : StagingPool) : Stage := { s with pool := p }

/-- `pool_->acquire` returned `buf` to `k`, leaving the pool `p`. -/
def acquired (p : StagingPool) (buf : Nat) (k : Keeper) : Stage :=
  { s with pool := p, owner := Function.update s.owner buf (some k) }

/-- `pool_->release`. -/
def release (buf : Nat) : Stage :=
  { s with pool := s.pool.release buf, owner := Function.update s.owner buf none }

/-- A buffer changes hands. -/
def give (buf : Nat) (k : Keeper) : Stage :=
  { s with owner := Function.update s.owner buf (some k) }

/-- `driver->read` delivers `r` into `buf`. -/
def deliver (buf : Nat) (r : DriverRead) : Stage :=
  { s with
    pool := s.pool.fill buf r.payload
    lastRead := Function.update s.lastRead buf (some r) }

/-- The rest of `sync_fetch` once the buffer is filled, when it fits: `mark_complete`. -/
def complete (t : Int) (buf : Nat) (sel : Option Bbox) : Stage :=
  (s.withQueue (s.queue.markComplete t buf sel)).give buf (.staged t)

/-- `mark_failed`. -/
def fail (t : Int) (error : AmioErr) : Stage := s.withQueue (s.queue.markFailed t error)

/-- The guard of `sync_fetch` against a driver that reports more than the buffer holds. -/
def overCapacity (buf : Nat) : Bool :=
  decide ((s.pool.buf buf).capacityBytes < (s.pool.buf buf).usedBytes)

/-- A failed fetch is reported once. -/
def takeFailed (t : Int) (otherwise : Verdict × Stage) : Verdict × Stage :=
  match s.queue.failed.lookup t with
  | some err => (.ret err none, s.withQueue (s.queue.dropFailed t))
  | none => otherwise

/-- The look at `completed_` that returns a buffer only for exactly the requested selection, and
drops one that was fetched with another. -/
def takeCompleted (c : Nat) (t : Int) (bbox : Option Bbox) (stale : Stage → Verdict × Stage)
    (absent : Verdict × Stage) : Verdict × Stage :=
  match s.queue.completed.lookup t with
  | some buf =>
    let dropped := s.withQueue (s.queue.dropCompleted t)
    if bboxSame (s.queue.fetchedBbox.lookup t) bbox then
      (.ret .ok (some buf), dropped.give buf (.caller c))
    -- the buffer answers another question: it goes back to the pool
    else stale (dropped.release buf)
  | none => absent

/-- Whether `get_buffer` has to schedule the fetch itself. -/
def needFetch (t : Int) : Verdict × Stage :=
  (if t ∈ s.queue.pending then .proceed else .unlock, s)

/-- `get_buffer` up to its loop: `unlock` to schedule the fetch of `t`, `proceed` into the loop. -/
def firstCheck (c : Nat) (t : Int) (bbox : Option Bbox) : Verdict × Stage :=
  s.takeFailed t (s.takeCompleted c t bbox (fun s' => s'.needFetch t) (s.needFetch t))

/-- The top of the loop: `unlock` after a stale buffer was dropped. -/
def loopCheck (c : Nat) (t : Int) (bbox : Option Bbox) : Verdict × Stage :=
  s.takeCompleted c t bbox (fun s' => (.unlock, s')) (.proceed, s)

/-- The rest of the loop body; `proceed` goes to waiting. -/
def waitCheck (t : Int) : Verdict × Stage :=
  -- a failure is preferred to the cancellation
  s.takeFailed t (if s.queue.cancelled then (.ret .backendFailure none, s) else (.proceed, s))

/-- The checks made when the wait has timed out. The selection is not compared, and
`fetched_bbox_` keeps its entry. -/
def lastCheck (c : Nat) (t : Int) : Verdict × Stage :=
  match s.queue.completed.lookup t with
  | some buf =>
    (.ret .ok (some buf),
      (s.withQueue { s.queue with completed := s.queue.completed.erase t }).give buf (.caller c))
  | none => s.takeFailed t (.ret .timeout none, s)

/-- `cancel_pending`. The staged buffers go back to the pool in the order of their timesteps. -/
def cancelPending : Stage :=
  -- in the order of the map
  let entries := s.queue.completed.entries.insertionSort fun a b => a.1 ≤ b.1
  entries.foldl (fun s e => s.release e.2)
    (s.withQueue { s.queue with
      cancelled := true
      pending := ∅
      completed := ∅
      fetchedBbox := ∅
      failed := ∅ })

end Stage

end Amio
