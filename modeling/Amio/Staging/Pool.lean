import Amio.Lib.System
import Amio.Basic
import Mathlib.Data.List.Sort

/-!
# The staging pool

Model of `staging/staging_pool.{hpp,cpp}`. The vector `buffers_` is its length `size` and its
elements `buf`; `storage_[i]` and `buffers_[i].data` are one optional byte list, since the code
only ever sets the second to `storage_[i].get()`. `ref_count` is a natural number: it is only
decremented by a holder, and the difference to a C++ `int` is not observable below `2 ^ 31`
references to one buffer.

Every operation runs under `mu_`, so each is one step. `acquire` is the loop body between two
waits on `cv_`: `acquireOnce` is the body as run on entry and after each wake-up, and
`acquireFinal` is the last check made when the wait has timed out. A body that comes back
`blocked` is a thread that goes (back) to waiting; the next attempt of that thread is another
`acquireOnce` or an `acquireFinal`. Whether a storage allocation succeeds is the environment's
choice `alloc`.
-/

namespace Amio

/-- `StagingBuffer`. `data = none` is the null pointer of a slot whose storage is not committed;
otherwise it is the content of the allocated block. -/
structure StagingBuffer where
  data : Option (List UInt8)
  capacityBytes : Nat
  usedBytes : Nat
  refCount : Nat
  seq : Nat
  deriving DecidableEq

/-- A default-constructed `StagingBuffer`. -/
def StagingBuffer.empty : StagingBuffer := ⟨none, 0, 0, 0, 0⟩

/-- `StagingPool::GrowMode`. -/
inductive GrowMode
  | bounded
  | grow
  deriving DecidableEq, Repr

/-- `kMaxBufferCount`. -/
abbrev kMaxBufferCount : Nat := 4096

/-- `kMaxBufferCapacity`, 1 GiB. -/
abbrev kMaxBufferCapacity : Nat := 1073741824

/-- `kMaxTimeoutMs`. -/
abbrev kMaxTimeoutMs : Int := 60000

/-- The constructor arguments, with the constructor's assertions. -/
structure PoolArgs where
  bufferCount : Nat
  bufferCapacity : Nat
  timeoutMs : Int
  maxBufferCount : Nat
  mode : GrowMode
  count_range : 1 ≤ bufferCount ∧ bufferCount ≤ kMaxBufferCount
  capacity_range : 1 ≤ bufferCapacity ∧ bufferCapacity ≤ kMaxBufferCapacity
  timeout_range : 1 ≤ timeoutMs ∧ timeoutMs ≤ kMaxTimeoutMs
  max_ge : bufferCount ≤ maxBufferCount
  max_le : maxBufferCount ≤ kMaxBufferCount

/-- The state of a `StagingPool`. -/
structure StagingPool where
  size : Nat
  buf : Nat → StagingBuffer
  freeList : List Nat
  bufferCount : Nat
  maxBufferCount : Nat
  bufferCapacity : Nat
  timeoutMs : Int
  growMode : GrowMode
  growWarned : Bool

namespace StagingPool

/-- The constructor: `buffer_count` uncommitted slots, all on the free list. In bounded mode the
configured count is the ceiling. The final `std::sort` compares capacities that are all zero. -/
def create (a : PoolArgs) : StagingPool where
  size := a.bufferCount
  buf := fun _ => .empty
  freeList := List.range a.bufferCount
  bufferCount := a.bufferCount
  maxBufferCount := if a.mode = .bounded then a.bufferCount else a.maxBufferCount
  bufferCapacity := a.bufferCapacity
  timeoutMs := a.timeoutMs
  growMode := a.mode
  growWarned := false

variable (p : StagingPool)

/-- Overwrite slot `i`. -/
def setBuf (i : Nat) (b : StagingBuffer) : StagingPool :=
  { p with buf := Function.update p.buf i b }

/-- `find_best_fit`: a position in the free list, or its length when the list is empty. First a
committed buffer that is large enough, then an uncommitted one, then the last. -/
def findBestFit (requiredBytes : Nat) : Nat :=
  match p.freeList.findIdx? fun i =>
      (p.buf i).data.isSome && decide (requiredBytes ≤ (p.buf i).capacityBytes) with
  | some idx => idx
  | none =>
    -- else one that has no storage yet
    match p.freeList.findIdx? fun i => (p.buf i).data.isNone with
    | some idx => idx
    -- else the last of the list, whose storage will grow
    | none => if p.freeList = [] then p.freeList.length else p.freeList.length - 1

/-- The size `ensure_storage` commits a buffer at. -/
def targetBytes (requiredBytes : Nat) : Nat :=
  if p.bufferCapacity < requiredBytes then requiredBytes else p.bufferCapacity

/-- `ensure_storage`; `none` when the allocation throws, which happens before anything is
assigned. `make_unique<std::byte[]>` zeroes the block. -/
def ensureStorage (bufIdx requiredBytes : Nat) (alloc : Bool) : Option StagingPool :=
  let b := p.buf bufIdx
  if b.data.isSome ∧ p.targetBytes requiredBytes ≤ b.capacityBytes then some p
  -- the allocation may throw
  else if alloc then
    some (p.setBuf bufIdx
      { b with data := some (List.replicate (p.targetBytes requiredBytes) 0),
               capacityBytes := p.targetBytes requiredBytes })
  else none

/-- `remove_from_free_list`, for the buffer `bufIdx` at position `freeIdx`. -/
def removeFromFreeList (freeIdx bufIdx : Nat) : StagingPool :=
  let b := p.buf bufIdx
  { p.setBuf bufIdx { b with refCount := 1, seq := b.seq + 1 } with
    freeList := p.freeList.eraseIdx freeIdx }

/-- The auto-grow step: append an uncommitted slot and put it on the free list. -/
def appendSlot : StagingPool :=
  { p with
    size := p.size + 1
    buf := Function.update p.buf p.size .empty
    freeList := p.freeList ++ [p.size]
    growWarned := p.growWarned || decide (p.bufferCount < p.size + 1) }

/-- What one run of the loop body of `acquire` can do: hand out a buffer, propagate the
exception of a failed allocation, or go to waiting. -/
inductive Acquired
  | got (bufIdx : Nat)
  | threw
  | blocked
  deriving DecidableEq, Repr

/-- The success path of `acquire`: commit the storage of the selected buffer, then take it off
the free list. -/
def commitAt (freeIdx requiredBytes : Nat) (alloc : Bool) : Acquired × StagingPool :=
  let bufIdx := p.freeList.getD freeIdx 0
  match p.ensureStorage bufIdx requiredBytes alloc with
  | some p' => (.got bufIdx, p'.removeFromFreeList freeIdx bufIdx)
  -- the exception leaves `acquire` with the buffer still on the free list
  | none => (.threw, p)

/-- The loop of `acquire` up to the wait, with the number of remaining iterations. -/
def acquireLoop (requiredBytes : Nat) (alloc : Bool) : Nat → StagingPool → Acquired × StagingPool
  | 0, p => (.blocked, p)
  | n + 1, p =>
    let idx := p.findBestFit requiredBytes
    -- `idx < free_list_.size()` is the success path
    if idx < p.freeList.length then p.commitAt idx requiredBytes alloc
    else if p.growMode = .grow ∧ p.size < p.maxBufferCount then
      acquireLoop requiredBytes alloc n p.appendSlot
    else (.blocked, p)

/-- `acquire` from entry or a wake-up until it returns, throws or waits. The iteration after an
append finds the appended slot, so two iterations are all there can be (`acquireOnce_cases`). -/
def acquireOnce (requiredBytes : Nat) (alloc : Bool) : Acquired × StagingPool :=
  acquireLoop requiredBytes alloc 2 p

/-- The final check of `acquire` after its wait timed out; `blocked` is the `nullptr` result. -/
def acquireFinal (requiredBytes : Nat) (alloc : Bool) : Acquired × StagingPool :=
  let idx := p.findBestFit requiredBytes
  if idx < p.freeList.length then p.commitAt idx requiredBytes alloc
  else (.blocked, p)

/-- The order of the free list. -/
def capLe (i j : Nat) : Prop := (p.buf i).capacityBytes ≤ (p.buf j).capacityBytes

instance : DecidableRel p.capLe := fun _ _ => inferInstanceAs (Decidable (_ ≤ _))

/-- `release`: drop one reference; the last one puts the buffer back in front of the first free
buffer that is not smaller (`std::lower_bound`). -/
def release (bufIdx : Nat) : StagingPool :=
  let b := p.buf bufIdx
  -- `fetch_sub` returned one: the buffer goes back with nothing in it
  if b.refCount - 1 = 0 then
    { p.setBuf bufIdx { b with refCount := 0, usedBytes := 0 } with
      freeList := p.freeList.orderedInsert p.capLe bufIdx }
  else p.setBuf bufIdx { b with refCount := b.refCount - 1 }

/-- `add_ref`. -/
def addRef (bufIdx : Nat) : StagingPool :=
  let b := p.buf bufIdx
  p.setBuf bufIdx { b with refCount := b.refCount + 1 }

/-- The number of buffers with an outstanding reference. -/
def heldCount : Nat :=
  ((List.range p.size).filter fun i => (p.buf i).refCount ≠ 0).length

/-- The payload of buffer `i`: `data[0..used_bytes)`. -/
def payload (i : Nat) : List UInt8 :=
  ((p.buf i).data.getD []).take (p.buf i).usedBytes

/-- A holder writes `bytes` to the front of buffer `i` and sets `used_bytes`: the snapshot copy
of the write path and the effect of a driver read. -/
def fill (i : Nat) (bytes : List UInt8) : StagingPool :=
  let b := p.buf i
  p.setBuf i { b with
    data := b.data.map fun d => bytes ++ d.drop bytes.length
    usedBytes := bytes.length }

end StagingPool

end Amio
