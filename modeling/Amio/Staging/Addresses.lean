import Amio.Staging.Ownership

/-!
# Addresses of staging buffers

Callers hold raw pointers: `StagingBuffer *` into the vector `buffers_`, and through it the block
`storage_[i]`. The vector moves when it grows beyond its reservation, and a block is replaced when
`ensure_storage` allocates. `PoolMemory` counts both beside the pool, so that two pointers are equal
exactly when the counts are.

`act_frame` is the frame rule of the pool: no operation on other buffers moves a held buffer,
touches its block, its header or its bytes, or hands it out again.
-/

namespace Amio

open StagingPool (Acquired)

/-- A pool with the reservation of its vectors, the number of times `buffers_` has moved, and the
number of blocks each slot has had. -/
structure PoolMemory where
  pool : StagingPool
  reserved : Nat
  moved : Nat
  blocks : Nat → Nat

/-- What can be done with a pool. `final` is the last check of an `acquire` that has timed out. -/
inductive PoolAct
  | acquire (requiredBytes : Nat) (alloc final : Bool)
  | release (buf : Nat)
  | addRef (buf : Nat)
  | fill (buf : Nat) (bytes : List UInt8)
  deriving DecidableEq

/-- The buffer that a caller passes. -/
def PoolAct.subject : PoolAct → Option Nat
  | .acquire _ _ _ => none
  | .release buf => some buf
  | .addRef buf => some buf
  | .fill buf _ => some buf

namespace StagingPool

/-- The pool after an operation. -/
def act (p : StagingPool) : PoolAct → StagingPool
  | .acquire r alloc final =>
    if final then (p.acquireFinal r alloc).2 else (p.acquireOnce r alloc).2
  | .release buf => p.release buf
  | .addRef buf => p.addRef buf
  | .fill buf bytes => p.fill buf bytes

end StagingPool

namespace PoolMemory

/-- The constructor reserves the ceiling: "auto-grow `emplace_back()` NEVER reallocates". -/
def create (a : PoolArgs) : PoolMemory where
  pool := .create a
  reserved := (StagingPool.create a).maxBufferCount
  moved := 0
  blocks := fun _ => 0

variable (m : PoolMemory)

/-- The address of the header of slot `i`. -/
def header (i : Nat) : Nat × Nat := (m.moved, i)

/-- `buffers_[i].data`. -/
def data (i : Nat) : Nat × Nat := (i, m.blocks i)

def withPool (p : StagingPool) : PoolMemory := { m with pool := p }

/-- `emplace_back` moves a vector whose reservation is used up. -/
def appendSlot : PoolMemory :=
  if m.pool.size < m.reserved then m.withPool m.pool.appendSlot
  else { m.withPool m.pool.appendSlot with reserved := 2 * m.reserved + 1, moved := m.moved + 1 }

/-- `ensure_storage` replaces the block when it allocates. -/
def ensureStorage (bufIdx requiredBytes : Nat) (alloc : Bool) : Option PoolMemory :=
  let b := m.pool.buf bufIdx
  (m.pool.ensureStorage bufIdx requiredBytes alloc).map fun p =>
    if b.data.isSome ∧ m.pool.targetBytes requiredBytes ≤ b.capacityBytes then m.withPool p
    else { m.withPool p with blocks := Function.update m.blocks bufIdx (m.blocks bufIdx + 1) }

def commitAt (freeIdx requiredBytes : Nat) (alloc : Bool) : Acquired × PoolMemory :=
  let bufIdx := m.pool.freeList.getD freeIdx 0
  match m.ensureStorage bufIdx requiredBytes alloc with
  | some m' => (.got bufIdx, m'.withPool (m'.pool.removeFromFreeList freeIdx bufIdx))
  | none => (.threw, m)

def acquireLoop (requiredBytes : Nat) (alloc : Bool) : Nat → PoolMemory → Acquired × PoolMemory
  | 0, m => (.blocked, m)
  | n + 1, m =>
    let idx := m.pool.findBestFit requiredBytes
    -- the best fit, its storage grown if need be
    if idx < m.pool.freeList.length then m.commitAt idx requiredBytes alloc
    -- a new slot, and the loop looks again
    else if m.pool.growMode = .grow ∧ m.pool.size < m.pool.maxBufferCount then
      acquireLoop requiredBytes alloc n m.appendSlot
    else (.blocked, m)

def acquireOnce (requiredBytes : Nat) (alloc : Bool) : Acquired × PoolMemory :=
  acquireLoop requiredBytes alloc 2 m

def acquireFinal (requiredBytes : Nat) (alloc : Bool) : Acquired × PoolMemory :=
  let idx := m.pool.findBestFit requiredBytes
  if idx < m.pool.freeList.length then m.commitAt idx requiredBytes alloc else (.blocked, m)

/-- The memory after an operation, and what an `acquire` answers. -/
def act : PoolAct → Option Acquired × PoolMemory
  | .acquire r alloc final =>
    let res := if final then m.acquireFinal r alloc else m.acquireOnce r alloc
    (some res.1, res.2)
  | .release buf => (none, m.withPool (m.pool.release buf))
  | .addRef buf => (none, m.withPool (m.pool.addRef buf))
  | .fill buf bytes => (none, m.withPool (m.pool.fill buf bytes))

variable {m} {i b r n : Nat} {alloc : Bool}

/-! ### The pool of the memory -/

@[simp] theorem withPool_pool (p : StagingPool) : (m.withPool p).pool = p := rfl

@[simp] theorem appendSlot_pool : m.appendSlot.pool = m.pool.appendSlot := by
  unfold appendSlot
  split <;> rfl

/-- Addresses aside, it is the pool's operation. -/
theorem ensureStorage_pool :
    (m.ensureStorage i r alloc).map pool = m.pool.ensureStorage i r alloc := by
  unfold ensureStorage
  simp only [Option.map_map]
  cases m.pool.ensureStorage i r alloc with
  | none => rfl
  | some p =>
    simp only [Option.map_some, Function.comp_apply]
    split <;> rfl

theorem commitAt_pool : Prod.map id pool (m.commitAt i r alloc) = m.pool.commitAt i r alloc := by
  unfold commitAt StagingPool.commitAt
  simp only
  rw [← ensureStorage_pool]
  cases m.ensureStorage (m.pool.freeList.getD i 0) r alloc with
  | none => rfl
  | some m' => rfl

theorem acquireLoop_pool :
    Prod.map id pool (acquireLoop r alloc n m) = StagingPool.acquireLoop r alloc n m.pool := by
  induction n generalizing m with
  | zero => rfl
  | succ n ih =>
    unfold acquireLoop StagingPool.acquireLoop
    simp only
    split
    · exact commitAt_pool
    · split
      · rw [ih, appendSlot_pool]
      · rfl

theorem acquireFinal_pool :
    Prod.map id pool (m.acquireFinal r alloc) = m.pool.acquireFinal r alloc := by
  unfold acquireFinal StagingPool.acquireFinal
  simp only
  split
  · exact commitAt_pool
  · rfl

/-- **The addresses do not change what the pool does.** -/
theorem act_pool (op : PoolAct) : (m.act op).2.pool = m.pool.act op := by
  cases op with
  | acquire r alloc final =>
    simp only [act, StagingPool.act]
    cases final with
    | false => exact congrArg Prod.snd (acquireLoop_pool (m := m) (n := 2))
    | true => exact congrArg Prod.snd (acquireFinal_pool (m := m))
  | release | addRef | fill => rfl

/-! ### The frame rule -/

/-- The vectors have room for every slot the pool may ever have. -/
def Roomy (m : PoolMemory) : Prop := m.pool.maxBufferCount ≤ m.reserved

/-- The storage of a new pool. -/
theorem Roomy.create (a : PoolArgs) : (create a).Roomy := Nat.le_refl _

/-- A new slot has room for its buffer. -/
theorem Roomy.appendSlot (h : m.Roomy) : m.appendSlot.Roomy := by
  unfold PoolMemory.appendSlot
  split
  · exact h
  · have hle : m.pool.maxBufferCount ≤ 2 * m.reserved + 1 := Nat.le_trans h (by omega)
    exact hle

/-- A slot that is taken has. -/
theorem Roomy.commitAt (h : m.Roomy) : (m.commitAt i r alloc).2.Roomy := by
  unfold PoolMemory.commitAt
  simp only
  split
  · next m' hens =>
    have hroomy : m'.Roomy := by
      unfold PoolMemory.ensureStorage at hens
      simp only at hens
      obtain ⟨p, hp, rfl⟩ := Option.map_eq_some_iff.mp hens
      obtain ⟨d, c, -, rfl⟩ := StagingPool.ensureStorage_some hp
      split <;> exact h
    exact hroomy
  · exact h

theorem Roomy.acquireLoop (h : m.Roomy) : (acquireLoop r alloc n m).2.Roomy := by
  induction n generalizing m with
  | zero => exact h
  | succ n ih =>
    unfold PoolMemory.acquireLoop
    simp only
    split
    · exact h.commitAt
    · split
      · exact ih h.appendSlot
      · exact h

theorem Roomy.act (h : m.Roomy) (op : PoolAct) : (m.act op).2.Roomy := by
  cases op with
  | acquire r alloc final =>
    cases final with
    | false => exact h.acquireLoop
    | true =>
      show (m.acquireFinal r alloc).2.Roomy
      unfold PoolMemory.acquireFinal
      simp only
      split
      · exact h.commitAt
      · exact h
  | release buf =>
    show (m.pool.release buf).maxBufferCount ≤ m.reserved
    unfold StagingPool.release
    simp only
    split <;> exact h
  | addRef buf => exact h
  | fill buf bytes => exact h

/-- Buffer `b` is where it was, as it was. -/
structure Kept (m m' : PoolMemory) (b : Nat) : Prop where
  header : m'.header b = m.header b
  data : m'.data b = m.data b
  buf : m'.pool.buf b = m.pool.buf b

theorem Kept.refl (m : PoolMemory) (b : Nat) : Kept m m b := ⟨rfl, rfl, rfl⟩

theorem Kept.trans {m' m'' : PoolMemory} (h : Kept m m' b) (h' : Kept m' m'' b) : Kept m m'' b :=
  ⟨h'.header.trans h.header, h'.data.trans h.data, h'.buf.trans h.buf⟩

/-- Committing a free slot. -/
theorem commitAt_kept (hfree : ∀ i ∈ m.pool.freeList, i ≠ b) (hi : i < m.pool.freeList.length) :
    Kept m (m.commitAt i r alloc).2 b ∧ (m.commitAt i r alloc).1 ≠ .got b := by
  -- the buffer that is handed out comes from the free list
  have hne : m.pool.freeList.getD i 0 ≠ b := by
    rw [List.getD_eq_getElem _ _ hi]
    exact hfree _ (List.getElem_mem hi)
  unfold commitAt
  simp only
  split
  · next m' hens =>
    unfold ensureStorage at hens
    simp only at hens
    obtain ⟨p, hp, rfl⟩ := Option.map_eq_some_iff.mp hens
    obtain ⟨d, c, -, rfl⟩ := StagingPool.ensureStorage_some hp
    refine ⟨?_, fun hgot => hne (Acquired.got.inj hgot)⟩
    -- its storage may move, that of `b` does not
    have hbuf : ∀ q : StagingPool, (q.removeFromFreeList i (m.pool.freeList.getD i 0)).buf b =
        q.buf b := fun q => Function.update_of_ne (Ne.symm hne) _ _
    have hset : ∀ x, (m.pool.setBuf (m.pool.freeList.getD i 0) x).buf b = m.pool.buf b :=
      fun x => Function.update_of_ne (Ne.symm hne) _ _
    split
    · exact ⟨rfl, rfl, (hbuf _).trans (hset _)⟩
    · refine ⟨rfl, ?_, (hbuf _).trans (hset _)⟩
      exact congrArg (Prod.mk b) (Function.update_of_ne (Ne.symm hne) _ _)
  · exact ⟨.refl m b, nofun⟩

/-- An appended slot lies behind all others, and the vector has room for it. -/
theorem appendSlot_kept (hroomy : m.Roomy) (hlt : m.pool.size < m.pool.maxBufferCount)
    (hb : b < m.pool.size) : Kept m m.appendSlot b := by
  unfold appendSlot
  rw [if_pos (Nat.lt_of_lt_of_le hlt hroomy)]
  exact ⟨rfl, rfl, Function.update_of_ne (Nat.ne_of_lt hb) _ _⟩

/-- `acquire` does not touch a buffer that is out. -/
theorem acquireLoop_kept (hroomy : m.Roomy) (hb : b < m.pool.size)
    (hfree : ∀ i ∈ m.pool.freeList, i ≠ b) :
    Kept m (acquireLoop r alloc n m).2 b ∧ (acquireLoop r alloc n m).1 ≠ .got b := by
  induction n generalizing m with
  | zero => exact ⟨.refl m b, nofun⟩
  | succ n ih =>
    unfold acquireLoop
    simp only
    split
    -- a free slot that fits is taken; none of them is `b`
    · next hidx => exact commitAt_kept hfree hidx
    · split
      -- no slot fits and the pool may grow: the new slot has a new index
      · next hgrow =>
        have hkept := appendSlot_kept hroomy hgrow.2 hb
        have hfree' : ∀ i ∈ m.appendSlot.pool.freeList, i ≠ b := by
          intro i hi
          rw [appendSlot_pool] at hi
          rcases List.mem_append.mp hi with hi | hi
          · exact hfree i hi
          · rw [List.mem_singleton.mp hi]
            exact Nat.ne_of_gt hb
        have hb' : b < m.appendSlot.pool.size := by
          rw [appendSlot_pool]
          exact Nat.lt_succ_of_lt hb
        obtain ⟨hrest, hres⟩ := ih hroomy.appendSlot hb' hfree'
        exact ⟨hkept.trans hrest, hres⟩
      · exact ⟨.refl m b, nofun⟩

/-- **The frame rule of the pool.** An operation on other buffers leaves a held buffer where it is
and as it is, and does not hand it out again. -/
theorem act_frame (hwf : m.pool.WF) (hroomy : m.Roomy) (hb : b < m.pool.size)
    (hheld : (m.pool.buf b).refCount ≠ 0) {op : PoolAct} (hop : op.subject ≠ some b) :
    Kept m (m.act op).2 b ∧ (m.act op).1 ≠ some (.got b) := by
  -- a buffer that is out is not free
  have hfree : ∀ i ∈ m.pool.freeList, i ≠ b := by
    rintro i hi rfl
    exact hheld ((hwf.mem_iff i hb).mp hi)
  cases op with
  | acquire r alloc final =>
    cases final with
    | false =>
      obtain ⟨hkept, hres⟩ := acquireLoop_kept (r := r) (n := 2) hroomy hb hfree
      exact ⟨hkept, fun hgot => hres (Option.some.inj hgot)⟩
    | true =>
      have hfinal : Kept m (m.acquireFinal r alloc).2 b ∧ (m.acquireFinal r alloc).1 ≠ .got b := by
        unfold acquireFinal
        simp only
        split
        · next hidx => exact commitAt_kept hfree hidx
        · exact ⟨.refl m b, nofun⟩
      exact ⟨hfinal.1, fun hgot => hfinal.2 (Option.some.inj hgot)⟩
  -- the others name their buffer, which is another one
  | release buf =>
    have hne : b ≠ buf := fun h => hop (congrArg some h.symm)
    exact ⟨⟨rfl, rfl, StagingPool.release_buf_of_ne m.pool hne⟩, nofun⟩
  | addRef buf | fill buf bytes =>
    have hne : b ≠ buf := fun h => hop (congrArg some h.symm)
    exact ⟨⟨rfl, rfl, Function.update_of_ne hne _ _⟩, nofun⟩

end PoolMemory

end Amio
