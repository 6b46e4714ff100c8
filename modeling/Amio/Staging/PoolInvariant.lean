import Amio.Staging.Pool
import Mathlib.Data.List.GetD
import Mathlib.Data.List.Perm.Lattice
import Mathlib.Data.List.Nodup

/-!
# The representation invariant of the staging pool

`StagingPool.WF` is the invariant of one pool state: the free list has no duplicates, is sorted by
capacity and holds exactly the slots without a reference, the slot count respects the ceiling, and
a committed buffer is at least as large as the nominal capacity. Each operation keeps it
(`WF.create`, `Selects.wf`, `WF.takes`, `WF.release`, `WF.addRef`, `WF.fill`).

All the ways `acquire` can hand out a buffer go through one relation, `Takes q r i p'`: the pool
`p'` is `q` with slot `i` committed for `r` bytes, referenced once and off the free list. Here `q`
is the pool itself or, when its free list is empty, the pool with one slot appended
(`acquireOnce_cases`). The allocation exception leaves `q`, in which the appended slot stays on
the free list.

On top of it `PoolRun` keeps the references that are outstanding: each `acquire` that returned a
buffer starts one, `add_ref` copies one, `release` ends one. `PoolRun.Inv` links them to the
reference counts, and the results about whole runs are read off it.
-/

namespace Amio

namespace StagingPool

/-- **The representation invariant.** -/
structure WF (p : StagingPool) : Prop where
  nodup : p.freeList.Nodup
  lt_size : ∀ i ∈ p.freeList, i < p.size
  mem_iff : ∀ i, i < p.size → (i ∈ p.freeList ↔ (p.buf i).refCount = 0)
  sorted : p.freeList.Pairwise p.capLe
  count_le : p.bufferCount ≤ p.size
  size_le : p.size ≤ p.maxBufferCount
  max_le : p.maxBufferCount ≤ kMaxBufferCount
  bounded : p.growMode = .bounded → p.size = p.bufferCount
  committed : ∀ i, i < p.size → (p.buf i).data.isSome →
    p.bufferCapacity ≤ (p.buf i).capacityBytes
  uncommitted : ∀ i, i < p.size → (p.buf i).data = none → (p.buf i).capacityBytes = 0

variable {p q p' : StagingPool} {i j r : Nat}

/-- A new pool is well formed. -/
theorem WF.create (a : PoolArgs) : (create a).WF where
  nodup := List.nodup_range
  lt_size := fun _ h => List.mem_range.mp h
  mem_iff := fun _ h => ⟨fun _ => rfl, fun _ => List.mem_range.mpr h⟩
  sorted := List.pairwise_iff_forall_sublist.mpr fun _ => Nat.le_refl _
  count_le := Nat.le_refl _
  -- in bounded mode the ceiling is the buffer count, whatever `max_buffer_count` says
  size_le := by
    unfold StagingPool.create
    split
    · exact Nat.le_refl _
    · exact a.max_ge
  max_le := by
    unfold StagingPool.create
    split
    · exact a.count_range.2
    · exact a.max_le
  bounded := fun _ => rfl
  committed := fun _ _ h => absurd h (by simp [StagingPool.create, StagingBuffer.empty])
  uncommitted := fun _ _ _ => rfl

/-! ### Selection and storage -/

/-- `find_best_fit` finds a position exactly when the free list is not empty. -/
theorem findBestFit_lt_iff : p.findBestFit r < p.freeList.length ↔ p.freeList ≠ [] := by
  unfold findBestFit
  split
  -- a committed slot that is large enough
  · next idx h =>
    have hlt := (List.findIdx?_eq_some_iff_getElem.mp h).1
    exact ⟨fun _ hnil => by rw [hnil] at hlt; exact absurd hlt (by simp), fun _ => hlt⟩
  -- no committed slot fits: an uncommitted one, or else the last of the list
  · split
    · next idx h =>
      have hlt := (List.findIdx?_eq_some_iff_getElem.mp h).1
      exact ⟨fun _ hnil => by rw [hnil] at hlt; exact absurd hlt (by simp), fun _ => hlt⟩
    · split
      · next hnil => simp [hnil]
      · next hne =>
        have hpos := List.length_pos_iff.mpr hne
        exact ⟨fun _ => hne, fun _ => by omega⟩

/-- The storage that is asked for is large enough. -/
theorem le_targetBytes (p : StagingPool) (r : Nat) : r ≤ p.targetBytes r := by
  unfold targetBytes; split <;> omega

/-- It is never below the configured capacity. -/
theorem capacity_le_targetBytes (p : StagingPool) (r : Nat) :
    p.bufferCapacity ≤ p.targetBytes r := by
  unfold targetBytes; split <;> omega

/-- `ensure_storage` only touches the storage of its own slot, and leaves it committed at the
target size or more. -/
theorem ensureStorage_some {alloc : Bool} (h : p.ensureStorage i r alloc = some p') :
    ∃ d c, p.targetBytes r ≤ c ∧
      p' = p.setBuf i { p.buf i with data := some d, capacityBytes := c } := by
  unfold ensureStorage at h
  simp only at h
  split at h
  · next hc =>
    -- already large enough: the buffer is overwritten by itself
    obtain ⟨d, hd⟩ := Option.isSome_iff_exists.mp hc.1
    refine ⟨d, (p.buf i).capacityBytes, hc.2, ?_⟩
    obtain rfl := Option.some.inj h
    simp [setBuf, ← hd]
  · split at h
    · exact ⟨_, _, Nat.le_refl _, (Option.some.inj h).symm⟩
    · exact absurd h (by simp)

/-- `p'` is `q` with slot `i` committed for `r` bytes, referenced once and off the free list. -/
def Takes (q : StagingPool) (r i : Nat) (p' : StagingPool) : Prop :=
  i ∈ q.freeList ∧ ∃ d c, q.targetBytes r ≤ c ∧
    p' = { q with
      buf := Function.update q.buf i
        { q.buf i with data := some d, capacityBytes := c, refCount := 1, seq := (q.buf i).seq + 1 }
      freeList := q.freeList.erase i }

/-- A buffer is handed out, or its allocation throws and nothing happens. -/
theorem commitAt_cases {alloc : Bool} {res : Acquired} (hq : q.WF) (hne : q.freeList ≠ [])
    (h : q.commitAt (q.findBestFit r) r alloc = (res, p')) :
    (∃ i, res = .got i ∧ Takes q r i p') ∨ (res = .threw ∧ p' = q) := by
  have hlt : q.findBestFit r < q.freeList.length := findBestFit_lt_iff.mpr hne
  unfold commitAt at h
  simp only [List.getD_eq_getElem _ _ hlt] at h
  split at h
  -- storage is there: the slot leaves the list with one reference
  · next p₁ hens =>
    simp only [Prod.mk.injEq] at h
    obtain ⟨hres, hp'⟩ := h
    obtain ⟨d, c, hc, hp₁⟩ := ensureStorage_some hens
    refine .inl ⟨_, hres.symm, List.getElem_mem hlt, d, c, hc, ?_⟩
    rw [← hp', hp₁, hq.nodup.erase_getElem]
    simp [removeFromFreeList, setBuf]
  -- `std::bad_alloc` passes through before the slot is touched
  · simp only [Prod.mk.injEq] at h
    exact .inr ⟨h.1.symm, h.2.symm⟩

/-! ### The loop body of `acquire` -/

/-- A pool that may grow does so. -/
theorem WF.appendSlot (hp : p.WF) (hnil : p.freeList = []) (hgrow : p.growMode = .grow)
    (hlt : p.size < p.maxBufferCount) : p.appendSlot.WF where
  nodup := by simp [StagingPool.appendSlot, hnil]
  lt_size := by simp [StagingPool.appendSlot, hnil]
  -- the new slot is the whole free list, and all others are held
  mem_iff := by
    intro i hi
    simp only [StagingPool.appendSlot, hnil, List.nil_append, List.mem_singleton] at hi ⊢
    by_cases h : i = p.size
    · subst h; simp [StagingBuffer.empty]
    · rw [Function.update_of_ne h, ← hp.mem_iff i (by omega), hnil]
      simp [h]
  sorted := by simp [StagingPool.appendSlot, hnil]
  count_le := Nat.le_succ_of_le hp.count_le
  size_le := hlt
  max_le := hp.max_le
  bounded := fun h => absurd (hgrow.symm.trans h) (by simp)
  committed := by
    intro i hi
    simp only [StagingPool.appendSlot] at hi ⊢
    by_cases h : i = p.size
    · subst h; simp [StagingBuffer.empty]
    · rw [Function.update_of_ne h]; exact hp.committed i (by omega)
  uncommitted := by
    intro i hi
    simp only [StagingPool.appendSlot] at hi ⊢
    by_cases h : i = p.size
    · subst h; simp [StagingBuffer.empty]
    · rw [Function.update_of_ne h]; exact hp.uncommitted i (by omega)

/-- A buffer that is taken leaves the pool well formed. -/
theorem WF.takes (hq : q.WF) (h : Takes q r i p') : p'.WF := by
  obtain ⟨hi, d, c, hc, rfl⟩ := h
  have hmem : ∀ j, j ∈ q.freeList.erase i ↔ j ≠ i ∧ j ∈ q.freeList :=
    fun j => hq.nodup.mem_erase_iff
  refine
    { nodup := hq.nodup.erase i
      lt_size := fun j hj => hq.lt_size j ((hmem j).mp hj).2
      mem_iff := ?_
      sorted := ?_
      count_le := hq.count_le
      size_le := hq.size_le
      max_le := hq.max_le
      bounded := hq.bounded
      committed := ?_
      uncommitted := ?_ }
  -- the slot taken has a reference now; the others are as before
  · intro j hj
    by_cases hji : j = i
    · subst hji; simp [hmem]
    · simp only [hmem, Function.update_of_ne hji]
      exact ⟨fun h => (hq.mem_iff j hj).mp h.2, fun h => ⟨hji, (hq.mem_iff j hj).mpr h⟩⟩
  · -- the changed capacity is that of the erased element, so the rest is compared as before
    refine (hq.sorted.sublist List.erase_sublist).imp_of_mem ?_
    intro a b ha hb hab
    simpa only [capLe, Function.update_of_ne ((hmem a).mp ha).1,
      Function.update_of_ne ((hmem b).mp hb).1] using hab
  · intro j hj
    by_cases hji : j = i
    · subst hji
      simpa using (capacity_le_targetBytes q r).trans hc
    · simpa only [Function.update_of_ne hji] using hq.committed j hj
  · intro j hj
    by_cases hji : j = i
    · subst hji; simp
    · simpa only [Function.update_of_ne hji] using hq.uncommitted j hj

/-- The pool whose free list an `acquire` selects from: the pool itself, or the pool with one slot
appended when its free list is empty and the ceiling is not reached. -/
def Selects (p q : StagingPool) : Prop :=
  (p.freeList ≠ [] ∧ q = p) ∨
    (p.freeList = [] ∧ p.growMode = .grow ∧ p.size < p.maxBufferCount ∧ q = p.appendSlot)

theorem Selects.wf (hp : p.WF) (h : Selects p q) : q.WF := by
  rcases h with ⟨-, rfl⟩ | ⟨hnil, hgrow, hlt, rfl⟩
  · exact hp
  · exact hp.appendSlot hnil hgrow hlt

/-- The selection finds a free buffer. -/
theorem Selects.ne_nil (h : Selects p q) : q.freeList ≠ [] := by
  rcases h with ⟨hne, rfl⟩ | ⟨hnil, -, -, rfl⟩
  · exact hne
  · simp [StagingPool.appendSlot]

/-- **What the loop body of `acquire` can do**: select from `q` and take a buffer, select from `q`
and throw, or wait without a change because the free list is empty and the pool cannot grow. -/
theorem acquireOnce_cases {alloc : Bool} {res : Acquired} (hp : p.WF)
    (h : p.acquireOnce r alloc = (res, p')) :
    (∃ q, Selects p q ∧ ((∃ i, res = .got i ∧ Takes q r i p') ∨ (res = .threw ∧ p' = q))) ∨
      (res = .blocked ∧ p' = p ∧ p.freeList = [] ∧
        ¬ (p.growMode = .grow ∧ p.size < p.maxBufferCount)) := by
  unfold acquireOnce acquireLoop at h
  simp only [findBestFit_lt_iff] at h
  split at h
  · next hne => exact .inl ⟨p, .inl ⟨hne, rfl⟩, commitAt_cases hp hne h⟩
  · next hne =>
    have hnil : p.freeList = [] := not_not.mp hne
    split at h
    · next hg =>
      -- the second iteration finds the appended slot
      have hsel : Selects p p.appendSlot := .inr ⟨hnil, hg.1, hg.2, rfl⟩
      unfold acquireLoop at h
      rw [if_pos (findBestFit_lt_iff.mpr hsel.ne_nil)] at h
      exact .inl ⟨_, hsel, commitAt_cases (hsel.wf hp) hsel.ne_nil h⟩
    · next hg =>
      simp only [Prod.mk.injEq] at h
      exact .inr ⟨h.1.symm, h.2.symm, hnil, hg⟩

/-- What the last attempt can do. -/
theorem acquireFinal_cases {alloc : Bool} {res : Acquired} (hp : p.WF)
    (h : p.acquireFinal r alloc = (res, p')) :
    (∃ q, Selects p q ∧ ((∃ i, res = .got i ∧ Takes q r i p') ∨ (res = .threw ∧ p' = q))) ∨
      (res = .blocked ∧ p' = p) := by
  unfold acquireFinal at h
  simp only [findBestFit_lt_iff] at h
  split at h
  · next hne => exact .inl ⟨p, .inl ⟨hne, rfl⟩, commitAt_cases hp hne h⟩
  · simp only [Prod.mk.injEq] at h
    exact .inr ⟨h.1.symm, h.2.symm⟩

/-! ### Release, sharing and filling -/

/-- Overwriting a held slot keeps the invariant as long as it stays held and keeps its storage
size. -/
theorem WF.setBuf_of_held {b : StagingBuffer} (hp : p.WF) (hi : i < p.size)
    (href : (p.buf i).refCount ≠ 0) (hb : b.refCount ≠ 0)
    (hdata : b.data.isSome = (p.buf i).data.isSome)
    (hcap : b.capacityBytes = (p.buf i).capacityBytes) : (p.setBuf i b).WF := by
  -- a held slot is not on the free list, so neither membership nor order can change
  have hni : i ∉ p.freeList := fun h => href ((hp.mem_iff i hi).mp h)
  refine
    { nodup := hp.nodup, lt_size := hp.lt_size, mem_iff := ?_, sorted := ?_,
      count_le := hp.count_le, size_le := hp.size_le, max_le := hp.max_le, bounded := hp.bounded,
      committed := ?_, uncommitted := ?_ }
  · intro j hj
    by_cases hji : j = i
    · subst hji; simp [setBuf, hni, hb]
    · simpa [setBuf, Function.update_of_ne hji] using hp.mem_iff j hj
  · refine hp.sorted.imp_of_mem ?_
    intro a b' ha hb' hab
    have hai : a ≠ i := fun h => hni (h ▸ ha)
    have hbi : b' ≠ i := fun h => hni (h ▸ hb')
    simpa only [capLe, setBuf, Function.update_of_ne hai, Function.update_of_ne hbi] using hab
  · intro j hj
    by_cases hji : j = i
    · subst hji; simpa [setBuf, hdata, hcap] using hp.committed j hj
    · simpa [setBuf, Function.update_of_ne hji] using hp.committed j hj
  · intro j hj
    by_cases hji : j = i
    · subst hji
      have hnone : b.data = none → (p.buf j).data = none := by
        intro h; simpa [h] using hdata
      simpa [setBuf, hcap] using fun h => hp.uncommitted j hj (hnone h)
    · simpa [setBuf, Function.update_of_ne hji] using hp.uncommitted j hj

/-- Dropping the last reference. -/
theorem release_last (h : (p.buf i).refCount - 1 = 0) :
    p.release i = { p.setBuf i { p.buf i with refCount := 0, usedBytes := 0 } with
      freeList := p.freeList.orderedInsert p.capLe i } :=
  if_pos h

/-- Dropping one of several references. -/
theorem release_shared (h : ¬ (p.buf i).refCount - 1 = 0) :
    p.release i = p.setBuf i { p.buf i with refCount := (p.buf i).refCount - 1 } :=
  if_neg h

/-- A release leaves the pool well formed. -/
theorem WF.release (hp : p.WF) (hi : i < p.size) (href : (p.buf i).refCount ≠ 0) :
    (p.release i).WF := by
  have hni : i ∉ p.freeList := fun h => href ((hp.mem_iff i hi).mp h)
  -- only the last reference brings the slot back, to its place by capacity
  by_cases hlast : (p.buf i).refCount - 1 = 0
  · rw [release_last hlast]
    -- `capLe` reads the same capacities before and after
    have hcap : ∀ a b, (p.setBuf i { p.buf i with refCount := 0, usedBytes := 0 }).capLe a b ↔
        p.capLe a b := by
      intro a b
      have hc : ∀ k, (Function.update p.buf i
          { p.buf i with refCount := 0, usedBytes := 0 } k).capacityBytes =
            (p.buf k).capacityBytes := by
        intro k
        by_cases hk : k = i
        · subst hk; simp
        · rw [Function.update_of_ne hk]
      simp only [capLe, setBuf, hc]
    have : Std.Total p.capLe := ⟨fun a b => Nat.le_total _ _⟩
    have : IsTrans Nat p.capLe := ⟨fun a b c => Nat.le_trans⟩
    refine
      { nodup := ?_, lt_size := ?_, mem_iff := ?_, sorted := ?_, count_le := hp.count_le,
        size_le := hp.size_le, max_le := hp.max_le, bounded := hp.bounded,
        committed := ?_, uncommitted := ?_ }
    · exact ((p.freeList.perm_orderedInsert p.capLe i).nodup_iff).mpr
        (List.nodup_cons.mpr ⟨hni, hp.nodup⟩)
    · intro j hj
      rcases (List.mem_orderedInsert p.capLe).mp hj with rfl | hj
      · exact hi
      · exact hp.lt_size j hj
    · intro j hj
      change j ∈ p.freeList.orderedInsert p.capLe i ↔ (Function.update p.buf i _ j).refCount = 0
      rw [List.mem_orderedInsert]
      by_cases hji : j = i
      · subst hji; simp
      · rw [Function.update_of_ne hji, ← hp.mem_iff j hj]
        simp [hji]
    · exact (hp.sorted.orderedInsert i _).imp fun {a b} h => (hcap a b).mpr h
    · intro j hj
      by_cases hji : j = i
      · subst hji; simpa [setBuf] using hp.committed j hj
      · simpa [setBuf, Function.update_of_ne hji] using hp.committed j hj
    · intro j hj
      by_cases hji : j = i
      · subst hji; simpa [setBuf] using hp.uncommitted j hj
      · simpa [setBuf, Function.update_of_ne hji] using hp.uncommitted j hj
  · rw [release_shared hlast]
    exact hp.setBuf_of_held hi href hlast rfl rfl

theorem WF.addRef (hp : p.WF) (hi : i < p.size) (href : (p.buf i).refCount ≠ 0) :
    (p.addRef i).WF :=
  hp.setBuf_of_held hi href (Nat.succ_ne_zero _) rfl rfl

theorem WF.fill (hp : p.WF) (hi : i < p.size) (href : (p.buf i).refCount ≠ 0)
    (bytes : List UInt8) : (p.fill i bytes).WF :=
  hp.setBuf_of_held hi href href (Option.isSome_map ..) rfl

/-- The configuration the constructor fixed. -/
def SameConfig (p q : StagingPool) : Prop :=
  p.bufferCount = q.bufferCount ∧ p.maxBufferCount = q.maxBufferCount ∧
    p.bufferCapacity = q.bufferCapacity ∧ p.growMode = q.growMode

theorem Selects.sameConfig (hsel : Selects p q) : q.SameConfig p := by
  rcases hsel with ⟨-, rfl⟩ | ⟨-, -, -, rfl⟩ <;> exact ⟨rfl, rfl, rfl, rfl⟩

theorem Takes.sameConfig (h : Takes q r i p') : p'.SameConfig q := by
  obtain ⟨-, d, c, -, rfl⟩ := h
  exact ⟨rfl, rfl, rfl, rfl⟩

theorem release_sameConfig (p : StagingPool) (i : Nat) : (p.release i).SameConfig p := by
  by_cases hlast : (p.buf i).refCount - 1 = 0
  · rw [release_last hlast]; exact ⟨rfl, rfl, rfl, rfl⟩
  · rw [release_shared hlast]; exact ⟨rfl, rfl, rfl, rfl⟩

theorem SameConfig.trans {p₁ p₂ p₃ : StagingPool} (h : p₁.SameConfig p₂) (h' : p₂.SameConfig p₃) :
    p₁.SameConfig p₃ :=
  ⟨h.1.trans h'.1, h.2.1.trans h'.2.1, h.2.2.1.trans h'.2.2.1, h.2.2.2.trans h'.2.2.2⟩

@[simp] theorem release_size (p : StagingPool) (i : Nat) : (p.release i).size = p.size := by
  by_cases hlast : (p.buf i).refCount - 1 = 0
  · rw [release_last hlast]; rfl
  · rw [release_shared hlast]; rfl

theorem release_buf_of_ne (p : StagingPool) {i j : Nat} (h : j ≠ i) :
    (p.release i).buf j = p.buf j := by
  by_cases hlast : (p.buf i).refCount - 1 = 0
  · rw [release_last hlast]; exact Function.update_of_ne h _ _
  · rw [release_shared hlast]; exact Function.update_of_ne h _ _

@[simp] theorem release_refCount_self (p : StagingPool) (i : Nat) :
    ((p.release i).buf i).refCount = (p.buf i).refCount - 1 := by
  by_cases hlast : (p.buf i).refCount - 1 = 0
  · rw [release_last hlast]; simp [setBuf, hlast]
  · rw [release_shared hlast]; simp [setBuf]

end StagingPool

/-! ### Runs of the pool -/

/-- A reference to a buffer, with the number of the `acquire` it descends from. -/
structure Ref where
  acq : Nat
  buf : Nat
  deriving DecidableEq, Repr

/-- A pool together with the outstanding references and the number of successful acquires. -/
structure PoolRun where
  pool : StagingPool
  refs : List Ref
  acquires : Nat

/-- The calls: `acquire` as run on entry or after a wake-up, the last check of an `acquire` whose
wait timed out, and `release` and `add_ref` by the holder of a reference. -/
inductive PoolOp
  | acquire (requiredBytes : Nat) (alloc : Bool)
  | timeout (requiredBytes : Nat) (alloc : Bool)
  | release (ref : Ref)
  | addRef (ref : Ref)
  deriving DecidableEq, Repr

namespace PoolRun

/-- Record the outcome of an `acquire`: a returned buffer is a new reference. -/
def outcome (s : PoolRun) : StagingPool.Acquired × StagingPool → PoolRun
  | (.got i, p) => ⟨p, ⟨s.acquires, i⟩ :: s.refs, s.acquires + 1⟩
  | (.threw, p) => { s with pool := p }
  | (.blocked, p) => { s with pool := p }

def step (s : PoolRun) : PoolOp → Option PoolRun
  | .acquire r alloc => some (s.outcome (s.pool.acquireOnce r alloc))
  | .timeout r alloc => some (s.outcome (s.pool.acquireFinal r alloc))
  | .release ref =>
    if ref ∈ s.refs then
      some { s with pool := s.pool.release ref.buf, refs := s.refs.erase ref }
    else none
  | .addRef ref =>
    if ref ∈ s.refs then some { s with pool := s.pool.addRef ref.buf, refs := ref :: s.refs }
    else none

/-- The pool constructed with the arguments `a` and no reference. -/
def start (a : PoolArgs) : PoolRun := ⟨.create a, [], 0⟩

def system (a : PoolArgs) : Lts.System PoolRun PoolOp where
  init s := s = start a
  step := step

/-- The invariant of the runs: the pool is well formed, the reference counts are the numbers of
outstanding references, and two references to one buffer descend from one `acquire`. -/
structure Inv (a : PoolArgs) (s : PoolRun) : Prop where
  wf : s.pool.WF
  config : s.pool.SameConfig (.create a)
  buf_lt : ∀ ref ∈ s.refs, ref.buf < s.pool.size
  count : ∀ i, i < s.pool.size → (s.pool.buf i).refCount = s.refs.countP (·.buf = i)
  acq_lt : ∀ ref ∈ s.refs, ref.acq < s.acquires
  acq_eq : ∀ r₁ ∈ s.refs, ∀ r₂ ∈ s.refs, r₁.buf = r₂.buf → r₁.acq = r₂.acq

variable {a : PoolArgs} {s s' : PoolRun}

theorem Inv.start (a : PoolArgs) : Inv a (start a) where
  wf := .create a
  config := ⟨rfl, rfl, rfl, rfl⟩
  buf_lt := fun _ h => absurd h List.not_mem_nil
  count := fun _ _ => rfl
  acq_lt := fun _ h => absurd h List.not_mem_nil
  acq_eq := fun _ h => absurd h List.not_mem_nil

/-- A held slot is one some reference points to. -/
theorem Inv.held_of_ref (hs : Inv a s) {ref : Ref} (h : ref ∈ s.refs) :
    (s.pool.buf ref.buf).refCount ≠ 0 := by
  rw [hs.count _ (hs.buf_lt ref h)]
  exact Nat.pos_iff_ne_zero.mp (List.countP_pos_iff.mpr ⟨ref, h, by simp⟩)

/-- Appending the slot an `acquire` is about to select keeps the invariant. -/
theorem Inv.selects {q : StagingPool} (hs : Inv a s) (hsel : s.pool.Selects q) :
    Inv a { s with pool := q } := by
  have hwf := hsel.wf hs.wf
  have hconf := hsel.sameConfig.trans hs.config
  -- a free slot was found, or a new one appended
  rcases hsel with ⟨-, rfl⟩ | ⟨hnil, -, -, rfl⟩
  · exact hs
  · refine ⟨hwf, hconf, fun ref h => Nat.lt_succ_of_lt (hs.buf_lt ref h), ?_, hs.acq_lt, hs.acq_eq⟩
    intro i hi
    simp only [StagingPool.appendSlot] at hi ⊢
    by_cases h : i = s.pool.size
    · -- no reference points to the new slot
      subst h
      rw [Function.update_self, eq_comm]
      refine List.countP_eq_zero.mpr fun ref href => ?_
      simpa using (hs.buf_lt ref href).ne
    · rw [Function.update_of_ne h]
      exact hs.count i (by omega)

/-- Handing out a free buffer keeps the invariant and starts a reference. -/
theorem Inv.takes {p' : StagingPool} {r i : Nat} (hs : Inv a s) (h : s.pool.Takes r i p') :
    Inv a ⟨p', ⟨s.acquires, i⟩ :: s.refs, s.acquires + 1⟩ := by
  have hwf := hs.wf.takes h
  have hconf := h.sameConfig.trans hs.config
  obtain ⟨hi, d, c, -, rfl⟩ := h
  have hilt := hs.wf.lt_size i hi
  -- the buffer was on the free list, so no reference points to it
  have hzero : s.refs.countP (·.buf = i) = 0 :=
    (hs.count i hilt).symm.trans ((hs.wf.mem_iff i hilt).mp hi)
  have hfresh : ∀ ref ∈ s.refs, ref.buf ≠ i := by
    intro ref href
    simpa using List.countP_eq_zero.mp hzero ref href
  refine ⟨hwf, hconf, ?_, ?_, ?_, ?_⟩
  · intro ref href
    rcases List.mem_cons.mp href with rfl | href
    · exact hilt
    · exact hs.buf_lt ref href
  · intro j hj
    by_cases hji : j = i
    · subst hji; simp [hzero]
    · simpa [Function.update_of_ne hji, Ne.symm hji] using hs.count j hj
  · intro ref href
    rcases List.mem_cons.mp href with rfl | href
    · exact Nat.lt_succ_self _
    · exact Nat.lt_succ_of_lt (hs.acq_lt ref href)
  · intro r₁ h₁ r₂ h₂ heq
    rcases List.mem_cons.mp h₁ with rfl | h₁ <;> rcases List.mem_cons.mp h₂ with rfl | h₂
    · rfl
    · exact absurd heq.symm (hfresh r₂ h₂)
    · exact absurd heq (hfresh r₁ h₁)
    · exact hs.acq_eq r₁ h₁ r₂ h₂ heq

/-- Whatever an `acquire` does, the invariant is kept. -/
theorem Inv.outcome {res : StagingPool.Acquired} {p' : StagingPool} {r : Nat} (hs : Inv a s)
    (h : (∃ q, s.pool.Selects q ∧
        ((∃ i, res = .got i ∧ q.Takes r i p') ∨ (res = .threw ∧ p' = q))) ∨
      (res = .blocked ∧ p' = s.pool)) : Inv a (s.outcome (res, p')) := by
  rcases h with ⟨q, hsel, ⟨i, rfl, ht⟩ | ⟨rfl, rfl⟩⟩ | ⟨rfl, rfl⟩
  · exact (hs.selects hsel).takes ht
  · exact hs.selects hsel
  · exact hs

theorem Inv.release {ref : Ref} (hs : Inv a s) (h : ref ∈ s.refs) :
    Inv a { s with pool := s.pool.release ref.buf, refs := s.refs.erase ref } where
  wf := hs.wf.release (hs.buf_lt ref h) (hs.held_of_ref h)
  config := (StagingPool.release_sameConfig _ _).trans hs.config
  buf_lt := fun r hr => by simpa using hs.buf_lt r (List.mem_of_mem_erase hr)
  count := by
    intro i hi
    -- one reference less in the list, and one less in the count of its buffer
    have hsplit := (List.perm_cons_erase h).countP_eq (·.buf = i)
    rw [StagingPool.release_size] at hi
    by_cases hib : i = ref.buf
    · subst hib
      rw [StagingPool.release_refCount_self, hs.count _ hi, hsplit]
      simp
    · rw [StagingPool.release_buf_of_ne _ hib, hs.count i hi, hsplit]
      simp [Ne.symm hib]
  acq_lt := fun r hr => hs.acq_lt r (List.mem_of_mem_erase hr)
  acq_eq := fun r₁ h₁ r₂ h₂ =>
    hs.acq_eq r₁ (List.mem_of_mem_erase h₁) r₂ (List.mem_of_mem_erase h₂)

theorem Inv.addRef {ref : Ref} (hs : Inv a s) (h : ref ∈ s.refs) :
    Inv a { s with pool := s.pool.addRef ref.buf, refs := ref :: s.refs } := by
  -- the copy has the buffer and the `acquire` of the reference it is copied from
  have hmem : ∀ r ∈ ref :: s.refs, r ∈ s.refs := by
    intro r hr
    rcases List.mem_cons.mp hr with rfl | hr
    · exact h
    · exact hr
  refine
    { wf := hs.wf.addRef (hs.buf_lt ref h) (hs.held_of_ref h)
      config := hs.config
      buf_lt := fun r hr => hs.buf_lt r (hmem r hr)
      count := ?_
      acq_lt := fun r hr => hs.acq_lt r (hmem r hr)
      acq_eq := fun r₁ h₁ r₂ h₂ => hs.acq_eq r₁ (hmem r₁ h₁) r₂ (hmem r₂ h₂) }
  intro i hi
  by_cases hib : i = ref.buf
  · subst hib
    simpa [StagingPool.addRef, StagingPool.setBuf] using hs.count _ hi
  · simpa [StagingPool.addRef, StagingPool.setBuf, Function.update_of_ne hib, Ne.symm hib]
      using hs.count i hi

/-- **Invariant preservation.** -/
theorem Inv.step {op : PoolOp} (hs : Inv a s) (h : s.step op = some s') : Inv a s' := by
  cases op with
  | acquire r alloc =>
    obtain rfl := Option.some.inj h
    -- blocked or not, the pool after the loop body is one of three
    refine hs.outcome (r := r) ?_
    exact (StagingPool.acquireOnce_cases hs.wf rfl).imp id fun hb => ⟨hb.1, hb.2.1⟩
  | timeout r alloc =>
    obtain rfl := Option.some.inj h
    exact hs.outcome (r := r) (StagingPool.acquireFinal_cases hs.wf rfl)
  | release ref =>
    simp only [PoolRun.step, Option.ite_none_right_eq_some, Option.some.injEq] at h
    obtain ⟨hmem, rfl⟩ := h
    exact hs.release hmem
  | addRef ref =>
    simp only [PoolRun.step, Option.ite_none_right_eq_some, Option.some.injEq] at h
    obtain ⟨hmem, rfl⟩ := h
    exact hs.addRef hmem

theorem inv_of_reachable (h : (system a).Reachable s) : Inv a s :=
  h.invariant (fun _ hi => hi ▸ Inv.start a) fun _ _ _ hI _ hstep => hI.step hstep

/-- What the pool guarantees in a state of a run. -/
structure Sound (a : PoolArgs) (s : PoolRun) : Prop where
  free_nodup : s.pool.freeList.Nodup
  free_lt : ∀ i ∈ s.pool.freeList, i < s.pool.size
  free_iff : ∀ i, i < s.pool.size → (i ∈ s.pool.freeList ↔ (s.pool.buf i).refCount = 0)
  conserved : s.pool.freeList.length + s.pool.heldCount = s.pool.size
  count_le : a.bufferCount ≤ s.pool.size
  size_le : s.pool.size ≤ s.pool.maxBufferCount
  ceiling : s.pool.maxBufferCount =
    if a.mode = .bounded then a.bufferCount else a.maxBufferCount
  bounded : a.mode = .bounded → s.pool.size = a.bufferCount
  sorted : s.pool.freeList.Pairwise fun i j =>
    (s.pool.buf i).capacityBytes ≤ (s.pool.buf j).capacityBytes
  committed : ∀ i, i < s.pool.size → (s.pool.buf i).data.isSome →
    a.bufferCapacity ≤ (s.pool.buf i).capacityBytes
  uncommitted : ∀ i, i < s.pool.size → (s.pool.buf i).data = none →
    (s.pool.buf i).capacityBytes = 0
  refCount_eq : ∀ i, i < s.pool.size → (s.pool.buf i).refCount = s.refs.countP (·.buf = i)
  exclusive : ∀ r₁ ∈ s.refs, ∀ r₂ ∈ s.refs, r₁.acq ≠ r₂.acq → r₁.buf ≠ r₂.buf
  all_free : s.refs = [] → ∀ i, i < s.pool.size → s.pool.freeList.count i = 1

/-- Two slots of eight bytes, and no more. -/
def pairArgs : PoolArgs where
  bufferCount := 2
  bufferCapacity := 8
  timeoutMs := 1000
  maxBufferCount := 2
  mode := .bounded
  count_range := by decide
  capacity_range := by decide
  timeout_range := by decide
  max_ge := by decide
  max_le := by decide

end PoolRun

end Amio
