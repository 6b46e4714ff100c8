import Amio.Staging.PoolInvariant

/-!
# Which buffer `acquire` hands out

`find_best_fit` scans positions of the free list, `ensure_storage` commits or grows what was found,
and neither compares capacities with one another. That the buffer handed out is the smallest one
that fits, or the largest one when none does, is a fact about the order of the free list, so it is
proved from `StagingPool.WF`: the list is sorted by capacity after any history of growth and
release.

`AcquireRun` follows the calls of `acquire` one by one, where `PoolRun` only has their attempts. A
call looks at the free list on entry, at each wake-up and once more when its deadline has passed,
and other threads come in between.
-/

namespace Amio

namespace StagingPool

variable {p p' q : StagingPool} {r i idx : Nat} {alloc : Bool}

/-! ### Selection -/

/-- A free buffer that needs no allocation for `r` bytes. -/
structure Fits (p : StagingPool) (r i : Nat) : Prop where
  free : i ∈ p.freeList
  committed : (p.buf i).data.isSome
  enough : r ≤ (p.buf i).capacityBytes

/-- A free slot without storage. -/
structure Blank (p : StagingPool) (i : Nat) : Prop where
  free : i ∈ p.freeList
  uncommitted : (p.buf i).data = none

/-- What the three passes of `find_best_fit` select. -/
inductive Selected (p : StagingPool) (r i : Nat) : Prop
  | reuse (fits : p.Fits r i)
      (least : ∀ j, p.Fits r j → (p.buf i).capacityBytes ≤ (p.buf j).capacityBytes)
  | commit (none_fits : ∀ j, ¬ p.Fits r j) (blank : p.Blank i)
  | grow (none_fits : ∀ j, ¬ p.Fits r j) (none_blank : ∀ j, ¬ p.Blank j) (free : i ∈ p.freeList)
      (greatest : ∀ j ∈ p.freeList, (p.buf j).capacityBytes ≤ (p.buf i).capacityBytes)

/-- In a sorted list an earlier position holds a capacity that is not greater. -/
theorem WF.capacity_mono (hp : p.WF) {m n : Nat} (hmn : m ≤ n) (hm : m < p.freeList.length)
    (hn : n < p.freeList.length) :
    (p.buf p.freeList[m]).capacityBytes ≤ (p.buf p.freeList[n]).capacityBytes := by
  rcases hmn.lt_or_eq with hlt | rfl
  · exact List.pairwise_iff_getElem.mp hp.sorted m n hm hn hlt
  · exact le_rfl

/-- `List.findIdx?` stops at the first position that satisfies the test. -/
theorem findIdx?_eq_none {test : Nat → Bool} (h : p.freeList.findIdx? test = none) :
    ∀ j ∈ p.freeList, test j = false := by
  simpa using h

/-- **The three passes**: each scans positions, and the order of the free list makes of the first
position the least capacity and of the last one the greatest. -/
theorem WF.selected (hp : p.WF) (h : p.freeList[p.findBestFit r]? = some i) : p.Selected r i := by
  unfold findBestFit at h
  split at h
  -- the first committed buffer that is large enough
  · next idx hidx =>
    obtain ⟨hlt, htest, hbefore⟩ := List.findIdx?_eq_some_iff_getElem.mp hidx
    obtain rfl : p.freeList[idx] = i := by simpa [List.getElem?_eq_getElem hlt] using h
    simp only [Bool.and_eq_true, decide_eq_true_eq] at htest
    refine .reuse ⟨List.getElem_mem hlt, htest.1, htest.2⟩ fun j hj => ?_
    obtain ⟨m, hm, rfl⟩ := List.getElem_of_mem hj.free
    -- a buffer that fits is not in front of the first one that does
    have hle : idx ≤ m := by
      by_contra hlt'
      exact hbefore m (Nat.lt_of_not_le hlt') (by simp [hj.committed, hj.enough])
    exact hp.capacity_mono hle hlt hm
  · next hnone =>
    have hfits : ∀ j, ¬ p.Fits r j := fun j hj => by
      simpa [hj.committed, hj.enough] using findIdx?_eq_none hnone j hj.free
    split at h
    -- the first slot without storage
    · next idx hidx =>
      obtain ⟨hlt, htest, -⟩ := List.findIdx?_eq_some_iff_getElem.mp hidx
      obtain rfl : p.freeList[idx] = i := by simpa [List.getElem?_eq_getElem hlt] using h
      exact .commit hfits ⟨List.getElem_mem hlt, by simpa using htest⟩
    -- everything that is free is committed and too small: the last of the list
    · next hnone' =>
      have hblank : ∀ j, ¬ p.Blank j := fun j hj => by
        simpa [hj.uncommitted] using findIdx?_eq_none hnone' j hj.free
      split at h
      · next hnil => simp [hnil] at h
      · next hne =>
        have hlt : p.freeList.length - 1 < p.freeList.length := by
          have := List.length_pos_iff.mpr hne
          omega
        obtain rfl : p.freeList[p.freeList.length - 1] = i := by
          simpa [List.getElem?_eq_getElem hlt] using h
        refine .grow hfits hblank (List.getElem_mem hlt) fun j hj => ?_
        obtain ⟨m, hm, rfl⟩ := List.getElem_of_mem hj
        exact hp.capacity_mono (by omega) hm hlt

/-! ### Storage -/

/-- The storage that is asked for. -/
theorem targetBytes_eq_max (p : StagingPool) (r : Nat) :
    p.targetBytes r = max r p.bufferCapacity := by
  unfold targetBytes
  split <;> omega

/-- The buffer `i` has gone from `p` to `p'` with the storage that it had. -/
def KeepsStorage (p p' : StagingPool) (i : Nat) : Prop :=
  (p'.buf i).data = (p.buf i).data ∧ (p'.buf i).capacityBytes = (p.buf i).capacityBytes

/-- The buffer `i` has been given a block of the size that `ensure_storage` commits. -/
def Allocated (p p' : StagingPool) (r i : Nat) : Prop :=
  (p'.buf i).data = some (List.replicate (max r p.bufferCapacity) 0) ∧
    (p'.buf i).capacityBytes = max r p.bufferCapacity

/-- What the success path of `acquire` does with the buffer at position `idx`. -/
structure Hands (p : StagingPool) (idx r i : Nat) (p' : StagingPool) : Prop where
  position : p.freeList[idx]? = some i
  size : p'.size = p.size
  others : ∀ j, j ≠ i → p'.buf j = p.buf j
  kept : (p.buf i).data.isSome → max r p.bufferCapacity ≤ (p.buf i).capacityBytes →
    KeepsStorage p p' i
  allocated : ¬ ((p.buf i).data.isSome ∧ max r p.bufferCapacity ≤ (p.buf i).capacityBytes) →
    Allocated p p' r i

/-- A slot of the free list is handed out. -/
theorem commitAt_got (hlt : idx < p.freeList.length)
    (h : p.commitAt idx r alloc = (.got i, p')) : p.Hands idx r i p' := by
  unfold commitAt at h
  simp only [List.getD_eq_getElem _ _ hlt] at h
  split at h
  · next p₁ hens =>
    simp only [Prod.mk.injEq, Acquired.got.injEq] at h
    obtain ⟨rfl, rfl⟩ := h
    have hpos := List.getElem?_eq_getElem hlt
    unfold ensureStorage at hens
    simp only [targetBytes_eq_max] at hens
    split at hens
    -- large enough: no storage is touched
    · next hc =>
      obtain rfl := Option.some.inj hens
      refine ⟨hpos, rfl, fun j hj => ?_, fun _ _ => ?_, fun hn => absurd hc hn⟩
      · simp [removeFromFreeList, setBuf, hj]
      · simp [KeepsStorage, removeFromFreeList, setBuf]
    -- the block is replaced, before the slot leaves the list
    · next hc =>
      simp only [Option.ite_none_right_eq_some, Option.some.injEq] at hens
      obtain ⟨-, rfl⟩ := hens
      refine ⟨hpos, rfl, fun j hj => ?_, fun hd hle => absurd ⟨hd, hle⟩ hc, fun _ => ?_⟩
      · simp [removeFromFreeList, setBuf, hj]
      · simp [Allocated, removeFromFreeList, setBuf]
  · cases h

/-! ### What `acquire` hands out -/

/-- The buffer `i` that `acquire` hands out for `r` bytes, against the pool `p` at the moment of
selection; `p'` is the pool afterwards. -/
structure BestFit (p : StagingPool) (r i : Nat) (p' : StagingPool) : Prop where
  reuse : (∃ j, p.Fits r j) → p.Fits r i ∧
    (∀ j, p.Fits r j → (p.buf i).capacityBytes ≤ (p.buf j).capacityBytes) ∧
    KeepsStorage p p' i ∧ p'.size = p.size
  commit : (∀ j, ¬ p.Fits r j) → (∃ j, p.Blank j) → p.Blank i ∧ Allocated p p' r i
  grow : (∀ j, ¬ p.Fits r j) → (∀ j, ¬ p.Blank j) → p.freeList ≠ [] → i ∈ p.freeList ∧
    (∀ j ∈ p.freeList, (p.buf j).capacityBytes ≤ (p.buf i).capacityBytes) ∧ Allocated p p' r i
  fresh : p.freeList = [] → p.growMode = .grow ∧ p.size < p.maxBufferCount ∧ i = p.size ∧
    p'.size = p.size + 1 ∧ Allocated p p' r i
  enough : r ≤ (p'.buf i).capacityBytes
  others : ∀ j, j ≠ i → (p'.buf j).capacityBytes = (p.buf j).capacityBytes

/-- The storage is large enough. -/
theorem Allocated.enough (h : Allocated p p' r i) : r ≤ (p'.buf i).capacityBytes := by
  rw [h.2]
  exact le_max_left _ _

/-- **A free list that is not empty**: the three passes and the storage together. -/
theorem Hands.bestFit (hp : p.WF) (hne : p.freeList ≠ [])
    (h : p.Hands (p.findBestFit r) r i p') : p.BestFit r i p' := by
  have hothers : ∀ j, j ≠ i → (p'.buf j).capacityBytes = (p.buf j).capacityBytes :=
    fun j hj => by rw [h.others j hj]
  cases hp.selected h.position with
  | reuse fits least =>
    -- a committed buffer has the nominal capacity, so one that is large enough needs no block
    have hnominal := hp.committed i (hp.lt_size i fits.free) fits.committed
    have hkept := h.kept fits.committed (max_le fits.enough hnominal)
    refine ⟨fun _ => ⟨fits, least, hkept, h.size⟩, fun hnone => absurd fits (hnone i),
      fun hnone => absurd fits (hnone i), fun hnil => absurd hnil hne, ?_, hothers⟩
    rw [hkept.2]
    exact fits.enough
  | commit none_fits blank =>
    have halloc := h.allocated fun hc => by simp [blank.uncommitted] at hc
    exact ⟨fun ⟨j, hj⟩ => absurd hj (none_fits j), fun _ _ => ⟨blank, halloc⟩,
      fun _ hnone => absurd blank (hnone i), fun hnil => absurd hnil hne, halloc.enough, hothers⟩
  | grow none_fits none_blank free greatest =>
    have halloc := h.allocated fun hc =>
      none_fits i ⟨free, hc.1, (le_max_left _ _).trans hc.2⟩
    exact ⟨fun ⟨j, hj⟩ => absurd hj (none_fits j), fun _ ⟨j, hj⟩ => absurd hj (none_blank j),
      fun _ _ _ => ⟨free, greatest, halloc⟩, fun hnil => absurd hnil hne, halloc.enough, hothers⟩

/-- **An empty free list**: the slot appended is the one handed out. -/
theorem Hands.fresh (hnil : p.freeList = []) (hgrow : p.growMode = .grow)
    (hlt : p.size < p.maxBufferCount)
    (h : p.appendSlot.Hands (p.appendSlot.findBestFit r) r i p') : p.BestFit r i p' := by
  have hsel : Selects p p.appendSlot := .inr ⟨hnil, hgrow, hlt, rfl⟩
  have hmem : i ∈ p.appendSlot.freeList := List.mem_of_getElem? h.position
  obtain rfl : i = p.size := by simpa [appendSlot, hnil] using hmem
  have hempty : ∀ j, ¬ j ∈ p.freeList := by simp [hnil]
  have halloc : Allocated p p' r p.size :=
    h.allocated fun hc => by simp [appendSlot, StagingBuffer.empty] at hc
  have hfits : ¬ ∃ j, p.Fits r j := by
    rintro ⟨j, hj⟩
    exact hempty j hj.free
  have hblank : ¬ ∃ j, p.Blank j := by
    rintro ⟨j, hj⟩
    exact hempty j hj.free
  refine ⟨fun hex => absurd hex hfits, fun _ hex => absurd hex hblank,
    fun _ _ hne => absurd hnil hne, fun _ => ⟨hgrow, hlt, rfl, h.size, halloc⟩, halloc.enough,
    fun j hj => ?_⟩
  rw [h.others j hj]
  simp [appendSlot, hj]

/-- The loop body of `acquire`. -/
theorem acquireOnce_bestFit (hp : p.WF) (h : p.acquireOnce r alloc = (.got i, p')) :
    p.BestFit r i p' := by
  unfold acquireOnce acquireLoop at h
  simp only [findBestFit_lt_iff] at h
  split at h
  · next hne => exact (commitAt_got (findBestFit_lt_iff.mpr hne) h).bestFit hp hne
  · next hne =>
    have hnil : p.freeList = [] := not_not.mp hne
    split at h
    · next hg =>
      -- the second iteration finds the appended slot
      have hlt : p.appendSlot.findBestFit r < p.appendSlot.freeList.length :=
        findBestFit_lt_iff.mpr (by simp [appendSlot])
      unfold acquireLoop at h
      rw [if_pos hlt] at h
      exact (commitAt_got hlt h).fresh hnil hg.1 hg.2
    · cases h

/-- The last look of an `acquire` whose wait has timed out. -/
theorem acquireFinal_bestFit (hp : p.WF) (h : p.acquireFinal r alloc = (.got i, p')) :
    p.BestFit r i p' := by
  unfold acquireFinal at h
  simp only [findBestFit_lt_iff] at h
  split at h
  · next hne => exact (commitAt_got (findBestFit_lt_iff.mpr hne) h).bestFit hp hne
  · cases h

/-- The pool makes no further slot. -/
def AtCeiling (p : StagingPool) : Prop := p.growMode = .bounded ∨ p.size = p.maxBufferCount

/-- An `acquire` that looks at `p` has to wait: nothing is free and the pool cannot grow. -/
def Exhausted (p : StagingPool) : Prop := p.freeList = [] ∧ p.AtCeiling

/-- `acquire` waits only for an exhausted pool. -/
theorem exhausted_of_blocked (hp : p.WF) (h : p.acquireOnce r alloc = (.blocked, p')) :
    p.Exhausted := by
  rcases acquireOnce_cases hp h with ⟨q, -, ⟨i, hi, -⟩ | ⟨hthrew, -⟩⟩ | ⟨-, -, hnil, hfull⟩
  · cases hi
  · cases hthrew
  · refine ⟨hnil, ?_⟩
    cases hmode : p.growMode with
    | bounded => exact .inl hmode
    | grow =>
      have hle := hp.size_le
      have hlt : ¬ p.size < p.maxBufferCount := fun hlt => hfull ⟨hmode, hlt⟩
      exact .inr (by omega)

/-- The last attempt fails only if no buffer is free. -/
theorem nil_of_final_blocked (h : p.acquireFinal r alloc = (.blocked, p')) : p.freeList = [] := by
  unfold acquireFinal at h
  simp only [findBestFit_lt_iff] at h
  split at h
  -- with a free buffer the last look returns it, or throws
  · unfold commitAt at h
    simp only at h
    split at h <;> cases h
  · next hne => exact not_not.mp hne

end StagingPool

/-! ### The ceiling -/

theorem PoolRun.size_le_of_outcome {s : PoolRun} {res : StagingPool.Acquired} {p' : StagingPool}
    {r : Nat}
    (h : (∃ q, s.pool.Selects q ∧
        ((∃ i, res = .got i ∧ q.Takes r i p') ∨ (res = .threw ∧ p' = q))) ∨
      (res = .blocked ∧ p' = s.pool)) : s.pool.size ≤ (s.outcome (res, p')).pool.size := by
  have hselects : ∀ {q : StagingPool}, s.pool.Selects q → s.pool.size ≤ q.size := by
    rintro q (⟨-, rfl⟩ | ⟨-, -, -, rfl⟩)
    · exact le_rfl
    · exact Nat.le_succ _
  rcases h with ⟨q, hsel, ⟨i, rfl, -, d, c, -, rfl⟩ | ⟨rfl, rfl⟩⟩ | ⟨rfl, rfl⟩
  · exact hselects (q := q) hsel
  · exact hselects hsel
  · exact le_rfl

/-- No slot is ever taken away. -/
theorem PoolRun.step_size_le {a : PoolArgs} {s s' : PoolRun} {op : PoolOp} (hs : PoolRun.Inv a s)
    (h : s.step op = some s') : s.pool.size ≤ s'.pool.size := by
  cases op with
  | acquire r alloc =>
    obtain rfl := Option.some.inj h
    refine PoolRun.size_le_of_outcome (r := r) ?_
    exact (StagingPool.acquireOnce_cases hs.wf rfl).imp id fun hb => ⟨hb.1, hb.2.1⟩
  | timeout r alloc =>
    obtain rfl := Option.some.inj h
    exact PoolRun.size_le_of_outcome (r := r) (StagingPool.acquireFinal_cases hs.wf rfl)
  | release ref =>
    simp only [PoolRun.step, Option.ite_none_right_eq_some, Option.some.injEq] at h
    obtain ⟨-, rfl⟩ := h
    exact (StagingPool.release_size _ _).ge
  | addRef ref =>
    simp only [PoolRun.step, Option.ite_none_right_eq_some, Option.some.injEq] at h
    obtain ⟨-, rfl⟩ := h
    exact le_rfl

/-- A pool that makes no further slot never will. -/
theorem PoolRun.step_atCeiling {a : PoolArgs} {s s' : PoolRun} {op : PoolOp}
    (hs : PoolRun.Inv a s) (h : s.step op = some s') (hfull : s.pool.AtCeiling) :
    s'.pool.AtCeiling := by
  have hs' := hs.step h
  obtain ⟨-, hmax, -, hmode⟩ := hs.config
  obtain ⟨-, hmax', -, hmode'⟩ := hs'.config
  rcases hfull with hbounded | heq
  · exact .inl (hmode'.trans (hmode.symm.trans hbounded))
  · have hle := PoolRun.step_size_le hs h
    have hle' := hs'.wf.size_le
    exact .inr (by omega)

/-! ### Calls of `acquire` -/

/-- Where a call of `acquire` is: about to look at the free list for the first time, waiting on
`cv_`, or gone. -/
inductive AcquirePc
  | entering
  | waiting
  | returned (out : Option Nat)
  | threw
  deriving DecidableEq

/-- One call, with the pool at each of its looks at the free list, the last one first. -/
structure AcquireCall where
  bytes : Nat
  pc : AcquirePc
  looks : List StagingPool

structure AcquireRun where
  run : PoolRun
  ncalls : Nat
  calls : Nat → AcquireCall

/-- `look` is the loop body on entry or after a wake-up, `expire` the check made when the wait has
timed out. -/
inductive AcquireOp
  | begin (bytes : Nat)
  | look (c : Nat) (alloc : Bool)
  | expire (c : Nat) (alloc : Bool)
  | release (ref : Ref)
  | addRef (ref : Ref)

/-- Where a call goes from a look at the free list. -/
def AcquirePc.after (onBlocked : AcquirePc) : StagingPool.Acquired → AcquirePc
  | .got i => .returned (some i)
  | .threw => .threw
  | .blocked => onBlocked

namespace AcquireRun

variable (s : AcquireRun)

/-- Call `c` has looked at the free list, with the result `res`. -/
def looked (c : Nat) (onBlocked : AcquirePc) (res : StagingPool.Acquired × StagingPool) :
    AcquireRun :=
  { s with
    run := s.run.outcome res
    calls := Function.update s.calls c
      { s.calls c with
        pc := onBlocked.after res.1
        looks := s.run.pool :: (s.calls c).looks } }

def step : AcquireOp → Option AcquireRun
  | .begin bytes =>
    some { s with
      ncalls := s.ncalls + 1
      calls := Function.update s.calls s.ncalls ⟨bytes, .entering, []⟩ }
  -- the first look, or the one after a wake-up
  | .look c alloc =>
    match (s.calls c).pc with
    | .entering | .waiting =>
      some (s.looked c .waiting (s.run.pool.acquireOnce (s.calls c).bytes alloc))
    | _ => none
  -- the last look, after the timeout
  | .expire c alloc =>
    match (s.calls c).pc with
    | .waiting =>
      some (s.looked c (.returned none) (s.run.pool.acquireFinal (s.calls c).bytes alloc))
    | _ => none
  | .release ref => (s.run.step (.release ref)).map fun r => { s with run := r }
  | .addRef ref => (s.run.step (.addRef ref)).map fun r => { s with run := r }

def start (a : PoolArgs) : AcquireRun := ⟨.start a, 0, fun _ => ⟨0, .threw, []⟩⟩

/-- The pool constructed with the arguments `a`, used by any number of threads. -/
def system (a : PoolArgs) : Lts.System AcquireRun AcquireOp where
  init s := s = start a
  step := step

variable {s} {s' : AcquireRun} {a : PoolArgs} {op : AcquireOp} {c : Nat}

/-! ### The pool under the calls -/

/-- Every step is a step of the pool, or touches it not at all. -/
theorem run_of_step (h : s.step op = some s') :
    s'.run = s.run ∨ ∃ pop, s.run.step pop = some s'.run := by
  cases op with
  | begin bytes =>
    obtain rfl := Option.some.inj h
    exact .inl rfl
  -- both looks are attempts to acquire
  | look c alloc =>
    simp only [step] at h
    split at h
    · obtain rfl := Option.some.inj h
      exact .inr ⟨.acquire (s.calls c).bytes alloc, rfl⟩
    · obtain rfl := Option.some.inj h
      exact .inr ⟨.acquire (s.calls c).bytes alloc, rfl⟩
    · cases h
  | expire c alloc =>
    simp only [step] at h
    split at h
    · obtain rfl := Option.some.inj h
      exact .inr ⟨.timeout (s.calls c).bytes alloc, rfl⟩
    · cases h
  | release ref =>
    obtain ⟨r, hr, rfl⟩ := Option.map_eq_some_iff.mp h
    exact .inr ⟨_, hr⟩
  | addRef ref =>
    obtain ⟨r, hr, rfl⟩ := Option.map_eq_some_iff.mp h
    exact .inr ⟨_, hr⟩

/-- The calls are those that were there, except for the one that the step is about. -/
inductive Steps (s : AcquireRun) : AcquireOp → AcquireRun → Prop
  | begin (bytes : Nat) {s' : AcquireRun} (run : s'.run = s.run)
      (calls : s'.calls = Function.update s.calls s.ncalls ⟨bytes, .entering, []⟩) :
      Steps s (.begin bytes) s'
  | look (c : Nat) (alloc : Bool)
      (before : (s.calls c).pc = .entering ∨ (s.calls c).pc = .waiting) :
      Steps s (.look c alloc)
        (s.looked c .waiting (s.run.pool.acquireOnce (s.calls c).bytes alloc))
  | expire (c : Nat) (alloc : Bool) (before : (s.calls c).pc = .waiting) :
      Steps s (.expire c alloc)
        (s.looked c (.returned none) (s.run.pool.acquireFinal (s.calls c).bytes alloc))
  | other {op : AcquireOp} {s' : AcquireRun} (calls : s'.calls = s.calls) : Steps s op s'

/-- The steps of the pool. -/
theorem step_cases (h : s.step op = some s') : Steps s op s' := by
  cases op with
  | begin bytes =>
    obtain rfl := Option.some.inj h
    exact .begin bytes rfl rfl
  -- a call looks when it enters, and after every wake-up
  | look c alloc =>
    simp only [step] at h
    split at h
    · next hpc =>
      obtain rfl := Option.some.inj h
      exact .look c alloc (.inl hpc)
    · next hpc =>
      obtain rfl := Option.some.inj h
      exact .look c alloc (.inr hpc)
    · cases h
  | expire c alloc =>
    simp only [step] at h
    split at h
    · next hpc =>
      obtain rfl := Option.some.inj h
      exact .expire c alloc hpc
    · cases h
  | release ref | addRef ref =>
    obtain ⟨r, -, rfl⟩ := Option.map_eq_some_iff.mp h
    exact .other rfl

/-! ### The invariant -/

/-- The looks of a call that waits, or has waited in vain, found nothing and no room. -/
structure CallInv (ceiling : Prop) (x : AcquireCall) : Prop where
  first : x.pc = .entering → x.looks = []
  waited : x.pc = .waiting → ceiling ∧ x.looks ≠ [] ∧ ∀ p ∈ x.looks, p.Exhausted
  -- the look on entry and the one after the deadline
  denied : x.pc = .returned none → 2 ≤ x.looks.length ∧ ∀ p ∈ x.looks, p.Exhausted

structure Inv (a : PoolArgs) (s : AcquireRun) : Prop where
  pool : PoolRun.Inv a s.run
  calls : ∀ c, CallInv s.run.pool.AtCeiling (s.calls c)

theorem Inv.start (a : PoolArgs) : Inv a (start a) where
  pool := PoolRun.Inv.start a
  calls _ :=
    { first := fun _ => rfl
      waited := fun h => by cases h
      denied := fun h => by cases h }

/-- What is known of a call does not depend on why the pool may not grow. -/
theorem CallInv.mono {ceiling ceiling' : Prop} {x : AcquireCall} (h : CallInv ceiling x)
    (himp : ceiling → ceiling') : CallInv ceiling' x where
  first := h.first
  waited hpc := (h.waited hpc).imp_left himp
  denied := h.denied

/-- A look on entry or after a wake-up. -/
theorem Inv.look (hs : Inv a s) {alloc : Bool} {ceiling : Prop}
    (hceiling : s.run.pool.AtCeiling → ceiling)
    (before : (s.calls c).pc = .entering ∨ (s.calls c).pc = .waiting) :
    CallInv ceiling ((s.looked c .waiting
      (s.run.pool.acquireOnce (s.calls c).bytes alloc)).calls c) := by
  have hlooks : ∀ p ∈ (s.calls c).looks, p.Exhausted := by
    rcases before with hpc | hpc
    · simp [(hs.calls c).first hpc]
    · exact ((hs.calls c).waited hpc).2.2
  rcases hres : s.run.pool.acquireOnce (s.calls c).bytes alloc with ⟨res, p'⟩
  simp only [looked, Function.update_self]
  cases res with
  | got i => exact ⟨fun h => (by cases h), fun h => (by cases h), fun h => (by cases h)⟩
  | threw => exact ⟨fun h => (by cases h), fun h => (by cases h), fun h => (by cases h)⟩
  -- the one way to waiting
  | blocked =>
    have hexhausted := StagingPool.exhausted_of_blocked hs.pool.wf hres
    have hall := List.forall_mem_cons.mpr ⟨hexhausted, hlooks⟩
    exact ⟨fun h => (by cases h), fun _ => ⟨hceiling hexhausted.2, by simp, hall⟩,
      fun h => (by cases h)⟩

/-- The look after the deadline: the ceiling was reached when the call began to wait. -/
theorem Inv.expire (hs : Inv a s) {alloc : Bool} (before : (s.calls c).pc = .waiting)
    (ceiling : Prop) :
    CallInv ceiling ((s.looked c (.returned none)
      (s.run.pool.acquireFinal (s.calls c).bytes alloc)).calls c) := by
  obtain ⟨hfull, hne, hlooks⟩ := (hs.calls c).waited before
  rcases hres : s.run.pool.acquireFinal (s.calls c).bytes alloc with ⟨res, p'⟩
  simp only [looked, Function.update_self]
  cases res with
  | got i => exact ⟨fun h => (by cases h), fun h => (by cases h), fun h => (by cases h)⟩
  | threw => exact ⟨fun h => (by cases h), fun h => (by cases h), fun h => (by cases h)⟩
  -- `return nullptr`
  | blocked =>
    have hnil := StagingPool.nil_of_final_blocked hres
    refine ⟨fun h => (by cases h), fun h => (by cases h), fun _ => ⟨?_, ?_⟩⟩
    · have := List.length_pos_iff.mpr hne
      simp only [List.length_cons]
      omega
    · exact List.forall_mem_cons.mpr ⟨⟨hnil, hfull⟩, hlooks⟩

/-- **Every step keeps the invariant.** -/
theorem Inv.step (hs : Inv a s) (h : s.step op = some s') : Inv a s' := by
  -- the pool keeps its own invariant, and stays at its ceiling
  have hpool : PoolRun.Inv a s'.run ∧ (s.run.pool.AtCeiling → s'.run.pool.AtCeiling) := by
    rcases run_of_step h with heq | ⟨pop, hpop⟩
    · rw [heq]
      exact ⟨hs.pool, id⟩
    · exact ⟨hs.pool.step hpop, PoolRun.step_atCeiling hs.pool hpop⟩
  -- the calls that do not move keep what is known of them
  have hother : ∀ d, CallInv s'.run.pool.AtCeiling (s.calls d) := fun d =>
    (hs.calls d).mono hpool.2
  refine ⟨hpool.1, ?_⟩
  cases step_cases h with
  | begin bytes run calls =>
    rw [calls]
    refine (Function.forall_update_iff s.calls fun _ => CallInv s'.run.pool.AtCeiling).mpr
      ⟨?_, fun d _ => hother d⟩
    exact ⟨fun _ => rfl, fun h => (by cases h), fun h => (by cases h)⟩
  | look c alloc before =>
    refine (Function.forall_update_iff s.calls fun _ => CallInv _).mpr ⟨?_, fun d _ => hother d⟩
    simpa [looked] using hs.look hpool.2 before
  | expire c alloc before =>
    refine (Function.forall_update_iff s.calls fun _ => CallInv _).mpr ⟨?_, fun d _ => hother d⟩
    simpa [looked] using hs.expire before _
  | other calls =>
    rw [calls]
    exact hother

theorem Inv.of_reachable (h : (system a).Reachable s) : Inv a s :=
  h.invariant (fun _ hi => hi ▸ Inv.start a) fun _ _ _ hI _ hstep => hI.step hstep

/-! ### Results -/

/-- A call that returns a buffer was given it. -/
theorem after_eq_got {onBlocked : AcquirePc} {res : StagingPool.Acquired} {i : Nat}
    (hne : onBlocked ≠ .returned (some i)) (h : onBlocked.after res = .returned (some i)) :
    res = .got i := by
  cases res with
  | got j =>
    simp only [AcquirePc.after, AcquirePc.returned.injEq, Option.some.injEq] at h
    rw [h]
  | threw => cases h
  | blocked => exact absurd h hne

@[simp] theorem looked_pc (c : Nat) (onBlocked : AcquirePc)
    (res : StagingPool.Acquired × StagingPool) :
    ((s.looked c onBlocked res).calls c).pc = onBlocked.after res.1 := by
  simp [looked]

theorem looked_calls_of_ne {d : Nat} (hdc : d ≠ c) (onBlocked : AcquirePc)
    (res : StagingPool.Acquired × StagingPool) :
    (s.looked c onBlocked res).calls d = s.calls d :=
  Function.update_of_ne hdc _ _

/-- The pool after a look. -/
theorem looked_pool {onBlocked : AcquirePc} (res : StagingPool.Acquired × StagingPool) :
    (s.looked c onBlocked res).run.pool = res.2 := by
  rcases res with ⟨_ | _ | _, p'⟩ <;> rfl

/-- A step that makes a call return a buffer is a look of that call. -/
theorem Inv.returned (hs : Inv a s) (h : s.step op = some s') {i : Nat}
    (hpc : (s.calls c).pc ≠ .returned (some i)) (hpc' : (s'.calls c).pc = .returned (some i)) :
    s.run.pool.BestFit (s.calls c).bytes i s'.run.pool := by
  cases step_cases h with
  | begin bytes run calls =>
    rw [calls] at hpc'
    by_cases hc : c = s.ncalls
    · subst hc
      simp at hpc'
    · rw [Function.update_of_ne hc] at hpc'
      exact absurd hpc' hpc
  | look d alloc before =>
    by_cases hcd : c = d
    · subst hcd
      rw [looked_pc] at hpc'
      rw [looked_pool]
      -- the buffer comes from the loop body
      have hres : s.run.pool.acquireOnce (s.calls c).bytes alloc = (.got i, _) :=
        Prod.ext (after_eq_got (by simp) hpc') rfl
      exact StagingPool.acquireOnce_bestFit hs.pool.wf hres
    · rw [looked_calls_of_ne hcd] at hpc'
      exact absurd hpc' hpc
  | expire d alloc before =>
    by_cases hcd : c = d
    · subst hcd
      rw [looked_pc] at hpc'
      rw [looked_pool]
      -- the buffer comes from the check after the deadline
      have hres : s.run.pool.acquireFinal (s.calls c).bytes alloc = (.got i, _) :=
        Prod.ext (after_eq_got (by simp) hpc') rfl
      exact StagingPool.acquireFinal_bestFit hs.pool.wf hres
    · rw [looked_calls_of_ne hcd] at hpc'
      exact absurd hpc' hpc
  | other calls =>
    rw [calls] at hpc'
    exact absurd hpc' hpc

/-- A call that looks and goes to waiting has found nothing and no room to grow. -/
theorem Inv.exhausted_of_waits (hs : Inv a s) {alloc : Bool} (h : s.step (.look c alloc) = some s')
    (hpc' : (s'.calls c).pc = .waiting) : s.run.pool.Exhausted := by
  have hs' := (hs.step h).calls c
  obtain ⟨-, -, hlooks⟩ := hs'.waited hpc'
  -- the look just made is the last one recorded
  have hmem : s.run.pool ∈ (s'.calls c).looks := by
    simp only [AcquireRun.step] at h
    split at h
    · obtain rfl := Option.some.inj h
      simp [looked]
    · obtain rfl := Option.some.inj h
      simp [looked]
    · cases h
  exact hlooks _ hmem

/-- **Best-fit selection**, for every construction of the pool and any calls of `acquire`,
`release` and `add_ref` by any number of threads. A buffer that a call returns is the best fit of
the free list as it was selected from. A look that finds something free, or room to grow, does not
wait; and a call that returns null has looked at least twice, on entry and after its deadline, and
found nothing free at the ceiling each time. -/
theorem acquire_best_fit (a : PoolArgs) (s : AcquireRun) (h : (system a).Reachable s) :
    (∀ op s' c i, s.step op = some s' → (s.calls c).pc ≠ .returned (some i) →
      (s'.calls c).pc = .returned (some i) →
        s.run.pool.BestFit (s.calls c).bytes i s'.run.pool) ∧
    (∀ c alloc s', s.step (.look c alloc) = some s' → ¬ s.run.pool.Exhausted →
      (s'.calls c).pc ≠ .waiting) ∧
    ∀ c, (s.calls c).pc = .returned none →
      2 ≤ (s.calls c).looks.length ∧ ∀ p ∈ (s.calls c).looks, p.Exhausted := by
  have hs := Inv.of_reachable h
  exact ⟨fun _ _ _ _ hstep hpc hpc' => hs.returned hstep hpc hpc',
    fun _ _ _ hstep hne hpc' => hne (hs.exhausted_of_waits hstep hpc'),
    fun c hpc => (hs.calls c).denied hpc⟩

/-- Two calls take the two buffers, a third one waits, and one buffer comes back. -/
def crowdedOps : List AcquireOp :=
  [.begin 8, .look 0 true, .begin 8, .look 1 true, .begin 8, .look 2 true, .release ⟨0, 0⟩]

/-- A fourth call takes it before the third one wakes up. -/
def overtakeOps : List AcquireOp := [.begin 8, .look 3 true, .expire 2 true]

theorem acquire_best_fit_crowded :
    ∃ s, (system PoolRun.pairArgs).replay (fun _ _ => True) (start PoolRun.pairArgs)
        (crowdedOps ++ overtakeOps) = some s ∧
      2 ≤ (s.calls 2).looks.length ∧ ∀ p ∈ (s.calls 2).looks, p.Exhausted :=
  ⟨_, rfl, (acquire_best_fit PoolRun.pairArgs _
    (Lts.System.Reachable.of_replay (crowdedOps ++ overtakeOps) rfl rfl)).2.2 2 rfl⟩

/-- **The free list need not stay empty**: a waiting call returns null although a buffer was free
while it waited. -/
theorem null_after_free :
    ¬ ∀ (a : PoolArgs) (s s' : AcquireRun) (c : Nat), (system a).Reachable s →
      (system a).After s s' → (s.calls c).pc = .waiting → (s'.calls c).pc = .returned none →
      s.run.pool.freeList = [] := by
  intro h
  -- the state between the release and the fourth call
  let sys := system PoolRun.pairArgs
  obtain ⟨s, hs, hwait, hfree, s₁, s₂, s₃, h₁, h₂, h₃, hnull⟩ :
      ∃ s, sys.replay (fun _ _ => True) (start PoolRun.pairArgs) crowdedOps = some s ∧
        (s.calls 2).pc = .waiting ∧ s.run.pool.freeList = [0] ∧
        ∃ s₁ s₂ s₃, sys.step s (.begin 8) = some s₁ ∧ sys.step s₁ (.look 3 true) = some s₂ ∧
          sys.step s₂ (.expire 2 true) = some s₃ ∧ (s₃.calls 2).pc = .returned none :=
    ⟨_, rfl, rfl, rfl, _, _, _, rfl, rfl, rfl, rfl⟩
  have hafter : sys.After s s₃ := ((Relation.ReflTransGen.single ⟨_, h₁⟩).tail ⟨_, h₂⟩).tail ⟨_, h₃⟩
  have hnil := h _ s s₃ 2 (Lts.System.Reachable.of_replay crowdedOps rfl hs) hafter hwait hnull
  rw [hfree] at hnil
  cases hnil

end AcquireRun

end Amio
