import Amio.Prefetch.Stage

/-!
# Reads without workers

A `PrefetchQueue` whose `workers_` is null fetches on the calling thread, so one call runs to its
end before the next begins, and the queue should be transparent: `get_buffer` should answer what one
direct read by the driver answers. The driver is a fixed function of the timestep and the selection
it is given.

The queue stages failures under their timestep alone. A look-ahead fetch that failed under one
selection is therefore reported for whatever selection is asked for next, and that is the only way
in which the queue shows (`transparent_iff`).
-/

namespace Amio

/-- A queue without workers: the arguments of the queue and of the staging pool, and what the driver
reads. A driver never writes past the buffer it is given; one that does not look at the buffer has
to stay within the size that was asked for. -/
structure SyncConfig where
  depth : Nat
  datasetId : UInt64
  varName : List UInt8
  info : VariableInfo
  pool : PoolArgs
  read : Int → Option Bbox → Option (List UInt8)
  fits : ∀ t bbox payload, read t (bbox.map Bbox.toDriver) = some payload →
    payload.length ≤ info.acquireBytes pool.bufferCapacity bbox

/-- One direct read of timestep `t` with selection `bbox`. -/
def SyncConfig.directRead (cfg : SyncConfig) (t : Int) (bbox : Option Bbox) : Option (List UInt8) :=
  cfg.read t (bbox.map Bbox.toDriver)

/-- The state between two calls. `exhausted` records that some `acquire` found no buffer, `reads`
for which timesteps the driver was called. -/
structure SyncQueue where
  stage : Stage
  ncalls : Nat
  exhausted : Bool
  reads : List Int

namespace SyncQueue

variable (cfg : SyncConfig)

def withStage (s : SyncQueue) (stage : Stage) : SyncQueue := { s with stage := stage }

/-- `sync_fetch` from the acquired buffer on. -/
def readInto (st : Stage) (t : Int) (sel : Option Bbox) (buf : Nat) : Stage :=
  match cfg.read t (sel.map Bbox.toDriver) with
  | some payload =>
    let filled := st.deliver buf (st.queue.driverRead t sel payload)
    if filled.overCapacity buf then (filled.release buf).fail t .backendFailure
    else filled.complete t buf sel
  | none => (st.release buf).fail t .backendFailure

/-- `sync_fetch`. Nobody can release a buffer while the only thread waits for one, so an `acquire`
that does not succeed at once returns null. Memory for the storage is taken to be granted. -/
def syncFetch (s : SyncQueue) (t : Int) (sel : Option Bbox) : SyncQueue :=
  match s.stage.queue.startFetch t with
  -- the queue was cancelled
  | (false, q) => s.withStage (s.stage.withQueue q)
  | (true, q) =>
    let st := s.stage.withQueue q
    match st.pool.acquireOnce (q.info.acquireBytes st.pool.bufferCapacity sel) true with
    | (.got buf, p) =>
      { s with
        stage := readInto cfg (st.acquired p buf (.fetch 0)) t sel buf
        reads := s.reads ++ [t] }
    -- nobody else can release a buffer meanwhile, so that the wait ends with an error
    | (_, p) =>
      { s with stage := (st.withPool p).fail t .stagingBackpressure, exhausted := true }

/-- `schedule_fetch`. -/
def scheduleFetch (s : SyncQueue) (t : Int) : SyncQueue :=
  match s.stage.queue.track t with
  | (some sel, q) => syncFetch cfg (s.withStage (s.stage.withQueue q)) t sel
  -- tracked already, whatever the selection it was or will be fetched with
  | (none, _) => s

/-- The loop that opens the look-ahead window at `start`. -/
def scheduleWindow (s : SyncQueue) (start : Int) : SyncQueue :=
  (List.range (s.stage.queue.windowCount start)).foldl
    (fun s (k : Nat) => scheduleFetch cfg s (i64 (start + k))) s

def markKickedOff (s : SyncQueue) : SyncQueue :=
  s.withStage (s.stage.withQueue { s.stage.queue with kickedOff := true })

/-- `schedule_initial`. -/
def scheduleInitial (s : SyncQueue) : SyncQueue := scheduleWindow cfg s.markKickedOff 0

/-- `schedule_next`. -/
def scheduleNext (s : SyncQueue) (t : Int) : SyncQueue :=
  let next := s.stage.queue.nextTimestep t
  if s.stage.queue.totalTimesteps ≤ next then s else scheduleFetch cfg s next

/-- What a call of `get_buffer` returns, with the state it leaves. -/
abbrev Answer := (AmioErr × Option Nat) × SyncQueue

/-- The second half of the loop body; `k` is what happens when the wait ends. -/
def turnEnd (k : SyncQueue → Answer) (s : SyncQueue) (t : Int) : Answer :=
  match s.stage.waitCheck t with
  | (.ret status out, st) => ((status, out), s.withStage st)
  | (_, st) => k (s.withStage st)

/-- The loop body. -/
def turn (k : SyncQueue → Answer) (s : SyncQueue) (c : Nat) (t : Int) (bbox : Option Bbox) :
    Answer :=
  match s.stage.loopCheck c t bbox with
  | (.ret status out, st) => ((status, out), s.withStage st)
  -- a stale buffer: the lock is dropped, the fetch is made here and now, and the body goes on
  | (.unlock, st) => turnEnd k (scheduleFetch cfg (s.withStage st) t) t
  | (.proceed, st) => turnEnd k (s.withStage st) t

/-- After the deadline. -/
def expire (s : SyncQueue) (c : Nat) (t : Int) : Answer :=
  match s.stage.lastCheck c t with
  | (.ret status out, st) => ((status, out), s.withStage st)
  | (_, st) => ((.timeout, none), s.withStage st)

/-- The loop, when the wait is woken `wakeups` times before the deadline. Nothing happens while the
only thread waits, so every wake-up is a spurious one. -/
def loop (c : Nat) (t : Int) (bbox : Option Bbox) : Nat → SyncQueue → Answer
  | 0, s => turn cfg (fun s => expire s c t) s c t bbox
  | wakeups + 1, s => turn cfg (loop c t bbox wakeups) s c t bbox

def latch (s : SyncQueue) (bbox : Option Bbox) : SyncQueue :=
  { s with
    stage := s.stage.withQueue { s.stage.queue with latchedBbox := bbox }
    ncalls := s.ncalls + 1 }

/-- `get_buffer` before its first look at the results: the latch and the first-touch kick-off. -/
def kickOff (s : SyncQueue) (t : Int) (bbox : Option Bbox) : SyncQueue :=
  if s.stage.queue.kickedOff then s.latch bbox
  else scheduleWindow cfg (s.latch bbox).markKickedOff t

/-- `get_buffer`. -/
def getBuffer (s : SyncQueue) (t : Int) (bbox : Option Bbox) (wakeups : Nat) : Answer :=
  let c := s.ncalls
  let s := kickOff cfg s t bbox
  match s.stage.firstCheck c t bbox with
  | (.ret status out, st) => ((status, out), s.withStage st)
  | (.unlock, st) => loop cfg c t bbox wakeups (scheduleFetch cfg (s.withStage st) t)
  | (.proceed, st) => loop cfg c t bbox wakeups (s.withStage st)

/-! ### Runs -/

inductive SyncOp
  | scheduleInitial
  | getBuffer (t : Int) (bbox : Option Bbox) (wakeups : Nat)
  | scheduleNext (t : Int)
  | release (buf : Nat)

/-- The timesteps that `read` lets through. -/
def inRange (s : SyncQueue) (t : Int) : Bool :=
  decide (0 ≤ t) && decide (t < s.stage.queue.totalTimesteps)

/-- One call. A buffer is released by the caller that was given it. -/
def step (s : SyncQueue) : SyncOp → Option SyncQueue
  | .scheduleInitial => some (scheduleInitial cfg s)
  | .getBuffer t bbox wakeups =>
    if s.inRange t then some (getBuffer cfg s t bbox wakeups).2 else none
  | .scheduleNext t => if s.inRange t then some (scheduleNext cfg s t) else none
  -- the caller returns a buffer that it was given
  | .release buf =>
    match s.stage.owner buf with
    | some (.caller _) => some (s.withStage (s.stage.release buf))
    | _ => none

def start : SyncQueue where
  stage :=
    { queue := .create cfg.depth cfg.datasetId cfg.varName cfg.info
      pool := .create cfg.pool
      owner := fun _ => none
      lastRead := fun _ => none }
  ncalls := 0
  exhausted := false
  reads := []

def system : Lts.System SyncQueue SyncOp where
  init s := s = start cfg
  step := step cfg

/-! ### The invariant between calls -/

variable {cfg} {s s' s'' : SyncQueue} {c : Nat} {t : Int} {bbox sel : Option Bbox}

/-- What holds whenever the thread is not inside the pool or the driver. Every read that was made is
one the driver answers in the same way. -/
structure Core (cfg : SyncConfig) (s : SyncQueue) : Prop where
  ok : s.stage.Ok
  info : s.stage.queue.info = cfg.info
  capacity : s.stage.pool.bufferCapacity = cfg.pool.bufferCapacity
  -- `cancel_pending` is called by `close_dataset` only, which ends the queue
  live : s.stage.queue.cancelled = false
  honest : ∀ i r, s.stage.lastRead i = some r → cfg.read r.timestep r.bbox = some r.payload

/-- Between calls nothing is pending either. -/
structure Inv (cfg : SyncConfig) (s : SyncQueue) : Prop extends Core cfg s where
  idle : s.stage.queue.pending = ∅

/-- From `s` to `s'` fetches were made under the selection that is latched in `s`: failures that
were recorded stay, and the new ones are failures of the driver. -/
structure Fetched (cfg : SyncConfig) (s s' : SyncQueue) : Prop where
  inv : Inv cfg s'
  latched : s'.stage.queue.latchedBbox = s.stage.queue.latchedBbox
  exhausted : s'.exhausted = false → s.exhausted = false
  keeps_failed : ∀ t e, s.stage.queue.failed.lookup t = some e →
    s'.stage.queue.failed.lookup t = some e
  new_failed : s'.exhausted = false → ∀ t e, s'.stage.queue.failed.lookup t = some e →
    s.stage.queue.failed.lookup t = some e ∨
      cfg.directRead t s.stage.queue.latchedBbox = none

theorem Fetched.refl (hs : Inv cfg s) : Fetched cfg s s :=
  ⟨hs, rfl, id, fun _ _ h => h, fun _ _ _ h => .inl h⟩

theorem Fetched.trans (h : Fetched cfg s s') (h' : Fetched cfg s' s'') : Fetched cfg s s'' where
  inv := h'.inv
  latched := h'.latched.trans h.latched
  exhausted hx := h.exhausted (h'.exhausted hx)
  keeps_failed t e he := h'.keeps_failed t e (h.keeps_failed t e he)
  new_failed := by
    intro hx t e he
    -- both fetched under the same latched selection
    rcases h'.new_failed hx t e he with he' | hd
    · exact h.new_failed (h'.exhausted hx) t e he'
    · exact .inr (by rw [← h.latched]; exact hd)

/-- Timestep `t` is staged or failed, as the driver answers for the selection `bbox`, unless the
pool was exhausted. -/
def Resolved (cfg : SyncConfig) (s : SyncQueue) (t : Int) (bbox : Option Bbox) : Prop :=
  (∃ e, s.stage.queue.failed.lookup t = some e ∧ s.stage.queue.completed.lookup t = none ∧
    (s.exhausted = false → cfg.directRead t bbox = none)) ∨
  ∃ i, s.stage.queue.completed.lookup t = some i ∧ s.stage.queue.fetchedBbox.lookup t = bbox ∧
    s.stage.queue.failed.lookup t = none

/-! ### One fetch -/

/-- The end of `sync_fetch` in `mark_failed`. -/
theorem Core.fail (hs : Core cfg s) {err : AmioErr} (herr : err ≠ .ok)
    (hpend : ∀ t', t' ∈ s.stage.queue.pending → t' = t) :
    Inv cfg (s.withStage (s.stage.fail t err)) where
  ok := hs.ok.fail t herr
  info := hs.info
  capacity := hs.capacity
  live := hs.live
  honest := hs.honest
  idle := by
    ext t'
    simp only [withStage, Stage.fail, Stage.withQueue, PrefetchQueue.markFailed, Finset.mem_erase,
      Finset.notMem_empty, iff_false, not_and]
    exact fun hne hmem => hne (hpend t' hmem)

/-- A read that was answered: the payload fits, so the buffer is staged. -/
theorem readInto_of_some {st : Stage} {buf : Nat} {payload : List UInt8}
    (hread : cfg.read t (sel.map Bbox.toDriver) = some payload)
    (hcap : payload.length ≤ (st.pool.buf buf).capacityBytes) :
    readInto cfg st t sel buf =
      (st.deliver buf (st.queue.driverRead t sel payload)).complete t buf sel := by
  have hover : (st.deliver buf (st.queue.driverRead t sel payload)).overCapacity buf = false := by
    simp only [Stage.overCapacity, Stage.deliver, StagingPool.fill, StagingPool.setBuf,
      PrefetchQueue.driverRead, Function.update_self, decide_eq_false_iff_not, Nat.not_lt]
    exact hcap
  simp only [readInto, hread, hover, Bool.false_eq_true, if_false]

/-- `sync_fetch` when the pool has a buffer … -/
theorem syncFetch_got {buf : Nat} {p : StagingPool} (hlive : s.stage.queue.cancelled = false)
    (hacq : s.stage.pool.acquireOnce
      (s.stage.queue.info.acquireBytes s.stage.pool.bufferCapacity sel) true = (.got buf, p)) :
    syncFetch cfg s t sel =
      { s with
        stage := readInto cfg (s.stage.acquired p buf (.fetch 0)) t sel buf
        reads := s.reads ++ [t] } := by
  simp only [syncFetch, PrefetchQueue.startFetch, hlive, Bool.false_eq_true, if_false,
    Stage.withQueue, hacq]

/-- … and when it has none. -/
theorem syncFetch_denied {res : StagingPool.Acquired} {p : StagingPool}
    (hlive : s.stage.queue.cancelled = false)
    (hacq : s.stage.pool.acquireOnce
      (s.stage.queue.info.acquireBytes s.stage.pool.bufferCapacity sel) true = (res, p))
    (hne : ∀ buf, res ≠ .got buf) :
    syncFetch cfg s t sel =
      { s with stage := (s.stage.withPool p).fail t .stagingBackpressure, exhausted := true } := by
  cases res with
  | got buf => exact absurd rfl (hne buf)
  | threw | blocked =>
    simp only [syncFetch, PrefetchQueue.startFetch, hlive, Bool.false_eq_true, if_false,
      Stage.withQueue, hacq]

/-- What a fetch of the untracked timestep `t` with the selection `sel` leaves behind. -/
structure FetchedOne (cfg : SyncConfig) (s s' : SyncQueue) (t : Int) (sel : Option Bbox) :
    Prop where
  inv : Inv cfg s'
  latched : s'.stage.queue.latchedBbox = s.stage.queue.latchedBbox
  exhausted : s'.exhausted = false → s.exhausted = false
  others : ∀ t', t' ≠ t → s'.stage.queue.failed.lookup t' = s.stage.queue.failed.lookup t'
  resolved : Resolved cfg s' t sel

section Fetch

variable (hs : Core cfg s) (hpend : ∀ t', t' ∈ s.stage.queue.pending → t' = t)
  (hcompleted : s.stage.queue.completed.lookup t = none)
  (hfailed : s.stage.queue.failed.lookup t = none)

include hs hpend

include hcompleted

/-- A fetch that is denied its buffer. -/
theorem FetchedOne.denied {res : StagingPool.Acquired} {p : StagingPool}
    (hacq : s.stage.pool.acquireOnce
      (s.stage.queue.info.acquireBytes s.stage.pool.bufferCapacity sel) true = (res, p))
    (hne : ∀ buf, res ≠ .got buf) :
    FetchedOne cfg s
      { s with stage := (s.stage.withPool p).fail t .stagingBackpressure, exhausted := true } t
      sel where
  inv :=
    have hcore : Core cfg { s with stage := s.stage.withPool p, exhausted := true } :=
      ⟨(hs.ok.denied (.inl hacq) hne).1, hs.info,
        (hs.ok.owned.denied_config (.inl hacq) hne).2.2.1.trans hs.capacity, hs.live, hs.honest⟩
    hcore.fail (by simp) hpend
  latched := rfl
  exhausted h := by cases h
  others t' ht' := (StepMap.lookup_insert _ t t' _).trans (if_neg ht')
  resolved := .inl ⟨.stagingBackpressure, (StepMap.lookup_insert _ t t _).trans (if_pos rfl),
    hcompleted, nofun⟩

/-- The driver throws: the buffer goes back and the failure is recorded. -/
theorem FetchedOne.threw {buf : Nat} (ho : s.stage.owner buf = some (.fetch 0))
    (hread : cfg.read t (sel.map Bbox.toDriver) = none) :
    FetchedOne cfg s (s.withStage ((s.stage.release buf).fail t .backendFailure)) t sel where
  inv :=
    have hcore : Core cfg (s.withStage (s.stage.release buf)) :=
      ⟨hs.ok.release ho (by simp), hs.info,
        (StagingPool.release_sameConfig s.stage.pool buf).2.2.1.trans hs.capacity, hs.live,
        hs.honest⟩
    hcore.fail (by simp) hpend
  latched := rfl
  exhausted := id
  others t' ht' := (StepMap.lookup_insert _ t t' _).trans (if_neg ht')
  resolved := .inl ⟨.backendFailure, (StepMap.lookup_insert _ t t _).trans (if_pos rfl),
    hcompleted, fun _ => hread⟩

include hfailed

omit hcompleted in
/-- The driver answers: the buffer is staged under the selection. -/
theorem FetchedOne.answered {buf : Nat} {payload : List UInt8}
    (ho : s.stage.owner buf = some (.fetch 0))
    (hread : cfg.read t (sel.map Bbox.toDriver) = some payload) :
    FetchedOne cfg s (s.withStage ((s.stage.deliver buf
      (s.stage.queue.driverRead t sel payload)).complete t buf sel)) t sel where
  inv := by
    have hok : ((s.stage.deliver buf (s.stage.queue.driverRead t sel payload)).complete t buf
        sel).Ok :=
      (hs.ok.deliver ho _).complete ho (Stage.holds_deliver hs.ok ho payload)
    refine ⟨⟨hok, hs.info, hs.capacity, hs.live, ?_⟩, ?_⟩
    -- the driver read that is remembered for `buf` is the one just made
    · intro i r hr
      have hr' : Function.update s.stage.lastRead buf
          (some (s.stage.queue.driverRead t sel payload)) i = some r := hr
      by_cases hi : i = buf
      · rw [hi, Function.update_self] at hr'
        obtain rfl := Option.some.inj hr'
        exact hread
      · rw [Function.update_of_ne hi] at hr'
        exact hs.honest i r hr'
    · ext t'
      simp only [withStage, Stage.complete, Stage.give, Stage.deliver, Stage.withQueue,
        PrefetchQueue.markComplete, Finset.mem_erase, Finset.notMem_empty, iff_false, not_and]
      exact fun hne hmem => hne (hpend t' hmem)
  latched := rfl
  exhausted := id
  others _ _ := rfl
  resolved := .inr ⟨buf, AList.lookup_insert _,
    (Stage.lookup_fetchedBbox_markComplete _ t t buf sel).trans (if_pos rfl), hfailed⟩

/-- **One fetch**: the timestep ends up staged or failed, as the driver answers. -/
theorem FetchedOne.syncFetch : FetchedOne cfg s (syncFetch cfg s t sel) t sel := by
  rcases hacq : s.stage.pool.acquireOnce
    (s.stage.queue.info.acquireBytes s.stage.pool.bufferCapacity sel) true with ⟨res, p⟩
  -- the four ways through `sync_fetch`: no buffer, an exception, a payload
  by_cases hgot : ∃ buf, res = .got buf
  · obtain ⟨buf, rfl⟩ := hgot
    obtain ⟨hok, -⟩ := hs.ok.acquired (.inl hacq) (.fetch 0) (by simp)
    obtain ⟨hcap, hconfig⟩ := hs.ok.owned.got_capacity (.inl hacq)
    have ho : (s.stage.acquired p buf (.fetch 0)).owner buf = some (.fetch 0) :=
      Function.update_self _ _ _
    have hcore : Core cfg
        { s with stage := s.stage.acquired p buf (.fetch 0), reads := s.reads ++ [t] } :=
      ⟨hok, hs.info, hconfig.2.2.1.trans hs.capacity, hs.live, hs.honest⟩
    rw [syncFetch_got hs.live hacq]
    cases hread : cfg.read t (sel.map Bbox.toDriver) with
    | none =>
      have hone := FetchedOne.threw hcore hpend hcompleted ho hread
      simp only [readInto, hread]
      exact ⟨hone.inv, hone.latched, hone.exhausted, hone.others, hone.resolved⟩
    | some payload =>
      -- the payload fits in what was asked for, and the buffer holds at least that much
      have hfit : payload.length ≤
          ((s.stage.acquired p buf (.fetch 0)).pool.buf buf).capacityBytes := by
        refine (cfg.fits t sel payload hread).trans ?_
        rw [← hs.info, ← hs.capacity]
        exact hcap
      have hone := FetchedOne.answered hcore hpend hfailed ho hread
      rw [readInto_of_some hread hfit]
      exact ⟨hone.inv, hone.latched, hone.exhausted, hone.others, hone.resolved⟩
  · have hne : ∀ buf, res ≠ .got buf := fun buf h => hgot ⟨buf, h⟩
    rw [syncFetch_denied hs.live hacq hne]
    exact .denied hs hpend hcompleted hacq hne

end Fetch

/-! ### Scheduling -/

/-- A timestep that is not tracked is fetched under the latched selection. -/
theorem scheduleFetch_untracked (hs : Inv cfg s)
    (hcompleted : s.stage.queue.completed.lookup t = none)
    (hfailed : s.stage.queue.failed.lookup t = none) :
    FetchedOne cfg s (scheduleFetch cfg s t) t s.stage.queue.latchedBbox := by
  have htrack : s.stage.queue.track t = (some s.stage.queue.latchedBbox,
      { s.stage.queue with pending := insert t s.stage.queue.pending }) := by
    simp [PrefetchQueue.track, PrefetchQueue.tracked, hs.live, hs.idle, hcompleted, hfailed]
  have hcore : Core cfg (s.withStage (s.stage.withQueue
      { s.stage.queue with pending := insert t s.stage.queue.pending })) :=
    ⟨hs.ok.withQueue rfl rfl rfl hs.ok.errors, hs.info, hs.capacity, hs.live, hs.honest⟩
  have hone : FetchedOne cfg _ _ t s.stage.queue.latchedBbox :=
    .syncFetch hcore (by simp [withStage, Stage.withQueue, hs.idle]) hcompleted hfailed
  simp only [scheduleFetch, htrack]
  exact ⟨hone.inv, hone.latched, hone.exhausted, hone.others, hone.resolved⟩

/-- A timestep that is tracked is left alone. -/
theorem scheduleFetch_tracked (h : s.stage.queue.tracked t = true) : scheduleFetch cfg s t = s := by
  simp [scheduleFetch, PrefetchQueue.track, h]

/-- `schedule_fetch`, which fetches at once. -/
theorem Fetched.scheduleFetch (hs : Inv cfg s) (t : Int) :
    Fetched cfg s (scheduleFetch cfg s t) := by
  by_cases htracked : s.stage.queue.tracked t = true
  · rw [scheduleFetch_tracked htracked]
    exact .refl hs
  · have hnone : s.stage.queue.completed.lookup t = none ∧
        s.stage.queue.failed.lookup t = none := by
      simpa [PrefetchQueue.tracked, hs.idle] using htracked
    have hone := scheduleFetch_untracked hs hnone.1 hnone.2
    refine ⟨hone.inv, hone.latched, hone.exhausted, ?_, ?_⟩
    · intro t' e he
      have hne : t' ≠ t := by
        rintro rfl
        rw [hnone.2] at he
        cases he
      exact (hone.others t' hne).trans he
    · intro hx t' e he
      -- a new failure can only be that of `t`
      by_cases hne : t' = t
      · subst hne
        rcases hone.resolved with ⟨-, -, -, hdirect⟩ | ⟨-, -, -, hf⟩
        · exact .inr (hdirect hx)
        · rw [hf] at he
          cases he
      · exact .inl ((hone.others t' hne).symm.trans he)

theorem Fetched.foldl (start : Int) (ks : List Nat) (hs : Inv cfg s) :
    Fetched cfg s
      (ks.foldl (fun s (k : Nat) => SyncQueue.scheduleFetch cfg s (i64 (start + k))) s) := by
  induction ks generalizing s with
  | nil => exact .refl hs
  | cons k ks ih =>
    have hk := Fetched.scheduleFetch hs (i64 (start + k))
    exact hk.trans (ih hk.inv)

/-- A step of the bookkeeping that moves no timestep. -/
theorem Inv.withQueue (hs : Inv cfg s) (q : PrefetchQueue)
    (hread : q.driverRead = s.stage.queue.driverRead) (hinfo : q.info = s.stage.queue.info)
    (hcompleted : q.completed = s.stage.queue.completed)
    (hfetched : q.fetchedBbox = s.stage.queue.fetchedBbox)
    (hpending : q.pending = s.stage.queue.pending) (hfailed : q.failed = s.stage.queue.failed)
    (hcancelled : q.cancelled = s.stage.queue.cancelled) (n : Nat) :
    Inv cfg { s with stage := s.stage.withQueue q, ncalls := n } :=
  ⟨⟨hs.ok.withQueue hread hcompleted hfetched (by rw [hfailed]; exact hs.ok.errors),
      hinfo.trans hs.info, hs.capacity, hcancelled.trans hs.live, hs.honest⟩,
    hpending.trans hs.idle⟩

theorem Inv.markKickedOff (hs : Inv cfg s) : Inv cfg s.markKickedOff :=
  hs.withQueue { s.stage.queue with kickedOff := true } rfl rfl rfl rfl rfl rfl rfl s.ncalls

theorem Inv.latch (hs : Inv cfg s) (bbox : Option Bbox) : Inv cfg (s.latch bbox) :=
  hs.withQueue { s.stage.queue with latchedBbox := bbox } rfl rfl rfl rfl rfl rfl rfl (s.ncalls + 1)

/-- `get_buffer` up to its first look at the results. -/
theorem Fetched.kickOff (hs : Inv cfg s) (t : Int) (bbox : Option Bbox) :
    Fetched cfg (s.latch bbox) (kickOff cfg s t bbox) := by
  unfold SyncQueue.kickOff
  split
  · exact .refl (hs.latch bbox)
  · have hfold := Fetched.foldl t
      (List.range ((s.latch bbox).markKickedOff.stage.queue.windowCount t))
      (hs.latch bbox).markKickedOff
    exact ⟨hfold.inv, hfold.latched, hfold.exhausted, hfold.keeps_failed, hfold.new_failed⟩

/-! ### The answer -/

/-- A look at the stage. -/
theorem Inv.pruned {st : Stage} (hs : Inv cfg s) (hok : st.Ok) (hp : s.stage.Pruned st t) :
    Inv cfg (s.withStage st) where
  ok := hok
  info := (congrArg PrefetchQueue.info hp.queue).trans hs.info
  capacity := hp.pool.2.2.1.trans hs.capacity
  live := hp.cancelled.trans hs.live
  honest i r hr := hs.honest i r (hp.lastRead ▸ hr)
  idle := hp.pending.trans hs.idle

/-- `r` is what a call answers that ended in a section of `get_buffer` in state `s`; `excuse` is why
it may have returned an error. -/
structure Answered (cfg : SyncConfig) (s : SyncQueue) (c : Nat) (t : Int) (bbox : Option Bbox)
    (excuse : Prop) (r : Answer) : Prop where
  inv : Inv cfg r.2
  exhausted : r.2.exhausted = s.exhausted
  served : Stage.Served s.stage r.2.stage c t bbox (.ret r.1.1 r.1.2)
  excused : r.1.1 ≠ .ok → excuse

/-- A section that returns answers for the stage it saw. -/
theorem Answered.of_section {st : Stage} {status : AmioErr} {out : Option Nat} {excuse : Prop}
    (hs : Inv cfg s) (hserved : Stage.Served s.stage st c t bbox (.ret status out))
    (hp : s.stage.Pruned st t) (hexcuse : status ≠ .ok → excuse) :
    Answered cfg s c t bbox excuse ((status, out), s.withStage st) :=
  ⟨hs.pruned hserved.ok hp, rfl, hserved, hexcuse⟩

/-- The loop body does not wait once the timestep is resolved. -/
theorem Answered.turn (hs : Inv cfg s) (hr : Resolved cfg s t bbox) (k : SyncQueue → Answer) :
    Answered cfg s c t bbox (s.exhausted = false → cfg.directRead t bbox = none)
      (turn cfg k s c t bbox) := by
  have hserved := Stage.Served.loopCheck hs.ok c t bbox
  have hpruned := Stage.Pruned.loopCheck s.stage c t bbox
  unfold SyncQueue.turn
  -- failed: the loop finds nothing staged and returns the failure; staged: it returns the buffer
  rcases hr with ⟨e, hfailed, hcompleted, hdirect⟩ | ⟨i, hcompleted, hfetched, -⟩
  · obtain ⟨i, hi, -⟩ | ⟨i, hi, -⟩ | ⟨-, heq⟩ := Stage.loopCheck_cases s.stage c t bbox
    · rw [hcompleted] at hi
      cases hi
    · rw [hcompleted] at hi
      cases hi
    · obtain ⟨err, -, hret⟩ | ⟨hnone, -⟩ | ⟨hnone, -⟩ := Stage.waitCheck_cases s.stage t
      · have hserved' := Stage.Served.waitCheck hs.ok c t bbox
        have hpruned' := Stage.Pruned.waitCheck s.stage t
        rcases hwait : s.stage.waitCheck t with ⟨v, st⟩
        rw [hwait] at hret hserved' hpruned'
        obtain rfl : v = .ret err none := hret
        have hwait' : (s.withStage s.stage).stage.waitCheck t = (.ret err none, st) := hwait
        simp only [heq, turnEnd, hwait']
        exact .of_section hs hserved' hpruned' fun _ => hdirect
      · rw [hfailed] at hnone
        cases hnone
      · rw [hfailed] at hnone
        cases hnone
  · have hsame : bboxSame (s.stage.queue.fetchedBbox.lookup t) bbox = true :=
      bboxSame_iff.mpr (by rw [hfetched])
    obtain ⟨j, -, -, hret⟩ | ⟨j, -, hstale, -⟩ | ⟨hnone, -⟩ :=
      Stage.loopCheck_cases s.stage c t bbox
    · rcases hloop : s.stage.loopCheck c t bbox with ⟨v, st⟩
      rw [hloop] at hret hserved hpruned
      obtain rfl : v = .ret .ok (some j) := hret
      exact .of_section hs hserved hpruned fun h => absurd rfl h
    · rw [hsame] at hstale
      cases hstale
    · rw [hcompleted] at hnone
      cases hnone

/-- The loop answers for a timestep that is resolved. -/
theorem Answered.loop (hs : Inv cfg s) (hr : Resolved cfg s t bbox) (wakeups : Nat) :
    Answered cfg s c t bbox (s.exhausted = false → cfg.directRead t bbox = none)
      (loop cfg c t bbox wakeups s) := by
  cases wakeups with
  | zero => exact .turn hs hr _
  | succ n => exact .turn hs hr _

/-- **What `get_buffer` answers**: a buffer with what was asked for, or an error, and then the
driver fails on what was asked for unless a failure was recorded for the timestep before. -/
theorem getBuffer_answered (hs : Inv cfg s) (t : Int) (bbox : Option Bbox) (wakeups : Nat) :
    ∃ s₁, Answered cfg s₁ s.ncalls t bbox (s₁.exhausted = false →
      s.stage.queue.failed.lookup t = none → cfg.directRead t bbox = none)
      (getBuffer cfg s t bbox wakeups) := by
  have hkick := Fetched.kickOff hs t bbox
  -- a failure found at the first look was there before, or is one of the latched selection
  have hexcuse : ∀ e, (kickOff cfg s t bbox).stage.queue.failed.lookup t = some e →
      (kickOff cfg s t bbox).exhausted = false → s.stage.queue.failed.lookup t = none →
      cfg.directRead t bbox = none := by
    intro e he hx hnone
    rcases hkick.new_failed hx t e he with hold | hdirect
    · have : s.stage.queue.failed.lookup t = some e := hold
      rw [hnone] at this
      cases this
    · exact hdirect
  have hserved := Stage.Served.firstCheck hkick.inv.ok s.ncalls t bbox
  have hpruned := Stage.Pruned.firstCheck (kickOff cfg s t bbox).stage s.ncalls t bbox
  unfold getBuffer
  rcases hfirst : (kickOff cfg s t bbox).stage.firstCheck s.ncalls t bbox with ⟨v, st⟩
  rw [hfirst] at hserved hpruned
  obtain ⟨e, he, hv⟩ | ⟨-, i, hv⟩ | ⟨hfailed, hcompleted, hv⟩ :=
    Stage.firstCheck_cases (kickOff cfg s t bbox).stage s.ncalls t bbox
  · rw [hfirst] at hv
    obtain rfl : v = .ret e none := hv
    simp only [hfirst]
    exact ⟨_, .of_section hkick.inv hserved hpruned fun _ => hexcuse e he⟩
  · rw [hfirst] at hv
    obtain rfl : v = .ret .ok (some i) := hv
    simp only [hfirst]
    exact ⟨_, .of_section hkick.inv hserved hpruned fun h => absurd rfl h⟩
  · -- nothing is pending between calls, so the call schedules the fetch itself
    rw [hfirst, hkick.inv.idle, if_neg (Finset.notMem_empty t)] at hv
    obtain rfl : v = .unlock := hv
    rw [hfirst] at hcompleted
    simp only [hfirst]
    have hinv := hkick.inv.pruned hserved.ok hpruned
    have hlatched : st.queue.latchedBbox = bbox :=
      (congrArg PrefetchQueue.latchedBbox hpruned.queue).trans hkick.latched
    have hfailed' : st.queue.failed.lookup t = none := by
      rcases hpruned.failed_self with h | h
      · exact h.trans hfailed
      · exact h
    have hone := scheduleFetch_untracked (t := t) hinv hcompleted hfailed'
    have hresolved : Resolved cfg (scheduleFetch cfg ((kickOff cfg s t bbox).withStage st) t) t
        bbox := hlatched ▸ hone.resolved
    obtain ⟨hinv', hex, hsrv, hexc⟩ := Answered.loop (c := s.ncalls) hone.inv hresolved wakeups
    exact ⟨_, hinv', hex, hsrv, fun hne hx _ => hexc hne hx⟩

/-- A failure that was recorded for the timestep is what the call returns. -/
theorem getBuffer_of_failed (hs : Inv cfg s) {e : AmioErr}
    (he : s.stage.queue.failed.lookup t = some e) (bbox : Option Bbox) (wakeups : Nat) :
    (getBuffer cfg s t bbox wakeups).1 = (e, none) := by
  have hkept := (Fetched.kickOff hs t bbox).keeps_failed t e he
  have hfirst : (kickOff cfg s t bbox).stage.firstCheck s.ncalls t bbox =
      (.ret e none, (kickOff cfg s t bbox).stage.withQueue
        ((kickOff cfg s t bbox).stage.queue.dropFailed t)) := by
    simp only [Stage.firstCheck, Stage.takeFailed, hkept]
  simp only [getBuffer, hfirst]

/-! ### Transparency -/

theorem Inv.start (cfg : SyncConfig) : Inv cfg (start cfg) where
  ok := ⟨.create Keeper cfg.pool, fun _ _ => nofun, fun _ _ => nofun⟩
  info := rfl
  capacity := rfl
  live := rfl
  honest := fun _ _ => nofun
  idle := rfl

/-- A caller gives a buffer back. -/
theorem Inv.release {buf c : Nat} (hs : Inv cfg s) (ho : s.stage.owner buf = some (.caller c)) :
    Inv cfg (s.withStage (s.stage.release buf)) :=
  ⟨⟨hs.ok.release ho (by simp), hs.info,
    (StagingPool.release_sameConfig s.stage.pool buf).2.2.1.trans hs.capacity, hs.live,
    hs.honest⟩, hs.idle⟩

/-- **Every call keeps the invariant.** -/
theorem Inv.step {op : SyncOp} (hs : Inv cfg s) (h : step cfg s op = some s') : Inv cfg s' := by
  cases op with
  | scheduleInitial =>
    obtain rfl := Option.some.inj h
    exact (Fetched.foldl 0 _ hs.markKickedOff).inv
  | getBuffer t bbox wakeups =>
    simp only [SyncQueue.step] at h
    split at h
    · obtain rfl := Option.some.inj h
      obtain ⟨_, hanswer⟩ := getBuffer_answered hs t bbox wakeups
      exact hanswer.inv
    · cases h
  -- a timestep beyond the record is not fetched
  | scheduleNext t =>
    simp only [SyncQueue.step] at h
    split at h
    · obtain rfl := Option.some.inj h
      unfold SyncQueue.scheduleNext
      dsimp only
      split
      · exact hs
      · exact (Fetched.scheduleFetch hs _).inv
    · cases h
  | release buf =>
    simp only [SyncQueue.step] at h
    split at h
    · next c ho =>
      obtain rfl := Option.some.inj h
      exact hs.release ho
    · cases h

theorem Inv.of_reachable (h : (system cfg).Reachable s) : Inv cfg s :=
  h.invariant (fun _ hinit => hinit ▸ .start cfg) fun _ _ _ hs _ hstep => hs.step hstep

/-- The answer of a call is that of one direct read: the payload that the driver gives, or an error
and no buffer when it fails. -/
def Transparent (cfg : SyncConfig) (t : Int) (bbox : Option Bbox) (r : Answer) : Prop :=
  match cfg.directRead t bbox with
  | some payload => r.1.1 = .ok ∧ ∃ i, r.1.2 = some i ∧ r.2.stage.pool.payload i = payload
  | none => r.1.1 ≠ .ok ∧ r.1.2 = none

/-- An answer without excuse is transparent. -/
theorem Answered.transparent {s₁ : SyncQueue} {excuse : Prop} {r : Answer}
    (h : Answered cfg s₁ c t bbox excuse r) (hexcuse : excuse → cfg.directRead t bbox = none) :
    Transparent cfg t bbox r := by
  unfold Transparent
  by_cases hok : r.1.1 = .ok
  · obtain ⟨i, hi, -, hholds⟩ := h.served.returns r.1.2 (by rw [hok])
    have hread : cfg.directRead t bbox = some (r.2.stage.pool.payload i) := h.inv.honest i _ hholds
    rw [hread]
    exact ⟨hok, i, hi, rfl⟩
  · rw [hexcuse (h.excused hok)]
    exact ⟨hok, h.served.errs r.1.1 r.1.2 rfl hok⟩

/-- **Prefetching shows only through a failure staged under another selection.** After any sequence
of calls, `get_buffer t bbox` answers what one direct read of `t` with `bbox` answers, if and only
if a failure that is recorded for `t`, if any, is also one of reading `t` with `bbox`. -/
theorem transparent_iff (h : (system cfg).Reachable s) (t : Int) (bbox : Option Bbox)
    (wakeups : Nat) (hpool : (getBuffer cfg s t bbox wakeups).2.exhausted = false) :
    Transparent cfg t bbox (getBuffer cfg s t bbox wakeups) ↔
      ((s.stage.queue.failed.lookup t).isSome → cfg.directRead t bbox = none) := by
  have hs := Inv.of_reachable h
  constructor
  -- the recorded failure is returned, which is transparent only if the direct read fails too
  · intro htransparent hsome
    obtain ⟨e, he⟩ := Option.isSome_iff_exists.mp hsome
    unfold Transparent at htransparent
    split at htransparent
    · rw [getBuffer_of_failed hs he] at htransparent
      exact absurd htransparent.1 (hs.ok.errors t e he)
    · next hnone => exact hnone
  · intro hcond
    obtain ⟨s₁, hanswer⟩ := getBuffer_answered hs t bbox wakeups
    refine hanswer.transparent fun hexcuse => ?_
    by_cases hnone : s.stage.queue.failed.lookup t = none
    · exact hexcuse (hanswer.exhausted.symm.trans hpool) hnone
    · exact hcond (Option.isSome_iff_ne_none.mpr hnone)

/-! ### Two records of two bytes, the second of which cannot be read whole -/

def brokenRecord : SyncConfig where
  depth := 2
  datasetId := 1
  varName := [118]
  info := ⟨some .u8, ⟨1, fun _ => 2, fun _ => 0⟩, 2⟩
  pool := PoolRun.pairArgs
  read t bbox := if t = 1 ∧ bbox = none then none else some [42]
  fits := by
    intro t bbox payload h
    split at h
    · cases h
    · obtain rfl := Option.some.inj h
      exact VariableInfo.acquireBytes_pos (by decide) bbox

def oneByte : Bbox := ⟨1, fun _ => 0, fun _ => 1, fun _ => 1⟩

theorem transparent_of_brokenRecord :
    ∃ s, (system brokenRecord).Reachable s ∧ (s.stage.queue.failed.lookup 1).isSome ∧
      Transparent brokenRecord 1 none (getBuffer brokenRecord s 1 none 0) :=
  have h : (system brokenRecord).Reachable _ :=
    Lts.System.Reachable.of_replay [.getBuffer 0 none 0] rfl rfl
  ⟨_, h, rfl, (transparent_iff h 1 none 0 rfl).2 fun _ => rfl⟩

/-- Reading record `0` whole stages the failure of record `1`; reading the first byte of record `1`,
which the driver can do, then returns that failure. -/
theorem staged_failure_shows :
    ∃ s, (system brokenRecord).Reachable s ∧
      brokenRecord.directRead 1 (some oneByte) = some [42] ∧
      (getBuffer brokenRecord s 1 (some oneByte) 0).2.exhausted = false ∧
      (getBuffer brokenRecord s 1 (some oneByte) 0).1 = (.backendFailure, none) ∧
      ¬ Transparent brokenRecord 1 (some oneByte)
        (getBuffer brokenRecord s 1 (some oneByte) 0) :=
  have h : (system brokenRecord).Reachable _ :=
    Lts.System.Reachable.of_replay [.getBuffer 0 none 0] rfl rfl
  ⟨_, h, rfl, rfl, rfl, fun hshow => nomatch hshow.1⟩

end SyncQueue

end Amio
