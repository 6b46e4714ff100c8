import Amio.Prefetch.Synchronous

/-!
# The look-ahead window

A host that reads the timesteps of a variable in order calls `get_buffer` and then `schedule_next`
for each. The first call opens a window of `depth` timesteps, every read takes one from its front,
and every `schedule_next` adds one at its end, until the end of the record is reached. What is
staged is what lies between the last read and the end of the window, and the driver was called once
for each timestep from the first read on, unless the end of the window is no machine integer
(`window_exact_iff`).

`get_buffer` computes the end of the window by a subtraction, which cannot go wrong here, and
`schedule_next` by an addition, which can: it may come out negative.
-/

namespace Amio

namespace SyncQueue

/-! ### What lasts through a call -/

section Lasting

variable {cfg} {P : SyncQueue → Prop} {s : SyncQueue} {c : Nat} {t : Int} {bbox : Option Bbox}

/-- `P` looks at nothing but the record of the pool and of the driver, and is kept by fetches. -/
structure Lasting (cfg : SyncConfig) (P : SyncQueue → Prop) : Prop where
  same : ∀ s s', s'.exhausted = s.exhausted → s'.reads = s.reads → P s → P s'
  fetch : ∀ s t, P s → P (scheduleFetch cfg s t)

theorem Lasting.kickOff (hP : Lasting cfg P) (h : P s) : P (kickOff cfg s t bbox) := by
  have hwindow : ∀ s, P s → P (scheduleWindow cfg s t) := by
    intro s hs
    unfold scheduleWindow
    generalize List.range (s.stage.queue.windowCount t) = ks
    induction ks generalizing s with
    | nil => exact hs
    | cons k ks ih => exact ih _ (hP.fetch s (i64 (t + k)) hs)
  unfold SyncQueue.kickOff
  split
  · exact hP.same s _ rfl rfl h
  · exact hwindow _ (hP.same s _ rfl rfl h)

theorem Lasting.turnEnd {k : SyncQueue → Answer} (hP : Lasting cfg P)
    (hk : ∀ s, P s → P (k s).2) (h : P s) : P (turnEnd k s t).2 := by
  unfold SyncQueue.turnEnd
  split
  · exact hP.same s _ rfl rfl h
  · exact hk _ (hP.same s _ rfl rfl h)

theorem Lasting.turn {k : SyncQueue → Answer} (hP : Lasting cfg P)
    (hk : ∀ s, P s → P (k s).2) (h : P s) : P (turn cfg k s c t bbox).2 := by
  unfold SyncQueue.turn
  split
  · exact hP.same s _ rfl rfl h
  · exact hP.turnEnd hk (hP.fetch _ t (hP.same s _ rfl rfl h))
  · exact hP.turnEnd hk (hP.same s _ rfl rfl h)

theorem Lasting.loop (hP : Lasting cfg P) (wakeups : Nat) (h : P s) :
    P (loop cfg c t bbox wakeups s).2 := by
  induction wakeups generalizing s with
  | zero =>
    refine hP.turn (fun s hs => ?_) h
    unfold expire
    split <;> exact hP.same s _ rfl rfl hs
  | succ n ih => exact hP.turn (fun _ hs => ih hs) h

/-- `get_buffer` after the kick-off. -/
theorem Lasting.answer (hP : Lasting cfg P) (wakeups : Nat)
    (h : P (SyncQueue.kickOff cfg s t bbox)) : P (getBuffer cfg s t bbox wakeups).2 := by
  unfold getBuffer
  dsimp only
  split
  · exact hP.same (SyncQueue.kickOff cfg s t bbox) _ rfl rfl h
  · exact hP.loop wakeups (hP.fetch _ t (hP.same (SyncQueue.kickOff cfg s t bbox) _ rfl rfl h))
  · exact hP.loop wakeups (hP.same (SyncQueue.kickOff cfg s t bbox) _ rfl rfl h)

theorem Lasting.scheduleNext (hP : Lasting cfg P) (h : P s) : P (scheduleNext cfg s t) := by
  unfold SyncQueue.scheduleNext
  dsimp only
  split
  · exact h
  · exact hP.fetch s _ h

/-- A pool that ran out stays on record. -/
theorem Lasting.exhausted (cfg : SyncConfig) : Lasting cfg fun s => s.exhausted = true where
  same _ _ hx _ h := hx.trans h
  fetch s t h := by
    unfold scheduleFetch syncFetch
    split
    · dsimp only
      split
      · exact h
      · split
        · exact h
        · rfl
    · exact h

/-- A driver call of the past is not forgotten. -/
theorem Lasting.mem_reads (cfg : SyncConfig) (x : Int) : Lasting cfg fun s => x ∈ s.reads where
  same _ _ _ hreads h := hreads.symm ▸ h
  fetch s t h := by
    unfold scheduleFetch syncFetch
    split
    · dsimp only
      split
      · exact h
      · split
        · exact List.mem_append_left _ h
        · exact h
    · exact h

/-- A pool that did not run out in a call had not run out before. -/
theorem getBuffer_pool {wakeups : Nat}
    (h : (getBuffer cfg s t bbox wakeups).2.exhausted = false) :
    (kickOff cfg s t bbox).exhausted = false ∧ s.exhausted = false := by
  have hkick : (kickOff cfg s t bbox).exhausted = false :=
    Bool.eq_false_iff.mpr fun hx => by simp [(Lasting.exhausted cfg).answer wakeups hx] at h
  have hbefore : s.exhausted = false :=
    Bool.eq_false_iff.mpr fun hx => by simp [(Lasting.exhausted cfg).kickOff hx] at hkick
  exact ⟨hkick, hbefore⟩

/-- A pool that is not exhausted afterwards was not before. -/
theorem scheduleNext_pool (h : (scheduleNext cfg s t).exhausted = false) :
    s.exhausted = false :=
  Bool.eq_false_iff.mpr fun hx => by simp [(Lasting.exhausted cfg).scheduleNext hx] at h

end Lasting

/-! ### One fetch -/

section Window

variable {cfg : SyncConfig} {bbox sel : Option Bbox} {s : SyncQueue} {t t₀ lo hi : Int}

/-- `sync_fetch` by a driver that answers, when the pool has a buffer. -/
theorem syncFetch_staged (hs : Core cfg s) (hdriver : cfg.directRead t sel ≠ none)
    (hpool : (syncFetch cfg s t sel).exhausted = false) :
    (∃ buf, (syncFetch cfg s t sel).stage.queue = s.stage.queue.markComplete t buf sel) ∧
      (syncFetch cfg s t sel).reads = s.reads ++ [t] := by
  obtain ⟨payload, hread⟩ := Option.ne_none_iff_exists'.mp hdriver
  rcases hacq : s.stage.pool.acquireOnce
    (s.stage.queue.info.acquireBytes s.stage.pool.bufferCapacity sel) true with ⟨res, p⟩
  by_cases hgot : ∃ buf, res = .got buf
  · obtain ⟨buf, rfl⟩ := hgot
    -- the payload fits in what was asked for, and the buffer holds at least that much
    have hfit : payload.length ≤
        ((s.stage.acquired p buf (.fetch 0)).pool.buf buf).capacityBytes := by
      refine (cfg.fits t sel payload hread).trans ?_
      rw [← hs.info, ← hs.capacity]
      exact (hs.ok.owned.got_capacity (.inl hacq)).1
    rw [syncFetch_got hs.live hacq]
    refine ⟨⟨buf, ?_⟩, rfl⟩
    rw [readInto_of_some hread hfit]
    rfl
  · -- no buffer: the exhaustion is on record
    rw [syncFetch_denied hs.live hacq fun buf h => hgot ⟨buf, h⟩] at hpool
    cases hpool

/-- `schedule_fetch` of a timestep that is not tracked. -/
theorem scheduleFetch_staged (hs : Inv cfg s)
    (hcompleted : s.stage.queue.completed.lookup t = none)
    (hfailed : s.stage.queue.failed.lookup t = none)
    (hdriver : cfg.directRead t s.stage.queue.latchedBbox ≠ none)
    (hpool : (scheduleFetch cfg s t).exhausted = false) :
    (∃ buf, (scheduleFetch cfg s t).stage.queue =
      { s.stage.queue with pending := insert t s.stage.queue.pending }.markComplete t buf
        s.stage.queue.latchedBbox) ∧
      (scheduleFetch cfg s t).reads = s.reads ++ [t] := by
  have htrack : s.stage.queue.track t = (some s.stage.queue.latchedBbox,
      { s.stage.queue with pending := insert t s.stage.queue.pending }) := by
    simp [PrefetchQueue.track, PrefetchQueue.tracked, hs.live, hs.idle, hcompleted, hfailed]
  have hfetch : scheduleFetch cfg s t = syncFetch cfg (s.withStage (s.stage.withQueue
      { s.stage.queue with pending := insert t s.stage.queue.pending })) t
      s.stage.queue.latchedBbox := by
    simp only [scheduleFetch, htrack]
  -- only `pending_` differs before the driver is called
  have hcore : Core cfg (s.withStage (s.stage.withQueue
      { s.stage.queue with pending := insert t s.stage.queue.pending })) :=
    ⟨hs.ok.withQueue rfl rfl rfl hs.ok.errors, hs.info, hs.capacity, hs.live, hs.honest⟩
  rw [hfetch] at hpool ⊢
  exact syncFetch_staged hcore hdriver hpool

/-! ### The window -/

/-- Everything from `lo` up to `hi` is staged for the selection, nothing else is, and the driver was
called once for each timestep from `t₀` up to `hi`. -/
structure Window (cfg : SyncConfig) (bbox : Option Bbox) (t₀ : Int) (s : SyncQueue)
    (lo hi : Int) : Prop where
  inv : Inv cfg s
  depth : s.stage.queue.depth = cfg.depth
  total : s.stage.queue.totalTimesteps = cfg.info.totalTimesteps
  kicked : s.stage.queue.kickedOff = true
  latched : s.stage.queue.latchedBbox = bbox
  staged : ∀ t, (s.stage.queue.completed.lookup t).isSome ↔ lo ≤ t ∧ t < hi
  selection : ∀ t, lo ≤ t → t < hi → s.stage.queue.fetchedBbox.lookup t = bbox
  clean : ∀ t, s.stage.queue.failed.lookup t = none
  once : ∀ t, s.reads.count t = if t₀ ≤ t ∧ t < hi then 1 else 0

/-- **A fetch at the end of the window** makes it longer by one. -/
theorem Window.extend (hw : Window cfg bbox t₀ s lo hi) (hlo : lo ≤ hi) (h₀ : t₀ ≤ hi)
    (hdriver : cfg.directRead hi bbox ≠ none)
    (hpool : (scheduleFetch cfg s hi).exhausted = false) :
    Window cfg bbox t₀ (scheduleFetch cfg s hi) lo (hi + 1) := by
  -- the end of the window is not tracked, so it is fetched
  have hcompleted : s.stage.queue.completed.lookup hi = none := by
    rw [← Option.not_isSome_iff_eq_none, hw.staged]
    omega
  obtain ⟨⟨buf, hqueue⟩, hreads⟩ := scheduleFetch_staged hw.inv hcompleted (hw.clean hi)
    (by rw [hw.latched]; exact hdriver) hpool
  have hinv := (Fetched.scheduleFetch hw.inv hi).inv
  refine ⟨hinv, ?_, ?_, ?_, ?_, fun t => ?_, fun t hlt hth => ?_, fun t => ?_, fun t => ?_⟩
  · rw [hqueue]
    exact hw.depth
  · rw [hqueue]
    exact hw.total
  · rw [hqueue]
    exact hw.kicked
  · rw [hqueue]
    exact hw.latched
  · have hlookup : (scheduleFetch cfg s hi).stage.queue.completed.lookup t =
        if t = hi then some buf else s.stage.queue.completed.lookup t := by
      rw [hqueue]
      exact StepMap.lookup_insert _ hi t buf
    rw [hlookup]
    split
    · simp only [Option.isSome_some, true_iff]
      omega
    · rw [hw.staged]
      omega
  · rw [hqueue, Stage.lookup_fetchedBbox_markComplete]
    split
    · exact hw.latched
    · exact hw.selection t hlt (by omega)
  · rw [hqueue]
    exact hw.clean t
  · rw [hreads, List.count_append, hw.once, List.count_singleton]
    -- the one new call
    by_cases ht : t = hi
    · subst ht
      simp [h₀]
    · have hne : (hi == t) = false := by simpa using Ne.symm ht
      rw [hne, if_neg Bool.false_ne_true, Nat.add_zero]
      exact if_congr (by omega) rfl rfl

/-- **The first-touch kick-off** opens the window. -/
theorem Window.opens (hw : Window cfg bbox t₀ s t₀ t₀)
    (hdriver : ∀ t, cfg.directRead t bbox ≠ none) {n : Nat} (hnonneg : 0 ≤ t₀)
    (hmachine : t₀ + n ≤ 2 ^ 63)
    (hpool : ((List.range n).foldl (fun s (k : Nat) => scheduleFetch cfg s (i64 (t₀ + k)))
      s).exhausted = false) :
    Window cfg bbox t₀
      ((List.range n).foldl (fun s (k : Nat) => scheduleFetch cfg s (i64 (t₀ + k))) s) t₀
      (t₀ + n) := by
  induction n with
  | zero => simpa using hw
  | succ n ih =>
    -- below 2^63 the sum of the loop is exact
    have hlast : i64 (t₀ + n) = t₀ + n := i64_of_isInt64 ⟨by omega, by omega⟩
    rw [List.range_succ, List.foldl_append, List.foldl_cons, List.foldl_nil, hlast] at hpool ⊢
    have hbefore := (Fetched.scheduleFetch (Fetched.foldl t₀ (List.range n) hw.inv).inv
      (t₀ + n)).exhausted hpool
    have hnext := (ih (by omega) hbefore).extend (by omega) (by omega) (hdriver _) hpool
    rwa [Nat.cast_add, Nat.cast_one, ← add_assoc]

/-- The latch of the selection that is latched already. -/
theorem Window.latch (hw : Window cfg bbox t₀ s lo hi) :
    Window cfg bbox t₀ (s.latch bbox) lo hi :=
  ⟨hw.inv.latch bbox, hw.depth, hw.total, hw.kicked, rfl, hw.staged, hw.selection, hw.clean,
    hw.once⟩

/-- A caller gives a buffer back. -/
theorem Window.release {buf c : Nat} (hw : Window cfg bbox t₀ s lo hi)
    (ho : s.stage.owner buf = some (.caller c)) :
    Window cfg bbox t₀ (s.withStage (s.stage.release buf)) lo hi where
  inv := hw.inv.release ho
  depth := hw.depth
  total := hw.total
  kicked := hw.kicked
  latched := hw.latched
  staged := hw.staged
  selection := hw.selection
  clean := hw.clean
  once := hw.once

/-- **A read of the first staged timestep** hits, and takes it from the window. -/
theorem Window.hit {c : Nat} (hw : Window cfg bbox t₀ s lo hi) (hlt : lo < hi) :
    ∃ buf st, s.stage.firstCheck c lo bbox = (.ret .ok (some buf), st) ∧
      Window cfg bbox t₀ (s.withStage st) (lo + 1) hi := by
  obtain ⟨buf, hbuf⟩ := Option.isSome_iff_exists.mp ((hw.staged lo).mpr ⟨le_rfl, hlt⟩)
  have hsame : bboxSame (s.stage.queue.fetchedBbox.lookup lo) bbox = true :=
    bboxSame_iff.mpr (by rw [hw.selection lo le_rfl hlt])
  -- staged, not failed, and for this selection
  have hfirst : s.stage.firstCheck c lo bbox = (.ret .ok (some buf),
      (s.stage.withQueue (s.stage.queue.dropCompleted lo)).give buf (.caller c)) := by
    simp only [Stage.firstCheck, Stage.takeFailed, Stage.takeCompleted, hw.clean lo, hbuf, hsame,
      if_true]
  have hpruned := Stage.Pruned.firstCheck s.stage c lo bbox
  have hserved := Stage.Served.firstCheck hw.inv.ok c lo bbox
  rw [hfirst] at hpruned hserved
  refine ⟨buf, _, hfirst, ⟨hw.inv.pruned hserved.ok hpruned, hw.depth, hw.total, hw.kicked,
    hw.latched, fun t => ?_, fun t hlt' hth => ?_, hw.clean, hw.once⟩⟩
  · have hlookup : ((s.stage.queue.completed.erase lo).lookup t).isSome ↔
        lo + 1 ≤ t ∧ t < hi := by
      rw [StepMap.lookup_erase]
      split
      · simp only [Option.isSome_none, Bool.false_eq_true, false_iff]
        omega
      · rw [hw.staged]
        omega
    exact hlookup
  · have hlookup : (s.stage.queue.fetchedBbox.erase lo).lookup t = bbox := by
      rw [StepMap.lookup_erase, if_neg (by omega)]
      exact hw.selection t (by omega) hth
    exact hlookup

/-- A call that finds its buffer staged. -/
theorem getBuffer_hit {buf : Nat} {st : Stage} (wakeups : Nat)
    (h : (kickOff cfg s t bbox).stage.firstCheck s.ncalls t bbox =
      (.ret .ok (some buf), st)) :
    getBuffer cfg s t bbox wakeups = ((.ok, some buf),
      (kickOff cfg s t bbox).withStage st) := by
  simp only [getBuffer, h]

/-! ### Reading in order -/

/-- The timesteps from `t₀` up to `t` have been read and scheduled on, one after the other; with
`got`, timestep `t` has been read too. Buffers come back at any time. -/
inductive Reads (cfg : SyncConfig) (bbox : Option Bbox) (t₀ : Int) : Int → Bool → SyncQueue → Prop
  | start : Reads cfg bbox t₀ t₀ false (start cfg)
  | get {t : Int} {s : SyncQueue} (wakeups : Nat) : Reads cfg bbox t₀ t false s →
      t < cfg.info.totalTimesteps →
      Reads cfg bbox t₀ t true (getBuffer cfg s t bbox wakeups).2
  | next {t : Int} {s : SyncQueue} : Reads cfg bbox t₀ t true s →
      Reads cfg bbox t₀ (t + 1) false (scheduleNext cfg s t)
  | release {t : Int} {got : Bool} {s : SyncQueue} {buf c : Nat} : Reads cfg bbox t₀ t got s →
      s.stage.owner buf = some (.caller c) →
      Reads cfg bbox t₀ t got (s.withStage (s.stage.release buf))

/-- The end of the window of a host that is to read timestep `t`. -/
def windowEnd (cfg : SyncConfig) (t : Int) : Int := min (t + cfg.depth) cfg.info.totalTimesteps

/-- Where the window stands in a run. -/
inductive Standing (cfg : SyncConfig) (bbox : Option Bbox) (t₀ : Int) :
    Int → Bool → SyncQueue → Prop
  | fresh {s : SyncQueue} (hinv : Inv cfg s)
      (hqueue : s.stage.queue = .create cfg.depth cfg.datasetId cfg.varName cfg.info)
      (hreads : s.reads = []) : Standing cfg bbox t₀ t₀ false s
  | ahead {t : Int} {s : SyncQueue} (h₀ : t₀ ≤ t)
      (hw : Window cfg bbox t₀ s t (windowEnd cfg t)) : Standing cfg bbox t₀ t false s
  | behind {t : Int} {s : SyncQueue} (h₀ : t₀ ≤ t) (hlt : t < cfg.info.totalTimesteps)
      (hw : Window cfg bbox t₀ s (t + 1) (windowEnd cfg t)) : Standing cfg bbox t₀ t true s

section Run

variable (hdepth : PrefetchQueue.kMinDepth ≤ cfg.depth ∧ cfg.depth ≤ PrefetchQueue.kMaxDepth)
  (hdriver : ∀ t, cfg.directRead t bbox ≠ none)

include hdepth hdriver

/-- The first read: the window is opened at the timestep the host asks for. -/
theorem Window.first (hinv : Inv cfg s)
    (hqueue : s.stage.queue = .create cfg.depth cfg.datasetId cfg.varName cfg.info)
    (hreads : s.reads = []) (hnonneg : 0 ≤ t₀) (hlt : t₀ < cfg.info.totalTimesteps)
    (htotal : cfg.info.totalTimesteps < 2 ^ 63)
    (hpool : (kickOff cfg s t₀ bbox).exhausted = false) :
    Window cfg bbox t₀ (kickOff cfg s t₀ bbox) t₀ (windowEnd cfg t₀) := by
  have hcreate : (PrefetchQueue.create cfg.depth cfg.datasetId cfg.varName cfg.info).depth =
      cfg.depth := by
    simp only [PrefetchQueue.create]
    rw [if_neg (by omega), if_neg (by omega)]
  have hempty : Window cfg bbox t₀ (s.latch bbox).markKickedOff t₀ t₀ := by
    refine ⟨(hinv.latch bbox).markKickedOff, ?_, ?_, rfl, rfl, fun t => ?_, by omega, fun t => ?_,
      fun t => ?_⟩
    · exact (congrArg PrefetchQueue.depth hqueue).trans hcreate
    · exact congrArg PrefetchQueue.totalTimesteps hqueue
    · have hnone : s.stage.queue.completed.lookup t = none := by
        rw [hqueue]
        rfl
      have : (s.stage.queue.completed.lookup t).isSome ↔ t₀ ≤ t ∧ t < t₀ := by
        simp only [hnone, Option.isSome_none, Bool.false_eq_true, false_iff]
        omega
      exact this
    · have hnone : s.stage.queue.failed.lookup t = none := by
        rw [hqueue]
        rfl
      exact hnone
    · rw [if_neg (by omega)]
      exact congrArg (List.count t) hreads
  have hkick : kickOff cfg s t₀ bbox =
      scheduleWindow cfg (s.latch bbox).markKickedOff t₀ := by
    have hnot : s.stage.queue.kickedOff = false := by
      rw [hqueue]
      rfl
    simp only [kickOff, hnot, Bool.false_eq_true, if_false]
  rw [hkick] at hpool ⊢
  -- the window has `depth` timesteps, or what is left of the record
  have hcount : t₀ + ((s.latch bbox).markKickedOff.stage.queue.windowCount t₀ : Nat) =
      windowEnd cfg t₀ := by
    simp only [PrefetchQueue.windowCount, hempty.depth, hempty.total, windowEnd]
    rw [i64_of_isInt64 ⟨by omega, by omega⟩]
    omega
  have hopen := hempty.opens hdriver hnonneg (by rw [hcount]; unfold windowEnd; omega) hpool
  rwa [hcount] at hopen

/-- **A read** in order is a hit. -/
theorem Standing.get (wakeups : Nat) (h : Standing cfg bbox t₀ t false s) (hnonneg : 0 ≤ t₀)
    (hlt : t < cfg.info.totalTimesteps) (htotal : cfg.info.totalTimesteps < 2 ^ 63)
    (hpool : (getBuffer cfg s t bbox wakeups).2.exhausted = false) :
    Standing cfg bbox t₀ t true (getBuffer cfg s t bbox wakeups).2 := by
  have hend : t < windowEnd cfg t := by
    have hmin : 1 ≤ cfg.depth := hdepth.1
    unfold windowEnd
    omega
  -- the first call opens the window, the others find it
  have hwindow : t₀ ≤ t ∧ Window cfg bbox t₀ (kickOff cfg s t bbox) t (windowEnd cfg t) := by
    cases h with
    | fresh hinv hqueue hreads =>
      exact ⟨le_rfl, .first hdepth hdriver hinv hqueue hreads hnonneg hlt htotal
        (getBuffer_pool hpool).1⟩
    | ahead h₀ hw =>
      refine ⟨h₀, ?_⟩
      have hkick : kickOff cfg s t bbox = s.latch bbox := by
        simp only [kickOff, hw.kicked, if_true]
      rw [hkick]
      exact hw.latch
  obtain ⟨buf, st, hfirst, hw⟩ := hwindow.2.hit (c := s.ncalls) hend
  rw [getBuffer_hit wakeups hfirst]
  exact .behind hwindow.1 hlt hw

/-- **`schedule_next`** replenishes the window, as long as its end can be computed. -/
theorem Standing.next (h : Standing cfg bbox t₀ t true s) (hnonneg : 0 ≤ t₀)
    (hbound : t + cfg.depth < 2 ^ 63) (hpool : (scheduleNext cfg s t).exhausted = false) :
    Standing cfg bbox t₀ (t + 1) false (scheduleNext cfg s t) := by
  obtain ⟨h₀, hlt, hw⟩ : t₀ ≤ t ∧ t < cfg.info.totalTimesteps ∧
      Window cfg bbox t₀ s (t + 1) (windowEnd cfg t) := by
    cases h with
    | behind h₀ hlt hw => exact ⟨h₀, hlt, hw⟩
  have hnext : s.stage.queue.nextTimestep t = t + cfg.depth := by
    rw [PrefetchQueue.nextTimestep, hw.depth]
    exact i64_of_isInt64 ⟨by omega, hbound⟩
  simp only [scheduleNext, hnext, hw.total] at hpool ⊢
  refine .ahead (by omega) ?_
  split at hpool
  -- the end of the record has been reached
  · next hreached =>
    have hsame : windowEnd cfg t = windowEnd cfg (t + 1) := by
      unfold windowEnd
      omega
    rw [if_pos hreached, ← hsame]
    exact hw
  · next hmore =>
    have hhi : windowEnd cfg t = t + cfg.depth := by
      unfold windowEnd
      omega
    have hhi' : windowEnd cfg (t + 1) = t + cfg.depth + 1 := by
      unfold windowEnd
      omega
    rw [hhi] at hw
    rw [if_neg hmore, hhi']
    have hmin : 1 ≤ cfg.depth := hdepth.1
    exact hw.extend (by omega) (by omega) (hdriver _) hpool

/-- **Past the last machine integer** the end of the window comes out negative, and is fetched. -/
theorem Standing.spoiled (h : Standing cfg bbox t₀ t true s) (hnonneg : 0 ≤ t₀)
    (htotal : cfg.info.totalTimesteps < 2 ^ 63) (hbound : 2 ^ 63 ≤ t + cfg.depth)
    (hpool : (scheduleNext cfg s t).exhausted = false) :
    i64 (t + cfg.depth) < 0 ∧ i64 (t + cfg.depth) ∈ (scheduleNext cfg s t).reads := by
  obtain ⟨h₀, hlt, hw⟩ : t₀ ≤ t ∧ t < cfg.info.totalTimesteps ∧
      Window cfg bbox t₀ s (t + 1) (windowEnd cfg t) := by
    cases h with
    | behind h₀ hlt hw => exact ⟨h₀, hlt, hw⟩
  have hwrap : i64 (t + cfg.depth) < 0 := by
    have hmax : cfg.depth ≤ 1024 := hdepth.2
    rw [i64, Int.bmod_def]
    split <;> omega
  have hnext : s.stage.queue.nextTimestep t = i64 (t + cfg.depth) := by
    rw [PrefetchQueue.nextTimestep, hw.depth]
  -- a negative timestep passes the check against the end of the record
  have hmore : ¬ s.stage.queue.totalTimesteps ≤ i64 (t + cfg.depth) := by
    rw [hw.total]
    omega
  have hcompleted : s.stage.queue.completed.lookup (i64 (t + cfg.depth)) = none := by
    rw [← Option.not_isSome_iff_eq_none, hw.staged]
    omega
  simp only [scheduleNext, hnext, if_neg hmore] at hpool ⊢
  obtain ⟨-, hreads⟩ := scheduleFetch_staged hw.inv hcompleted (hw.clean _)
    (by rw [hw.latched]; exact hdriver _) hpool
  rw [hreads]
  exact ⟨hwrap, List.mem_append_right _ (List.mem_singleton_self _)⟩

/-- **Every run** of reads in order keeps to the window until its end cannot be computed, and then a
timestep below zero is read. -/
theorem Reads.standing_or_spoiled {got : Bool} (h : Reads cfg bbox t₀ t got s) (hnonneg : 0 ≤ t₀)
    (htotal : cfg.info.totalTimesteps < 2 ^ 63) (hpool : s.exhausted = false) :
    (t = t₀ ∨ t + cfg.depth ≤ 2 ^ 63) ∧ Standing cfg bbox t₀ t got s ∨
      (t₀ < t ∧ 2 ^ 63 < t + cfg.depth) ∧ ∃ x, x < 0 ∧ x ∈ s.reads := by
  induction h with
  | start => exact .inl ⟨.inl rfl, .fresh (.start cfg) rfl rfl⟩
  | get wakeups hreads hlt ih =>
    rcases ih (getBuffer_pool hpool).2 with ⟨hbound, hs⟩ | ⟨hbound, x, hx, hmem⟩
    · exact .inl ⟨hbound, hs.get hdepth hdriver wakeups hnonneg hlt htotal hpool⟩
    · have hlast := Lasting.mem_reads cfg x
      exact .inr ⟨hbound, x, hx, hlast.answer wakeups (hlast.kickOff hmem)⟩
  | @next t s hreads ih =>
    rcases ih (scheduleNext_pool hpool) with ⟨hbound, hs⟩ | ⟨hbound, x, hx, hmem⟩
    · have h₀ : t₀ ≤ t := by
        cases hs with
        | behind h₀ => exact h₀
      by_cases hsum : t + cfg.depth < 2 ^ 63
      · exact .inl ⟨.inr (by omega), hs.next hdepth hdriver hnonneg hsum hpool⟩
      -- the first sum that wraps around
      · exact .inr ⟨by omega, _, hs.spoiled hdepth hdriver hnonneg htotal (by omega) hpool⟩
    · exact .inr ⟨by omega, x, hx, (Lasting.mem_reads cfg x).scheduleNext hmem⟩
  | release hreads ho ih =>
    rcases ih hpool with ⟨hbound, hs⟩ | hspoiled
    · refine .inl ⟨hbound, ?_⟩
      cases hs with
      | fresh hinv hqueue hreads => exact .fresh (hinv.release ho) hqueue hreads
      | ahead h₀ hw => exact .ahead h₀ (hw.release ho)
      | behind h₀ hlt hw => exact .behind h₀ hlt (hw.release ho)
    · exact .inr hspoiled

end Run

end Window

/-! ### Exactness -/

/-- What is staged and what was read when the last read was of timestep `t`. -/
structure Exact (cfg : SyncConfig) (t₀ t : Int) (s : SyncQueue) : Prop where
  staged : ∀ t', (s.stage.queue.completed.lookup t').isSome ↔
    t + 1 ≤ t' ∧ t' ≤ min (t + cfg.depth) (cfg.info.totalTimesteps - 1)
  idle : s.stage.queue.pending = ∅
  clean : ∀ t', s.stage.queue.failed.lookup t' = none
  once : ∀ t', s.reads.count t' =
    if t₀ ≤ t' ∧ t' ≤ min (t + cfg.depth) (cfg.info.totalTimesteps - 1) then 1 else 0

/-- A window leaves exactly its own timesteps. -/
theorem Window.exact {cfg : SyncConfig} {bbox : Option Bbox} {t₀ t : Int} {s : SyncQueue}
    (hw : Window cfg bbox t₀ s (t + 1) (windowEnd cfg (t + 1))) : Exact cfg t₀ t s := by
  have hend : windowEnd cfg (t + 1) = min (t + cfg.depth) (cfg.info.totalTimesteps - 1) + 1 := by
    unfold windowEnd
    omega
  rw [hend] at hw
  refine ⟨fun t' => ?_, hw.inv.idle, hw.clean, fun t' => ?_⟩
  · rw [hw.staged, Int.lt_add_one_iff]
  · rw [hw.once]
    exact if_congr (by rw [Int.lt_add_one_iff]) rfl rfl

/-- **The look-ahead window is exact** in a run of reads in order, from the first timestep `t₀` to
the last one `t`, by a driver that never fails and a pool that never runs out, if and only if the
end of the window is a machine integer. -/
theorem window_exact_iff {cfg : SyncConfig} {bbox : Option Bbox} {t₀ t : Int} {s : SyncQueue}
    (hdepth : PrefetchQueue.kMinDepth ≤ cfg.depth ∧ cfg.depth ≤ PrefetchQueue.kMaxDepth)
    (htotal : cfg.info.totalTimesteps < 2 ^ 63) (hdriver : ∀ t, cfg.directRead t bbox ≠ none)
    (hnonneg : 0 ≤ t₀) (hread : t₀ ≤ t) (h : Reads cfg bbox t₀ (t + 1) false s)
    (hpool : s.exhausted = false) :
    Exact cfg t₀ t s ↔ t + cfg.depth < 2 ^ 63 := by
  rcases h.standing_or_spoiled hdepth hdriver hnonneg htotal hpool with
    ⟨hbound, hs⟩ | ⟨⟨-, hbound⟩, x, hx, hmem⟩
  · refine ⟨fun _ => by omega, fun _ => ?_⟩
    generalize hnext : t + 1 = next at hs
    cases hs with
    | fresh => omega
    | ahead h₀ hw => exact Window.exact (by rw [hnext]; exact hw)
  -- a call for a timestep before the first one
  · refine ⟨fun hexact => ?_, fun _ => by omega⟩
    have hcount := hexact.once x
    rw [if_neg (by omega), List.count_eq_zero] at hcount
    exact absurd hmem hcount

/-! ### Records of one byte that can be read for ever -/

def endlessRecord (total : Int) : SyncConfig where
  depth := 2
  datasetId := 1
  varName := [118]
  info := ⟨some .u8, ⟨1, fun _ => 1, fun _ => 0⟩, total⟩
  pool := PoolRun.pairArgs
  read _ _ := some [42]
  fits := by
    intro t bbox payload h
    obtain rfl := Option.some.inj h
    exact VariableInfo.acquireBytes_pos (by decide) bbox

theorem endlessRecord_answers (total t : Int) (bbox : Option Bbox) :
    (endlessRecord total).directRead t bbox ≠ none := nofun

/-- The first of three records, whose buffer comes back before the next fetch. -/
theorem window_exact_three :
    ∃ s, Reads (endlessRecord 3) none 0 (0 + 1) false s ∧ Exact (endlessRecord 3) 0 0 s :=
  have hget : Reads (endlessRecord 3) none 0 0 true _ := .get 0 .start (by decide)
  have hback : (getBuffer (endlessRecord 3) (start _) 0 none 0).2.stage.owner 0 =
      some (.caller 0) := by decide +kernel
  have h : Reads (endlessRecord 3) none 0 (0 + 1) false _ := .next (.release hget hback)
  ⟨_, h, (window_exact_iff (by decide) (by decide) (endlessRecord_answers 3 · none) (by decide)
    (by decide) h (by decide +kernel)).2 (by decide)⟩

/-- The last but one timestep of the longest record there is: `schedule_next` computes `2 ^ 63` as
the end of the window, which the machine has as `-2 ^ 63`, and has that timestep read and staged. -/
theorem longest_record_wraps :
    ∃ s, Reads (endlessRecord (2 ^ 63 - 1)) none (2 ^ 63 - 2) (2 ^ 63 - 2 + 1) false s ∧
      s.exhausted = false ∧ s.reads = [2 ^ 63 - 2, -2 ^ 63] ∧
      (s.stage.queue.completed.lookup (-2 ^ 63)).isSome ∧
      ¬ Exact (endlessRecord (2 ^ 63 - 1)) (2 ^ 63 - 2) (2 ^ 63 - 2) s := by
  refine ⟨_, .next (.get 0 .start (by decide)), by decide +kernel, by decide +kernel,
    by decide +kernel, fun hexact => ?_⟩
  have hcount := hexact.once (-2 ^ 63)
  revert hcount
  decide +kernel

end SyncQueue

end Amio
