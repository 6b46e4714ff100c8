import Amio.Prefetch.Queue

/-!
# What the sections of the prefetch queue do

`Stage.Ok` is the invariant of the queue with its pool: every staged buffer belongs to the queue
under its timestep and was last filled by the read that `fetched_bbox_` says. Each critical section
is specified by what it does to the buffer of one timestep and by the frame `Stage.Keeps`: nobody
else's buffer changes.
-/

namespace Amio

namespace Stage

variable {s s' s'' : Stage} {c i j : Nat} {t : Int} {bbox : Option Bbox} {k : Keeper} {v : Verdict}

/-- Buffer `i` holds what a driver read of timestep `t` with selection `bbox` delivered. -/
def Holds (s : Stage) (i : Nat) (t : Int) (bbox : Option Bbox) : Prop :=
  s.lastRead i = some (s.queue.driverRead t bbox (s.pool.payload i))

/-- The invariant of the queue and its pool. -/
structure Ok (s : Stage) : Prop where
  owned : s.pool.OwnedBy s.owner
  -- a staged buffer is what its entry in `fetched_bbox_` says it is
  staged : ∀ t i, s.queue.completed.lookup t = some i →
    s.owner i = some (.staged t) ∧ s.Holds i t (s.queue.fetchedBbox.lookup t)
  -- `get_buffer` returns what is recorded here, so a failure never reads as success
  errors : ∀ t err, s.queue.failed.lookup t = some err → err ≠ .ok

/-- From `s` to `s'` the buffers of `k` are as they were. -/
structure Spares (s s' : Stage) (k : Keeper) : Prop where
  reads : s'.queue.driverRead = s.queue.driverRead
  kept : ∀ i, s.owner i = some k →
    s'.owner i = some k ∧ s'.pool.buf i = s.pool.buf i ∧ s'.lastRead i = s.lastRead i

/-- What is in a buffer that is spared stays there. -/
theorem Spares.holds (h : s.Spares s' k) (ho : s.owner i = some k) (hi : s.Holds i t bbox) :
    s'.Holds i t bbox := by
  obtain ⟨-, hb, hr⟩ := h.kept i ho
  unfold Holds at hi ⊢
  rw [hr, hi, h.reads, StagingPool.payload_congr hb]

/-- From `s` to `s'` the buffers of everybody but `k` are as they were. -/
def Keeps (s s' : Stage) (k : Keeper) : Prop := ∀ k', k' ≠ k → s.Spares s' k'

theorem Spares.trans (h : s.Spares s' k) (h' : s'.Spares s'' k) : s.Spares s'' k where
  reads := h'.reads.trans h.reads
  kept := by
    intro i hk
    obtain ⟨ho, hb, hr⟩ := h.kept i hk
    obtain ⟨ho', hb', hr'⟩ := h'.kept i ho
    exact ⟨ho', hb'.trans hb, hr'.trans hr⟩

theorem Keeps.refl (s : Stage) (k : Keeper) : s.Keeps s k :=
  fun _ _ => ⟨rfl, fun _ h => ⟨h, rfl, rfl⟩⟩

theorem Keeps.trans (h : s.Keeps s' k) (h' : s'.Keeps s'' k) : s.Keeps s'' k :=
  fun k' hne => (h k' hne).trans (h' k' hne)

/-- The invariant after a step that changes the pool and the owners only for `k`, when `completed_`
lost at most the timestep that `k` stands for. -/
theorem Ok.of_keeps (hs : s.Ok) (hk : s.Keeps s' k) (howned : s'.pool.OwnedBy s'.owner)
    (hcompleted : ∀ t i, s'.queue.completed.lookup t = some i →
      s.queue.completed.lookup t = some i ∧ .staged t ≠ k)
    (hfetched : ∀ t i, s'.queue.completed.lookup t = some i →
      s'.queue.fetchedBbox.lookup t = s.queue.fetchedBbox.lookup t)
    (hfailed : ∀ t err, s'.queue.failed.lookup t = some err → err ≠ .ok) : s'.Ok where
  owned := howned
  staged := by
    intro t i hi
    obtain ⟨hold, hne⟩ := hcompleted t i hi
    obtain ⟨ho, hh⟩ := hs.staged t i hold
    rw [hfetched t i hi]
    exact ⟨((hk _ hne).kept i ho).1, (hk _ hne).holds ho hh⟩
  errors := hfailed

/-! ### Primitive changes -/

/-- The bookkeeping touches no buffer. -/
theorem keeps_withQueue (q : PrefetchQueue) (h : q.driverRead = s.queue.driverRead) (k : Keeper) :
    s.Keeps (s.withQueue q) k :=
  fun _ _ => ⟨h, fun _ ho => ⟨ho, rfl, rfl⟩⟩

/-- Work on one buffer of `k` keeps the buffers of the others. -/
theorem keeps_of_owner (ho : s.owner i = some k)
    (hread : s'.queue.driverRead = s.queue.driverRead)
    (hframe : ∀ j, j ≠ i → s'.owner j = s.owner j ∧ s'.pool.buf j = s.pool.buf j ∧
      s'.lastRead j = s.lastRead j) : s.Keeps s' k := by
  refine fun k' hne => ⟨hread, fun j hj => ?_⟩
  have hji : j ≠ i := by
    rintro rfl
    rw [ho] at hj
    exact hne (Option.some.inj hj).symm
  obtain ⟨h1, h2, h3⟩ := hframe j hji
  exact ⟨h1.trans hj, h2, h3⟩

/-- A release touches its own buffer only. -/
theorem keeps_release (ho : s.owner i = some k) : s.Keeps (s.release i) k :=
  keeps_of_owner ho rfl fun _ hj =>
    ⟨Function.update_of_ne hj _ _, StagingPool.release_buf_of_ne s.pool hj, rfl⟩

theorem keeps_give {k' : Keeper} (ho : s.owner i = some k) : s.Keeps (s.give i k') k :=
  keeps_of_owner ho rfl fun _ hj => ⟨Function.update_of_ne hj _ _, rfl, rfl⟩

theorem keeps_deliver {r : DriverRead} (ho : s.owner i = some k) : s.Keeps (s.deliver i r) k :=
  keeps_of_owner ho rfl fun _ hj =>
    ⟨rfl, Function.update_of_ne hj _ _, Function.update_of_ne hj _ _⟩

/-- The invariant reads only part of the queue. -/
theorem Ok.withQueue (hs : s.Ok) {q : PrefetchQueue} (hread : q.driverRead = s.queue.driverRead)
    (hcompleted : q.completed = s.queue.completed) (hfetched : q.fetchedBbox = s.queue.fetchedBbox)
    (hfailed : ∀ t err, q.failed.lookup t = some err → err ≠ .ok) : (s.withQueue q).Ok where
  owned := hs.owned
  staged := by
    intro t i hi
    simp only [Stage.withQueue, hcompleted, hfetched, Holds, hread] at hi ⊢
    exact hs.staged t i hi
  errors := hfailed

/-- The changes of `schedule_fetch`, of the latch and of the kick-off flag: they touch no buffer. -/
theorem Ok.requeue (hs : s.Ok) (q : PrefetchQueue) (hread : q.driverRead = s.queue.driverRead)
    (hcompleted : q.completed = s.queue.completed) (hfetched : q.fetchedBbox = s.queue.fetchedBbox)
    (hfailed : q.failed = s.queue.failed) :
    (s.withQueue q).Ok ∧ ∀ k, s.Keeps (s.withQueue q) k :=
  ⟨hs.withQueue hread hcompleted hfetched (by rw [hfailed]; exact hs.errors),
    keeps_withQueue q hread⟩

theorem Ok.dropFailed (hs : s.Ok) (t : Int) : (s.withQueue (s.queue.dropFailed t)).Ok := by
  refine hs.withQueue rfl rfl rfl ?_
  intro t' err h
  simp only [PrefetchQueue.dropFailed, StepMap.lookup_erase] at h
  split at h
  · cases h
  · exact hs.errors t' err h

/-- Taking or dropping the staged buffer of `t` leaves the rest staged. `fetched_bbox_` may or may
not keep its entry. -/
theorem Ok.unstage (hs : s.Ok) (hi : s.queue.completed.lookup t = some i) {q : PrefetchQueue}
    (hq : q = s.queue.dropCompleted t ∨
      q = { s.queue with completed := s.queue.completed.erase t }) :
    (∀ k, ((s.withQueue q).give i k).Ok) ∧ ((s.withQueue q).release i).Ok := by
  obtain ⟨ho, -⟩ := hs.staged t i hi
  have hread : q.driverRead = s.queue.driverRead := by rcases hq with rfl | rfl <;> rfl
  have hcompleted : ∀ t' j, q.completed.lookup t' = some j →
      s.queue.completed.lookup t' = some j ∧ Keeper.staged t' ≠ .staged t := by
    intro t' j hj
    have : AList.lookup t' (s.queue.completed.erase t) = some j := by
      rcases hq with rfl | rfl <;> exact hj
    rw [StepMap.lookup_erase] at this
    split at this
    · cases this
    · next hne => exact ⟨this, fun h => hne (Keeper.staged.inj h)⟩
  -- the entries of the other timesteps are as they were, whichever of the two it is
  have hfetched : ∀ t' j, q.completed.lookup t' = some j →
      q.fetchedBbox.lookup t' = s.queue.fetchedBbox.lookup t' := by
    intro t' j hj
    have hne := (hcompleted t' j hj).2
    rcases hq with rfl | rfl
    · simp only [PrefetchQueue.dropCompleted, StepMap.lookup_erase]
      exact if_neg fun h => hne (by rw [h])
    · rfl
  have hfailed : ∀ t' err, q.failed.lookup t' = some err → err ≠ .ok := by
    rcases hq with rfl | rfl <;> exact hs.errors
  have hkeep := keeps_withQueue q hread (.staged t)
  constructor
  · intro k
    exact hs.of_keeps (hkeep.trans (keeps_give ho)) (hs.owned.transfer ho k) hcompleted hfetched
      hfailed
  · exact hs.of_keeps (hkeep.trans (keeps_release ho)) (hs.owned.release ho).1 hcompleted hfetched
      hfailed

/-! ### The steps of a fetch -/

section Fetch

variable {f : Nat} {sel : Option Bbox}

/-- Work on a buffer that is not staged: what is staged stays staged. -/
theorem Ok.unstaged (hs : s.Ok) {s' : Stage} (hk : s.Keeps s' k) (hne : ∀ t, k ≠ .staged t)
    (howned : s'.pool.OwnedBy s'.owner) (hqueue : s'.queue = s.queue) : s'.Ok := by
  refine hs.of_keeps hk howned ?_ ?_ ?_
  · intro t i hi
    rw [hqueue] at hi
    exact ⟨hi, (hne t).symm⟩
  · intro t i _
    rw [hqueue]
  · rw [hqueue]
    exact hs.errors

/-- The buffer that an `acquire` returns was nobody's. -/
theorem Ok.acquired (hs : s.Ok) {r : Nat} {alloc : Bool} {p' : StagingPool}
    (ha : s.pool.acquireOnce r alloc = (.got i, p') ∨ s.pool.acquireFinal r alloc = (.got i, p'))
    (k : Keeper) (hk : ∀ t, k ≠ .staged t) :
    (s.acquired p' i k).Ok ∧ ∀ k', s.Spares (s.acquired p' i k) k' := by
  obtain ⟨hnone, hun, hown⟩ := hs.owned.got ha
  have hspares : ∀ k', s.Spares (s.acquired p' i k) k' := by
    refine fun k' => ⟨rfl, fun j hj => ⟨?_, hun j (by simp [hj]), rfl⟩⟩
    refine (Function.update_of_ne ?_ _ _).trans hj
    rintro rfl
    rw [hnone] at hj
    cases hj
  exact ⟨hs.unstaged (fun k' _ => hspares k') hk (hown k) rfl, hspares⟩

/-- An attempt that is refused. -/
theorem Ok.denied (hs : s.Ok) {r : Nat} {alloc : Bool} {res : StagingPool.Acquired}
    {p' : StagingPool}
    (ha : s.pool.acquireOnce r alloc = (res, p') ∨ s.pool.acquireFinal r alloc = (res, p'))
    (hne : ∀ j, res ≠ .got j) : (s.withPool p').Ok ∧ ∀ k, s.Spares (s.withPool p') k := by
  obtain ⟨hown, hun⟩ := hs.owned.denied ha hne
  have hspares : ∀ k, s.Spares (s.withPool p') k :=
    fun k => ⟨rfl, fun j hj => ⟨hj, hun j (by simp [hj]), rfl⟩⟩
  exact ⟨hs.unstaged (fun k _ => hspares k) (k := .other) (by simp) hown rfl, hspares⟩

/-- The driver fills a buffer. -/
theorem Ok.deliver (hs : s.Ok) (ho : s.owner i = some (.fetch f)) (r : DriverRead) :
    (s.deliver i r).Ok :=
  hs.unstaged (keeps_deliver ho) (by simp) (hs.owned.fill ho r.payload).1 rfl

/-- A buffer goes back to the pool. -/
theorem Ok.release (hs : s.Ok) (ho : s.owner i = some k) (hne : ∀ t, k ≠ .staged t) :
    (s.release i).Ok :=
  hs.unstaged (keeps_release ho) hne (hs.owned.release ho).1 rfl

/-- What the driver has read is in the buffer. -/
theorem holds_deliver (hs : s.Ok) (ho : s.owner i = some k) (payload : List UInt8) :
    (s.deliver i (s.queue.driverRead t sel payload)).Holds i t sel := by
  have hpay : (s.pool.fill i payload).payload i = payload := (hs.owned.fill ho payload).2.1
  simp only [Holds, Stage.deliver, PrefetchQueue.driverRead, Function.update_self, hpay]

@[simp] theorem lookup_fetchedBbox_markComplete (q : PrefetchQueue) (t t' : Int) (buf : Nat)
    (sel : Option Bbox) : (q.markComplete t buf sel).fetchedBbox.lookup t' =
      if t' = t then sel else q.fetchedBbox.lookup t' := by
  cases sel with
  | none => simp only [PrefetchQueue.markComplete, StepMap.lookup_erase]
  | some b => simp only [PrefetchQueue.markComplete, StepMap.lookup_insert]

/-- Staging touches its own buffer only. -/
theorem keeps_complete (ho : s.owner i = some (.fetch f)) :
    s.Keeps (s.complete t i sel) (.fetch f) :=
  (keeps_withQueue (s.queue.markComplete t i sel) rfl _).trans (keeps_give ho)

/-- `mark_complete` stages the buffer under the selection that filled it. -/
theorem Ok.complete (hs : s.Ok) (ho : s.owner i = some (.fetch f)) (hh : s.Holds i t sel) :
    (s.complete t i sel).Ok where
  owned := hs.owned.transfer ho (.staged t)
  staged := by
    intro t' j hj
    have hj' : AList.lookup t' (s.queue.completed.insert t i) = some j := hj
    have hlook : (s.complete t i sel).queue.fetchedBbox.lookup t' =
        if t' = t then sel else s.queue.fetchedBbox.lookup t' :=
      lookup_fetchedBbox_markComplete s.queue t t' i sel
    -- the timestep just fetched, or one that was staged before
    rw [StepMap.lookup_insert] at hj'
    rw [hlook]
    split at hj'
    · next ht =>
      obtain rfl := Option.some.inj hj'
      subst ht
      rw [if_pos rfl]
      exact ⟨Function.update_self _ _ _, hh⟩
    · next ht =>
      obtain ⟨ho', hh'⟩ := hs.staged t' j hj'
      rw [if_neg ht]
      have hspare : s.Spares (s.complete t i sel) (.staged t') := keeps_complete ho _ (by simp)
      exact ⟨(hspare.kept j ho').1, hspare.holds ho' hh'⟩
  errors := hs.errors

theorem Ok.fail (hs : s.Ok) (t : Int) {err : AmioErr} (herr : err ≠ .ok) : (s.fail t err).Ok := by
  refine hs.withQueue rfl rfl rfl ?_
  intro t' e he
  simp only [PrefetchQueue.markFailed, StepMap.lookup_insert] at he
  split at he
  · obtain rfl := Option.some.inj he
    exact herr
  · exact hs.errors t' e he

end Fetch

/-! ### Cancellation -/

/-- The release of a list of buffers leaves the bookkeeping. -/
theorem foldl_release_queue (l : List (Sigma fun _ : Int => Nat)) (s : Stage) :
    (l.foldl (fun s e => s.release e.2) s).queue = s.queue := by
  induction l generalizing s with
  | nil => rfl
  | cons e l ih => exact ih (s.release e.2)

/-- What `cancel` does to the bookkeeping. -/
theorem cancelPending_queue (s : Stage) : s.cancelPending.queue = { s.queue with
    cancelled := true, pending := ∅, completed := ∅, fetchedBbox := ∅, failed := ∅ } :=
  foldl_release_queue _ _

/-- Giving back buffers that are staged touches nothing that is not. -/
theorem release_entries (l : List (Sigma fun _ : Int => Nat)) (hdistinct : (l.map (·.1)).Nodup)
    (howned : s.pool.OwnedBy s.owner) (hl : ∀ e ∈ l, s.owner e.2 = some (.staged e.1)) :
    (l.foldl (fun s e => s.release e.2) s).pool.OwnedBy
      (l.foldl (fun s e => s.release e.2) s).owner ∧
    ∀ k, (∀ t, k ≠ .staged t) → s.Spares (l.foldl (fun s e => s.release e.2) s) k := by
  -- buffers go back one by one; the rest of the list stays staged, since the keys differ
  induction l generalizing s with
  | nil => exact ⟨howned, fun k hk => Keeps.refl s (.staged 0) k (hk 0)⟩
  | cons e l ih =>
    obtain ⟨hnotin, hdistinct'⟩ := List.nodup_cons.mp hdistinct
    have ho := hl e List.mem_cons_self
    have hkeep := keeps_release ho
    obtain ⟨howned', hspare⟩ := ih (s := s.release e.2) hdistinct'
      (howned.release ho).1 (by
        intro e' he'
        have hne : Keeper.staged e'.1 ≠ .staged e.1 := by
          intro h
          refine hnotin (List.mem_map.mpr ⟨e', he', ?_⟩)
          exact Keeper.staged.inj h
        exact ((hkeep _ hne).kept e'.2 (hl e' (List.mem_cons_of_mem _ he'))).1)
    exact ⟨howned', fun k hk => (hkeep k (hk e.1)).trans (hspare k hk)⟩

/-- `cancel` releases the staged buffers and spares the others. -/
theorem Ok.cancelPending (hs : s.Ok) :
    s.cancelPending.Ok ∧ ∀ k, (∀ t, k ≠ .staged t) → s.Spares s.cancelPending k := by
  -- the order in which they go back does not matter for the owners
  have hperm : (s.queue.completed.entries.insertionSort fun a b => a.1 ≤ b.1).Perm
      s.queue.completed.entries := List.perm_insertionSort _ _
  have hdistinct : ((s.queue.completed.entries.insertionSort
      fun a b => a.1 ≤ b.1).map (·.1)).Nodup :=
    (hperm.map _).nodup_iff.mpr s.queue.completed.nodupKeys
  obtain ⟨howned, hspare⟩ := release_entries (s := s.withQueue { s.queue with
    cancelled := true, pending := ∅, completed := ∅, fetchedBbox := ∅, failed := ∅ })
    _ hdistinct hs.owned (by
      intro e he
      have hmem : e ∈ s.queue.completed.entries := hperm.mem_iff.mp he
      exact (hs.staged e.1 e.2 (AList.mem_lookup_iff.mpr hmem)).1)
  refine ⟨⟨howned, ?_, ?_⟩, fun k hk => ⟨?_, ?_⟩⟩
  · intro t i hi
    rw [cancelPending_queue] at hi
    cases hi
  · intro t err herr
    rw [cancelPending_queue] at herr
    cases herr
  · exact (hspare k hk).reads
  · exact (hspare k hk).kept

/-! ### The sections of `get_buffer` -/

/-- A section that call `c` of `get_buffer t bbox` ran and that ended in `v`: it touched the buffer
staged for `t` at most, and if it returned `AMIO_OK` the caller owns a buffer with what was asked
for. -/
structure Served (s s' : Stage) (c : Nat) (t : Int) (bbox : Option Bbox) (v : Verdict) : Prop where
  ok : s'.Ok
  keeps : s.Keeps s' (.staged t)
  returns : ∀ out, v = .ret .ok out →
    ∃ i, out = some i ∧ s'.owner i = some (.caller c) ∧ s'.Holds i t bbox
  errs : ∀ status out, v = .ret status out → status ≠ .ok → out = none

/-- A section that changes nothing and goes on, or returns an error. -/
theorem Served.of_quiet (hs : s.Ok)
    (hv : ∀ status out, v = .ret status out → status ≠ .ok ∧ out = none) :
    Served s s c t bbox v :=
  ⟨hs, .refl s _, fun out h => absurd rfl (hv .ok out h).1, fun _ _ h _ => (hv _ _ h).2⟩

/-- A section after a step that keeps the staged buffer. -/
theorem Served.after (hk : s.Keeps s' (.staged t)) (h : Served s' s'' c t bbox v) :
    Served s s'' c t bbox v :=
  ⟨h.ok, hk.trans h.keeps, h.returns, h.errs⟩

/-- An error is served first. -/
theorem Served.takeFailed (hs : s.Ok) {otherwise : Verdict × Stage}
    (h : Served s otherwise.2 c t bbox otherwise.1) :
    Served s (s.takeFailed t otherwise).2 c t bbox (s.takeFailed t otherwise).1 := by
  unfold Stage.takeFailed
  split
  -- what is recorded is an error, so nothing is promised about a buffer
  · next err herr =>
    refine ⟨hs.dropFailed t, keeps_withQueue (s.queue.dropFailed t) rfl _, ?_, ?_⟩
    · intro out hout
      cases hout
      exact absurd rfl (hs.errors t _ herr)
    · intro status out hout _
      cases hout
      rfl
  · exact h

/-- A staged buffer is served if it matches. -/
theorem Served.takeCompleted (hs : s.Ok) {stale : Stage → Verdict × Stage}
    {absent : Verdict × Stage}
    (hstale : ∀ s', s'.Ok → Served s' (stale s').2 c t bbox (stale s').1)
    (habsent : Served s absent.2 c t bbox absent.1) :
    Served s (s.takeCompleted c t bbox stale absent).2 c t bbox
      (s.takeCompleted c t bbox stale absent).1 := by
  unfold Stage.takeCompleted
  split
  · next i hi =>
    obtain ⟨ho, hh⟩ := hs.staged t i hi
    obtain ⟨hgive, hrelease⟩ := hs.unstage hi (.inl rfl)
    have hkeep : s.Keeps (s.withQueue (s.queue.dropCompleted t)) (.staged t) :=
      keeps_withQueue (s.queue.dropCompleted t) rfl _
    simp only
    split
    · next hsame =>
      refine ⟨hgive _, hkeep.trans (keeps_give ho), ?_, ?_⟩
      · intro out hout
        cases hout
        refine ⟨i, rfl, Function.update_self _ _ _, ?_⟩
        -- `bbox_same` compares what the driver was given
        have hbox := bboxSame_iff.mp hsame
        simp only [Holds, PrefetchQueue.driverRead, hbox] at hh ⊢
        exact hh
      · intro status out hout hne
        cases hout
        exact absurd rfl hne
    · exact Served.after (hkeep.trans (keeps_release ho)) (hstale _ hrelease)
  · exact habsent

/-- A fetch is asked for. -/
theorem Served.needFetch (hs : s.Ok) :
    Served s (s.needFetch t).2 c t bbox (s.needFetch t).1 := by
  refine .of_quiet hs ?_
  intro status out h
  simp only [Stage.needFetch] at h
  split at h <;> cases h

/-- What the first look serves. -/
theorem Served.firstCheck (hs : s.Ok) (c : Nat) (t : Int) (bbox : Option Bbox) :
    Served s (s.firstCheck c t bbox).2 c t bbox (s.firstCheck c t bbox).1 :=
  .takeFailed hs (.takeCompleted hs (fun _ hs' => .needFetch hs') (.needFetch hs))

theorem Served.loopCheck (hs : s.Ok) (c : Nat) (t : Int) (bbox : Option Bbox) :
    Served s (s.loopCheck c t bbox).2 c t bbox (s.loopCheck c t bbox).1 :=
  .takeCompleted hs (fun _ hs' => .of_quiet hs' (by rintro status out ⟨⟩))
    (.of_quiet hs (by rintro status out ⟨⟩))

/-- What the second half of its body serves. -/
theorem Served.waitCheck (hs : s.Ok) (c : Nat) (t : Int) (bbox : Option Bbox) :
    Served s (s.waitCheck t).2 c t bbox (s.waitCheck t).1 := by
  refine .takeFailed hs ?_
  split
  · exact .of_quiet hs (by rintro status out ⟨⟩; exact ⟨by simp, rfl⟩)
  · exact .of_quiet hs (by rintro status out ⟨⟩)

/-- The check after a timeout touches the buffer staged for `t` at most, like the others. -/
theorem Ok.lastCheck (hs : s.Ok) (c : Nat) (t : Int) :
    (s.lastCheck c t).2.Ok ∧ s.Keeps (s.lastCheck c t).2 (.staged t) := by
  unfold Stage.lastCheck
  split
  · next i hi =>
    have hkeep := keeps_withQueue (s := s)
      { s.queue with completed := s.queue.completed.erase t } rfl (.staged t)
    exact ⟨(hs.unstage hi (.inr rfl)).1 _, hkeep.trans (keeps_give (hs.staged t i hi).1)⟩
  · unfold Stage.takeFailed
    split
    · exact ⟨hs.dropFailed t, keeps_withQueue (s.queue.dropFailed t) rfl _⟩
    · exact ⟨hs, .refl s _⟩

/-- … but it serves the call only if the selection happens to match. -/
theorem Served.lastCheck (hs : s.Ok) (c : Nat) (t : Int) (bbox : Option Bbox)
    (hmatch : ∀ i, s.queue.completed.lookup t = some i →
      bboxSame (s.queue.fetchedBbox.lookup t) bbox = true) :
    Served s (s.lastCheck c t).2 c t bbox (s.lastCheck c t).1 := by
  obtain ⟨hok, hkeep⟩ := hs.lastCheck c t
  unfold Stage.lastCheck at hok hkeep ⊢
  split
  · next i hi =>
    rw [hi] at hok hkeep
    obtain ⟨-, hh⟩ := hs.staged t i hi
    refine ⟨hok, hkeep, ?_, ?_⟩
    · intro out hout
      cases hout
      have hbox := bboxSame_iff.mp (hmatch i hi)
      simp only [Holds, PrefetchQueue.driverRead, hbox] at hh ⊢
      exact ⟨i, rfl, Function.update_self _ _ _, hh⟩
    · intro status out hout hne
      cases hout
      exact absurd rfl hne
  · exact .takeFailed hs (.of_quiet hs (by rintro status out ⟨⟩; exact ⟨by simp, rfl⟩))

/-! ### What the sections do to the results -/

/-- `s'` is `s` with the results of timestep `t` possibly erased. -/
structure Pruned (s s' : Stage) (t : Int) : Prop where
  queue : s'.queue = { s.queue with
    completed := s'.queue.completed
    fetchedBbox := s'.queue.fetchedBbox
    failed := s'.queue.failed }
  completed : ∀ t', t' ≠ t → s'.queue.completed.lookup t' = s.queue.completed.lookup t'
  failed : ∀ t', t' ≠ t → s'.queue.failed.lookup t' = s.queue.failed.lookup t'
  completed_self : s'.queue.completed.lookup t = s.queue.completed.lookup t ∨
    s'.queue.completed.lookup t = none
  failed_self : s'.queue.failed.lookup t = s.queue.failed.lookup t ∨
    s'.queue.failed.lookup t = none
  lastRead : s'.lastRead = s.lastRead
  pool : s'.pool.SameConfig s.pool

theorem Pruned.pending (h : s.Pruned s' t) : s'.queue.pending = s.queue.pending := by rw [h.queue]

theorem Pruned.cancelled (h : s.Pruned s' t) : s'.queue.cancelled = s.queue.cancelled := by
  rw [h.queue]

/-- A section stages nothing. -/
theorem Pruned.completed_none (h : s.Pruned s' t) {t' : Int}
    (hnone : s.queue.completed.lookup t' = none) : s'.queue.completed.lookup t' = none := by
  by_cases ht : t' = t
  · subst ht
    rcases h.completed_self with hself | hself
    · exact hself.trans hnone
    · exact hself
  · exact (h.completed t' ht).trans hnone

/-- … and records no failure. -/
theorem Pruned.failed_none (h : s.Pruned s' t) {t' : Int}
    (hnone : s.queue.failed.lookup t' = none) : s'.queue.failed.lookup t' = none := by
  by_cases ht : t' = t
  · subst ht
    rcases h.failed_self with hself | hself
    · exact hself.trans hnone
    · exact hself
  · exact (h.failed t' ht).trans hnone

theorem Pruned.refl (s : Stage) (t : Int) : s.Pruned s t :=
  ⟨rfl, fun _ _ => rfl, fun _ _ => rfl, .inl rfl, .inl rfl, rfl, rfl, rfl, rfl, rfl⟩

theorem Pruned.trans (h : s.Pruned s' t) (h' : s'.Pruned s'' t) : s.Pruned s'' t where
  queue := by rw [h'.queue, h.queue]
  completed t' ht := (h'.completed t' ht).trans (h.completed t' ht)
  failed t' ht := (h'.failed t' ht).trans (h.failed t' ht)
  completed_self := by
    rcases h'.completed_self with h' | h'
    · rw [h']; exact h.completed_self
    · exact .inr h'
  failed_self := by
    rcases h'.failed_self with h' | h'
    · rw [h']; exact h.failed_self
    · exact .inr h'
  lastRead := h'.lastRead.trans h.lastRead
  pool := h'.pool.trans h.pool

theorem Pruned.dropFailed (s : Stage) (t : Int) :
    s.Pruned (s.withQueue (s.queue.dropFailed t)) t where
  queue := rfl
  completed _ _ := rfl
  failed t' ht := (StepMap.lookup_erase _ t t').trans (if_neg ht)
  completed_self := .inl rfl
  failed_self := .inr (AList.lookup_erase t _)
  lastRead := rfl
  pool := ⟨rfl, rfl, rfl, rfl⟩

/-- A staged buffer is taken. -/
theorem Pruned.give {q : PrefetchQueue} (k : Keeper) (i : Nat)
    (hq : q = s.queue.dropCompleted t ∨
      q = { s.queue with completed := s.queue.completed.erase t }) :
    s.Pruned ((s.withQueue q).give i k) t where
  queue := by rcases hq with rfl | rfl <;> rfl
  completed t' ht := by
    rcases hq with rfl | rfl <;> exact (StepMap.lookup_erase _ t t').trans (if_neg ht)
  failed _ _ := by rcases hq with rfl | rfl <;> rfl
  completed_self := by rcases hq with rfl | rfl <;> exact .inr (AList.lookup_erase t _)
  failed_self := by rcases hq with rfl | rfl <;> exact .inl rfl
  lastRead := rfl
  pool := ⟨rfl, rfl, rfl, rfl⟩

/-- A stale buffer is dropped. -/
theorem Pruned.dropStale (s : Stage) (t : Int) (i : Nat) :
    s.Pruned ((s.withQueue (s.queue.dropCompleted t)).release i) t :=
  -- the release differs from handing over in the pool only
  { Pruned.give (s := s) (t := t) .other i (.inl rfl) with
    pool := StagingPool.release_sameConfig s.pool i }

/-- An error is taken first. -/
theorem Pruned.takeFailed {otherwise : Verdict × Stage} (h : s.Pruned otherwise.2 t) :
    s.Pruned (s.takeFailed t otherwise).2 t := by
  unfold Stage.takeFailed
  split
  · exact .dropFailed s t
  · exact h

/-- A staged buffer is taken or dropped. -/
theorem Pruned.takeCompleted {stale : Stage → Verdict × Stage} {absent : Verdict × Stage}
    (hstale : ∀ s' : Stage, s'.Pruned (stale s').2 t) (habsent : s.Pruned absent.2 t) :
    s.Pruned (s.takeCompleted c t bbox stale absent).2 t := by
  unfold Stage.takeCompleted
  split
  · next i _ =>
    simp only
    split
    · exact .give _ _ (.inl rfl)
    · exact (Pruned.dropStale s t i).trans (hstale _)
  · exact habsent

/-- A fetch is asked for. -/
theorem Pruned.needFetch (s : Stage) (t : Int) : s.Pruned (s.needFetch t).2 t := .refl s t

/-- What the first look takes away. -/
theorem Pruned.firstCheck (s : Stage) (c : Nat) (t : Int) (bbox : Option Bbox) :
    s.Pruned (s.firstCheck c t bbox).2 t :=
  .takeFailed (.takeCompleted (fun s' => .needFetch s' t) (.needFetch s t))

/-- What the loop takes away. -/
theorem Pruned.loopCheck (s : Stage) (c : Nat) (t : Int) (bbox : Option Bbox) :
    s.Pruned (s.loopCheck c t bbox).2 t :=
  .takeCompleted (fun s' => .refl s' t) (.refl s t)

/-- What the second half of its body takes away. -/
theorem Pruned.waitCheck (s : Stage) (t : Int) : s.Pruned (s.waitCheck t).2 t := by
  refine .takeFailed ?_
  split <;> exact .refl s t

/-- What the look after the timeout takes away. -/
theorem Pruned.lastCheck (s : Stage) (c : Nat) (t : Int) : s.Pruned (s.lastCheck c t).2 t := by
  unfold Stage.lastCheck
  split
  · exact .give _ _ (.inr rfl)
  · exact .takeFailed (.refl s t)

/-- **How `get_buffer` gets past its first look**: it returns a recorded failure or a buffer with
the right selection, or there is nothing for `t` any more and it schedules a fetch unless one is
pending. -/
theorem firstCheck_cases (s : Stage) (c : Nat) (t : Int) (bbox : Option Bbox) :
    (∃ err, s.queue.failed.lookup t = some err ∧ (s.firstCheck c t bbox).1 = .ret err none) ∨
    (s.queue.failed.lookup t = none ∧
      ∃ i, (s.firstCheck c t bbox).1 = .ret .ok (some i)) ∨
    (s.queue.failed.lookup t = none ∧
      (s.firstCheck c t bbox).2.queue.completed.lookup t = none ∧
      (s.firstCheck c t bbox).1 = if t ∈ s.queue.pending then .proceed else .unlock) := by
  unfold Stage.firstCheck Stage.takeFailed
  -- a failure is reported first, then a completed buffer is looked at
  split
  · next err herr => exact .inl ⟨err, herr, rfl⟩
  · next hfailed =>
    right
    unfold Stage.takeCompleted
    split
    · next i hi =>
      simp only
      split
      · exact .inl ⟨hfailed, i, rfl⟩
      · exact .inr ⟨hfailed, AList.lookup_erase t _, rfl⟩
    · next hnone => exact .inr ⟨hfailed, hnone, rfl⟩

/-- The top of the loop: a buffer with the right selection, a stale one that is dropped, or
nothing. -/
theorem loopCheck_cases (s : Stage) (c : Nat) (t : Int) (bbox : Option Bbox) :
    (∃ i, s.queue.completed.lookup t = some i ∧
      bboxSame (s.queue.fetchedBbox.lookup t) bbox = true ∧
      (s.loopCheck c t bbox).1 = .ret .ok (some i)) ∨
    (∃ i, s.queue.completed.lookup t = some i ∧
      bboxSame (s.queue.fetchedBbox.lookup t) bbox = false ∧
      (s.loopCheck c t bbox).2.queue.completed.lookup t = none ∧
      (s.loopCheck c t bbox).1 = .unlock) ∨
    (s.queue.completed.lookup t = none ∧ s.loopCheck c t bbox = (.proceed, s)) := by
  unfold Stage.loopCheck Stage.takeCompleted
  split
  · next i hi =>
    simp only
    split
    · next hsame => exact .inl ⟨i, hi, hsame, rfl⟩
    · next hsame => exact .inr (.inl ⟨i, hi, by simpa using hsame, AList.lookup_erase t _, rfl⟩)
  · next hnone => exact .inr (.inr ⟨hnone, rfl⟩)

/-- The rest of the loop body. -/
theorem waitCheck_cases (s : Stage) (t : Int) :
    (∃ err, s.queue.failed.lookup t = some err ∧ (s.waitCheck t).1 = .ret err none) ∨
    (s.queue.failed.lookup t = none ∧ s.queue.cancelled = true ∧
      s.waitCheck t = (.ret .backendFailure none, s)) ∨
    (s.queue.failed.lookup t = none ∧ s.queue.cancelled = false ∧
      s.waitCheck t = (.proceed, s)) := by
  unfold Stage.waitCheck Stage.takeFailed
  split
  · next err herr => exact .inl ⟨err, herr, rfl⟩
  · next hfailed =>
    right
    split
    · next hc => exact .inl ⟨hfailed, hc, rfl⟩
    · next hc => exact .inr ⟨hfailed, by simpa using hc, rfl⟩

end Stage

end Amio
