import Amio.Workers.Order
import Mathlib.Data.Set.Finite.Lemmas
import Mathlib.Data.Set.Finite.List

/-!
# Progress of a worker

With nothing in flight and nobody submitting, a worker that keeps calling `try_execute_one` empties
both queues and executes each queued task once. A write task that is not next in line goes to the
back, so that a call may leave the queue as long as it was; what gets shorter then is the way to the
first task that is next in line (`ahead`). There is one as long as a write task is queued, because
the queued tasks of a key are numbered from `exec_seq` on (`exists_ready`).

Between two executions fewer calls return false than write tasks are queued, except that none does
when no write task is queued at all.
-/

namespace Amio

open Lts (tally)

variable {α : Type}

/-- The key whose ordering mutex the worker has. -/
def Worker.holds : Worker α → Option DatasetVariableKey
  | .writing t .locked | .writing t .ran | .writing t .bumped => some t.dvKey
  | _ => none

namespace WorkerRun

variable (s : WorkerRun α)

/-! ### A whole call -/

/-- The next `n` accesses of worker `w`, as far as there are any. -/
def settle (w : Nat) : Nat → WorkerRun α → WorkerRun α
  | 0, s => s
  | n + 1, s =>
    match s.advance w with
    | some s' => settle w n s'
    | none => s

/-- `try_execute_one` by worker `w` from its entry to its return, with no other thread in between
and the prefetch task `top` at the top of the heap. A write task takes six accesses after the
unlock, a prefetch task three. -/
def tryExecuteOne (w top : Nat) : Bool × WorkerRun α :=
  let s := { s with pool := s.pool.tryExecuteOne w top }
  (!(s.pool.worker w).isIdle, settle w 6 s)

/-- Calls of one worker, one after the other, with what they return. -/
inductive Attempts (w : Nat) : WorkerRun α → List Bool → WorkerRun α → Prop
  | nil (s : WorkerRun α) : Attempts w s [] s
  | cons {s s' : WorkerRun α} {bs : List Bool} (top : Nat) (isTop : s.pool.isTop top = true)
      (rest : Attempts w (s.tryExecuteOne w top).2 bs s') :
      Attempts w s ((s.tryExecuteOne w top).1 :: bs) s'

/-- Write task `t` has been executed, and `rest` is queued. -/
def wrote (t : WriteTask α) (rest : List (WriteTask α)) : WorkerRun α :=
  { s with
    pool := { s.pool with
      writeQueue := rest
      dvStates := Function.update s.pool.dvStates t.dvKey { s.pool.dvStates t.dvKey with
        execSeq := (s.pool.dvStates t.dvKey).execSeq + 1 }
      writesCompleted := s.pool.writesCompleted + 1 }
    ran := s.ran ++ [t]
    completed := s.completed ++ [t] }

/-- Prefetch task `t` has been executed, and `rest` is in the heap. -/
def fetched (t : PrefetchTask α) (rest : List (PrefetchTask α)) : WorkerRun α :=
  { s with
    pool := { s.pool with
      prefetchQueue := rest
      prefetchesCompleted := s.pool.prefetchesCompleted + 1 }
    ranPrefetch := s.ranPrefetch ++ [t] }

def withWrites (queue : List (WriteTask α)) : WorkerRun α :=
  { s with pool := { s.pool with writeQueue := queue } }

/-- The task is next in line for its key. -/
def ready (t : WriteTask α) : Bool := decide (t.dvSeq = (s.pool.dvStates t.dvKey).execSeq)

/-- What the write queue is after a look at its front that executed nothing. -/
def rotated : List (WriteTask α) :=
  match s.pool.writeQueue with
  | [] => []
  | t :: rest => rest ++ [t]

section Fields

variable (t : WriteTask α) (rest queue : List (WriteTask α)) (p : PrefetchTask α)
  (heap : List (PrefetchTask α))

@[simp] theorem wrote_writeQueue : (s.wrote t rest).pool.writeQueue = rest := rfl

@[simp] theorem wrote_prefetchQueue :
    (s.wrote t rest).pool.prefetchQueue = s.pool.prefetchQueue := rfl

@[simp] theorem fetched_writeQueue : (s.fetched p heap).pool.writeQueue = s.pool.writeQueue := rfl

@[simp] theorem fetched_prefetchQueue : (s.fetched p heap).pool.prefetchQueue = heap := rfl

@[simp] theorem withWrites_writeQueue : (s.withWrites queue).pool.writeQueue = queue := rfl

@[simp] theorem withWrites_prefetchQueue :
    (s.withWrites queue).pool.prefetchQueue = s.pool.prefetchQueue := rfl

@[simp] theorem withWrites_ready : (s.withWrites queue).ready = s.ready := rfl

end Fields

/-- A look at the front that executes nothing keeps the tasks. -/
theorem rotated_perm : s.rotated.Perm s.pool.writeQueue := by
  unfold rotated
  split
  · next hqueue => rw [hqueue]
  · next t rest hqueue =>
    rw [hqueue]
    exact List.perm_append_singleton t rest

/-- What a call can do. -/
inductive Attempt : Bool → WorkerRun α → Prop
  | wrote {t : WriteTask α} {rest : List (WriteTask α)} (queue : s.pool.writeQueue = t :: rest)
      (next : s.ready t = true) : Attempt true (s.wrote t rest)
  | fetched {t : PrefetchTask α} {top : Nat}
      (late : ∀ u ∈ s.pool.writeQueue.head?, s.ready u = false)
      (found : s.pool.prefetchQueue[top]? = some t) :
      Attempt true ((s.withWrites s.rotated).fetched t (s.pool.prefetchQueue.eraseIdx top))
  | idle (late : ∀ u ∈ s.pool.writeQueue.head?, s.ready u = false)
      (empty : s.pool.prefetchQueue = []) : Attempt false (s.withWrites s.rotated)

variable {s} {s' : WorkerRun α} {w top : Nat}

/-- The accesses of a worker that has dequeued a write task. -/
theorem settle_write {t : WriteTask α} (hw : s.pool.worker w = .writing t .dequeued)
    (hmu : (s.pool.dvStates t.dvKey).mu = none) :
    settle w 6 s = { s with
      pool := { s.pool with
        dvStates := Function.update s.pool.dvStates t.dvKey { s.pool.dvStates t.dvKey with
          execSeq := (s.pool.dvStates t.dvKey).execSeq + 1 }
        worker := Function.update s.pool.worker w .idle
        writesCompleted := s.pool.writesCompleted + 1
        inFlight := s.pool.inFlight - 1 }
      ran := s.ran ++ [t]
      completed := s.completed ++ [t] } := by
  simp [settle, advance, hw, hmu, WorkerPool.setWorker, WorkerPool.setDvState]

theorem settle_prefetch {t : PrefetchTask α} (hw : s.pool.worker w = .prefetching t .dequeued) :
    settle w 6 s = { s with
      pool := { s.pool with
        worker := Function.update s.pool.worker w .idle
        prefetchesCompleted := s.pool.prefetchesCompleted + 1
        inFlight := s.pool.inFlight - 1 }
      ranPrefetch := s.ranPrefetch ++ [t] } := by
  simp [settle, advance, hw, WorkerPool.setWorker]

/-- An idle worker has nothing to settle. -/
theorem settle_idle (hw : s.pool.worker w = .idle) (n : Nat) : settle w n s = s := by
  cases n with
  | zero => rfl
  | succ n => simp only [settle, advance, hw]

/-- The part of a call that is reached when no write task is executed. -/
theorem attempt_prefetch {queue : List (WriteTask α)} (hqueue : queue = s.rotated)
    (hw : s.pool.worker w = .idle) (htop : s.pool.isTop top = true)
    (hlate : ∀ u ∈ s.pool.writeQueue.head?, s.ready u = false)
    (hcall : s.pool.tryExecuteOne w top = (s.withWrites queue).pool.takePrefetch w top) :
    Attempt s (s.tryExecuteOne w top).1 (s.tryExecuteOne w top).2 := by
  subst hqueue
  have hidle : (s.withWrites s.rotated).pool.worker w = .idle := hw
  have hheap : (s.withWrites s.rotated).pool.prefetchQueue = s.pool.prefetchQueue := rfl
  simp only [tryExecuteOne, hcall, WorkerPool.takePrefetch, hheap]
  cases hfound : s.pool.prefetchQueue[top]? with
  | none =>
    have hempty : s.pool.prefetchQueue = [] := by
      simpa [WorkerPool.isTop, hfound] using htop
    have hsettle := settle_idle hidle 6
    simp only [hidle, Worker.isIdle, Bool.not_true]
    show Attempt s false (settle w 6 (s.withWrites s.rotated))
    rw [hsettle]
    exact .idle hlate hempty
  | some t =>
    -- the worker holds the task, lets go of it again, and is where it was
    have hsettle := settle_prefetch (s := { s.withWrites s.rotated with
      pool := { (s.withWrites s.rotated).pool with
        prefetchQueue := s.pool.prefetchQueue.eraseIdx top
        inFlight := s.pool.inFlight + 1
        worker := Function.update s.pool.worker w (.prefetching t .dequeued) } })
      (w := w) (t := t) (Function.update_self ..)
    have hdone := Attempt.fetched hlate hfound
    simp only [Function.update_idem, Nat.add_sub_cancel, ← hw, Function.update_eq_self] at hsettle
    simp only [Function.update_self, Worker.isIdle, Bool.not_false]
    exact (congrArg (Attempt s true) hsettle).mpr hdone

/-- **What a call can do**, while no ordering mutex is taken. -/
theorem tryExecuteOne_cases (hw : s.pool.worker w = .idle) (htop : s.pool.isTop top = true)
    (hfree : ∀ k, (s.pool.dvStates k).mu = none) :
    Attempt s (s.tryExecuteOne w top).1 (s.tryExecuteOne w top).2 := by
  cases hqueue : s.pool.writeQueue with
  | nil =>
    -- nothing to write: the turn goes to the prefetches
    have hsame : s.withWrites [] = s := by
      rw [← hqueue]
      rfl
    have hrotated : [] = s.rotated := by simp [rotated, hqueue]
    refine attempt_prefetch hrotated hw htop (by simp [hqueue]) ?_
    rw [hsame]
    simp only [WorkerPool.tryExecuteOne, hqueue]
  | cons t rest =>
    by_cases hready : t.dvSeq = (s.pool.dvStates t.dvKey).execSeq
    -- the first write is due, and runs to its end as no mutex is held
    · have hcall : s.pool.tryExecuteOne w top = { s.pool with
          writeQueue := rest
          inFlight := s.pool.inFlight + 1
          worker := Function.update s.pool.worker w (.writing t .dequeued) } := by
        simp only [WorkerPool.tryExecuteOne, hqueue, ne_eq, hready, not_true, if_false]
      have hsettle := settle_write (s := { s with pool := s.pool.tryExecuteOne w top }) (w := w)
        (t := t) (by rw [hcall]; exact Function.update_self ..) (by rw [hcall]; exact hfree _)
      have hdone := Attempt.wrote hqueue (decide_eq_true hready)
      simp only [hcall, Function.update_idem, Nat.add_sub_cancel, ← hw, Function.update_eq_self]
        at hsettle
      simp only [tryExecuteOne, hcall, Function.update_self, Worker.isIdle, Bool.not_false]
      exact (congrArg (Attempt s true) hsettle).mpr hdone
    -- it is not, and goes to the back
    · have hrotated : rest ++ [t] = s.rotated := by simp [rotated, hqueue]
      refine attempt_prefetch hrotated hw htop (by simp [hqueue, ready, hready]) ?_
      simp only [WorkerPool.tryExecuteOne, hqueue, ne_eq, hready, not_false_eq_true, if_true]
      rfl

/-! ### The ordering mutexes -/

/-- A turn leaves the variables. -/
theorem turn_dvStates (s : WorkerRun α) (w top : Nat) :
    (s.turn w top).pool.dvStates = s.pool.dvStates := by
  have htake : ∀ p : WorkerPool α, (p.takePrefetch w top).dvStates = p.dvStates := by
    intro p
    unfold WorkerPool.takePrefetch
    split <;> rfl
  unfold WorkerRun.turn
  split
  · rfl
  · simp only [WorkerPool.tryExecuteOne]
    split
    · split
      · exact htake _
      · rfl
    · exact htake _

/-- An ordering mutex that is taken is that of the write task its holder executes. -/
def Held (s : WorkerRun α) : Prop :=
  ∀ k v, (s.pool.dvStates k).mu = some v → (s.pool.worker v).holds = some k

/-- A step of worker `u` that leaves it with the mutex it had, and the mutexes as they were. -/
theorem Held.keep (hs : s.Held) {u : Nat} {x : Worker α}
    (hx : x.holds = (s.pool.worker u).holds)
    (hworker : s'.pool.worker = Function.update s.pool.worker u x)
    (hmu : ∀ k, (s'.pool.dvStates k).mu = (s.pool.dvStates k).mu) : s'.Held := by
  intro k v hk
  rw [hworker, Lts.apply_update_eq Worker.holds hx]
  exact hs k v ((hmu k).symm.trans hk)

/-- A worker takes the mutex of its key, keeps it, or gives it back. -/
theorem Held.advance (hs : s.Held) {u : Nat} (h : s.advance u = some s') : s'.Held := by
  unfold WorkerRun.advance at h
  split at h
  -- locked: the mutex was free, and nobody else holds one because of it
  case h_1 t hw =>
    simp only [Option.ite_none_right_eq_some, Option.some.injEq] at h
    obtain ⟨hfree, rfl⟩ := h
    intro k v hk
    simp only [WorkerPool.setWorker, WorkerPool.setDvState] at hk ⊢
    by_cases hkey : k = t.dvKey
    · subst hkey
      rw [Function.update_self] at hk
      obtain rfl := Option.some.inj hk
      rw [Function.update_self]
      rfl
    · rw [Function.update_of_ne hkey] at hk
      have hne : v ≠ u := by
        rintro rfl
        have hheld := hs k v hk
        rw [hw] at hheld
        cases hheld
      rw [Function.update_of_ne hne]
      exact hs k v hk
  -- unlocked: any other mutex is held by another worker
  case h_4 t hw =>
    obtain rfl := Option.some.inj h
    intro k v hk
    simp only [WorkerPool.setWorker, WorkerPool.setDvState] at hk ⊢
    have hkey : k ≠ t.dvKey := by
      rintro rfl
      rw [Function.update_self] at hk
      cases hk
    rw [Function.update_of_ne hkey] at hk
    have hheld := hs k v hk
    have hne : v ≠ u := by
      rintro rfl
      rw [hw] at hheld
      exact hkey (Option.some.inj hheld).symm
    rw [Function.update_of_ne hne]
    exact hheld
  case h_3 t hw =>
    obtain rfl := Option.some.inj h
    exact hs.keep (by rw [hw]; rfl) rfl fun k =>
      Lts.apply_update_eq DvOrderState.mu (by rfl) k
  case h_10 => cases h
  case h_11 => cases h
  all_goals
    next hw =>
      obtain rfl := Option.some.inj h
      exact hs.keep (by rw [hw]; rfl) rfl fun _ => rfl

/-- Only workers hold locks, in every run. -/
theorem Held.of_reachable (h : (system α).Reachable s) : s.Held := by
  refine h.invariant (I := Held) (fun s hinit k v hmu => ?_) fun s op s' hs _ hstep => ?_
  · obtain ⟨n, bp, rfl⟩ := hinit
    cases hmu
  · -- a submission leaves the mutexes alone
    have hfinish : ∀ c req, (s.finishSubmit c req).Held := by
      intro c req
      unfold WorkerRun.finishSubmit
      split
      · exact hs
      · intro k v hmu
        exact hs k v ((Lts.apply_update_eq DvOrderState.mu (by rfl) k).symm.trans hmu)
    cases step_cases hstep with
    | enters | waits | dropped | prefetches | shuts => exact hs
    | @locks c req | @wakes c req => exact hfinish c req
    | @turns u top lt idle =>
      obtain ⟨x, hworker, -⟩ := turn_worker top idle
      intro k v hmu
      -- an idle worker holds no mutex, so the holder is another one
      have hheld := hs k v (by rwa [turn_dvStates] at hmu)
      have hne : v ≠ u := by
        rintro rfl
        rw [idle] at hheld
        cases hheld
      rw [hworker, Function.update_of_ne hne]
      exact hheld
    | advances ran => exact hs.advance ran

/-! ### Nothing in flight -/

/-- No task is in flight, and worker `w` is about to call `try_execute_one`. -/
structure Quiet (w : Nat) (s : WorkerRun α) : Prop where
  reachable : (system α).Reachable s
  in_flight : s.pool.inFlight = 0
  lt : w < s.pool.threadCount
  idle : s.pool.worker w = .idle

namespace Quiet

theorem not_busy (hq : Quiet w s) (v : Nat) : (s.pool.worker v).busy = 0 := by
  have hs := Inv.of_reachable hq.reachable
  by_cases hv : v < s.pool.threadCount
  · exact Lts.eq_zero_of_tally (g := Worker.busy) (hs.in_flight.symm.trans hq.in_flight) hv
  · rw [hs.idle_of_le v (by omega)]
    rfl

theorem free (hq : Quiet w s) (k : DatasetVariableKey) : (s.pool.dvStates k).mu = none := by
  refine Option.eq_none_iff_forall_ne_some.mpr fun v hmu => ?_
  have hheld := Held.of_reachable hq.reachable k v hmu
  have hbusy := hq.not_busy v
  unfold Worker.holds at hheld
  split at hheld
  case h_4 => cases hheld
  all_goals
    next hw =>
      rw [hw] at hbusy
      cases hbusy

/-- All outstanding write tasks are in the queue. -/
theorem writes_eq (hq : Quiet w s) : s.pool.writes = s.pool.writeQueue := by
  have hnone : ∀ v, (s.pool.worker v).outstanding = 0 := by
    intro v
    have hbusy := hq.not_busy v
    revert hbusy
    cases s.pool.worker v <;> simp [Worker.busy, Worker.outstanding]
  rw [WorkerPool.writes, Lts.tally_eq_zero fun v _ => hnone v, add_zero]

/-- **Some queued task is next in line**: the queued tasks of a key carry the numbers from
`exec_seq` on. -/
theorem exists_ready (hq : Quiet w s) {t : WriteTask α} (ht : t ∈ s.pool.writeQueue) :
    ∃ u ∈ s.pool.writeQueue, s.ready u = true := by
  obtain ⟨-, hseqs⟩ := (Inv.of_reachable hq.reachable).outstanding_seqs t.dvKey
  rw [hq.writes_eq] at hseqs
  -- the number of `t` is among them, so there is one, and then `exec_seq` is one too
  have hmem : t.dvSeq ∈ (Finset.Ico (s.pool.dvStates t.dvKey).execSeq
      (s.pool.dvStates t.dvKey).nextSeq).val := by
    rw [← hseqs]
    exact Multiset.mem_map_of_mem _ (Multiset.mem_filter.mpr ⟨ht, rfl⟩)
  have hlt := Finset.mem_Ico.mp (Finset.mem_val.mp hmem)
  have hfirst : (s.pool.dvStates t.dvKey).execSeq ∈
      (Finset.Ico (s.pool.dvStates t.dvKey).execSeq (s.pool.dvStates t.dvKey).nextSeq).val :=
    Finset.mem_Ico.mpr ⟨le_rfl, hlt.1.trans_lt hlt.2⟩
  rw [← hseqs] at hfirst
  obtain ⟨u, hu, hseq⟩ := Multiset.mem_map.mp hfirst
  obtain ⟨hmem, hkey⟩ := Multiset.mem_filter.mp hu
  exact ⟨u, hmem, by simp only [ready, hkey, hseq, decide_true]⟩

end Quiet

/-- What a call leaves as it was. -/
theorem Attempt.frame {b : Bool} (h : Attempt s b s') :
    s'.pool.inFlight = s.pool.inFlight ∧ s'.pool.threadCount = s.pool.threadCount ∧
      s'.pool.worker = s.pool.worker := by
  cases h <;> exact ⟨rfl, rfl, rfl⟩

/-- What has settled is reachable. -/
theorem settle_reachable (n : Nat) (h : (system α).Reachable s) :
    (system α).Reachable (settle w n s) := by
  induction n generalizing s with
  | zero => exact h
  | succ n ih =>
    unfold settle
    split
    · next hadvance => exact ih (.step (l := .advance w) h trivial hadvance)
    · exact h

/-- A call on two empty queues does nothing. -/
theorem tryExecuteOne_of_empty (hw : s.pool.worker w = .idle) (hwrite : s.pool.writeQueue = [])
    (hprefetch : s.pool.prefetchQueue = []) : s.tryExecuteOne w top = (false, s) := by
  have hsame : s.pool.tryExecuteOne w top = s.pool := by
    simp only [WorkerPool.tryExecuteOne, hwrite, WorkerPool.takePrefetch, hprefetch,
      List.getElem?_nil]
  simp only [tryExecuteOne, hsame, hw, Worker.isIdle, Bool.not_true]
  exact congrArg (Prod.mk false) (settle_idle hw 6)

namespace Quiet

theorem attempt (hq : Quiet w s) (htop : s.pool.isTop top = true) :
    Attempt s (s.tryExecuteOne w top).1 (s.tryExecuteOne w top).2 :=
  tryExecuteOne_cases hq.idle htop hq.free

/-- A call is a turn of the worker and what it goes on to do. -/
theorem call (hq : Quiet w s) (htop : s.pool.isTop top = true) :
    Quiet w (s.tryExecuteOne w top).2 := by
  obtain ⟨hflight, hcount, hworker⟩ := (hq.attempt htop).frame
  refine ⟨?_, hflight.trans hq.in_flight, hcount ▸ hq.lt, by rw [hworker, hq.idle]⟩
  by_cases hempty : s.pool.writeQueue = [] ∧ s.pool.prefetchQueue = []
  · rw [tryExecuteOne_of_empty hq.idle hempty.1 hempty.2]
    exact hq.reachable
  · refine settle_reachable 6 (.step (l := .turn w top) hq.reachable trivial ?_)
    have hturn : s.turn w top = { s with pool := s.pool.tryExecuteOne w top } :=
      if_neg fun h => hempty h.2
    simp only [system, step]
    rw [if_pos ⟨hq.lt, Worker.isIdle_iff.mpr hq.idle, htop⟩, hturn]

end Quiet

/-! ### The way to the next task in line -/

/-- The number of write tasks in front of the first that is next in line. -/
def ahead (s : WorkerRun α) : Nat := s.pool.writeQueue.findIdx s.ready

/-- Some task is ready if any is queued. -/
theorem Quiet.ahead_lt (hq : Quiet w s) (hne : s.pool.writeQueue ≠ []) :
    s.ahead < s.pool.writeQueue.length := by
  obtain ⟨t, ht⟩ := List.exists_mem_of_ne_nil _ hne
  exact List.findIdx_lt_length_of_exists (hq.exists_ready ht)

/-- A front that is late brings the queue nearer to the next task in line. -/
theorem Quiet.ahead_rotated (hq : Quiet w s) (hne : s.pool.writeQueue ≠ [])
    (hlate : ∀ u ∈ s.pool.writeQueue.head?, s.ready u = false) :
    (s.withWrites s.rotated).ahead + 1 = s.ahead := by
  have hlt := hq.ahead_lt hne
  simp only [ahead, withWrites_writeQueue, withWrites_ready, rotated] at hlt ⊢
  cases hqueue : s.pool.writeQueue with
  | nil => exact absurd hqueue hne
  | cons t rest =>
    have hfront : s.ready t = false := hlate t (by rw [hqueue]; rfl)
    rw [hqueue, List.findIdx_cons, hfront, cond_false, List.length_cons] at hlt
    rw [List.findIdx_cons, hfront, cond_false, List.findIdx_append, if_pos (by omega)]

/-- The tasks that are queued. -/
def queued (s : WorkerRun α) : Nat := s.pool.writeQueue.length + s.pool.prefetchQueue.length

/-- A call takes a task out of the queues, or brings the next write task in line nearer. -/
theorem Attempt.counts {b : Bool} (hq : Quiet w s) (h : Attempt s b s') :
    s'.queued + b.toNat = s.queued ∧ s'.pool.writeQueue.length ≤ s.pool.writeQueue.length ∧
      (b = false → s'.pool.writeQueue.length = s.pool.writeQueue.length ∧
        s.pool.prefetchQueue = [] ∧ (s.pool.writeQueue ≠ [] → s'.ahead + 1 = s.ahead)) := by
  have hrotated := s.rotated_perm.length_eq
  cases h with
  | @wrote t rest queue =>
    simp only [queued, wrote_writeQueue, wrote_prefetchQueue, queue, List.length_cons,
      Bool.toNat_true]
    exact ⟨by omega, by omega, fun h => by cases h⟩
  | @fetched t top late found =>
    obtain ⟨htop, -⟩ := List.getElem?_eq_some_iff.mp found
    simp only [queued, fetched_writeQueue, fetched_prefetchQueue, withWrites_writeQueue, hrotated,
      List.length_eraseIdx_of_lt htop, Bool.toNat_true]
    exact ⟨by omega, le_rfl, fun h => by cases h⟩
  -- nothing was taken: a front write, if there is one, went to the back
  | idle late empty =>
    refine ⟨by simp [queued, hrotated], hrotated.le, fun _ => ⟨hrotated, empty, fun hne => ?_⟩⟩
    exact hq.ahead_rotated hne late

/-! ### One call after the other -/

/-- From `s` to `s'` the worker executes `n` tasks, each of which is queued in `s` and no longer in
`s'`. -/
def Executed (s s' : WorkerRun α) (n : Nat) : Prop :=
  ∃ (writes : List (WriteTask α)) (prefetches : List (PrefetchTask α)),
    s'.ran = s.ran ++ writes ∧ s'.ranPrefetch = s.ranPrefetch ++ prefetches ∧
      s.pool.writeQueue.Perm (writes ++ s'.pool.writeQueue) ∧
      s.pool.prefetchQueue.Perm (prefetches ++ s'.pool.prefetchQueue) ∧
      n = writes.length + prefetches.length

theorem Executed.refl (s : WorkerRun α) : Executed s s 0 :=
  ⟨[], [], by simp, by simp, .refl _, .refl _, rfl⟩

theorem Executed.trans {s'' : WorkerRun α} {m n : Nat} (h : Executed s s' m)
    (h' : Executed s' s'' n) : Executed s s'' (m + n) := by
  obtain ⟨ws, ps, hran, hranP, hws, hps, rfl⟩ := h
  obtain ⟨ws', ps', hran', hranP', hws', hps', rfl⟩ := h'
  refine ⟨ws ++ ws', ps ++ ps', by simp [hran', hran], by simp [hranP', hranP], ?_, ?_, ?_⟩
  · rw [List.append_assoc]
    exact hws.trans (hws'.append_left ws)
  · rw [List.append_assoc]
    exact hps.trans (hps'.append_left ps)
  · simp only [List.length_append]
    omega

/-- Nothing is lost: the tasks that were queued are executed or queued. -/
theorem Executed.queued_eq {n : Nat} (h : Executed s s' n) : s.queued = s'.queued + n := by
  obtain ⟨ws, ps, -, -, hws, hps, rfl⟩ := h
  have hw := hws.length_eq
  have hp := hps.length_eq
  simp only [List.length_append] at hw hp
  simp only [queued, hw, hp]
  omega

/-- An attempt executes one task or none. -/
theorem Attempt.executed {b : Bool} (h : Attempt s b s') : Executed s s' b.toNat := by
  cases h with
  | @wrote t rest queue =>
    exact ⟨[t], [], rfl, by simp [WorkerRun.wrote], by simp [queue], .refl _, rfl⟩
  | @fetched t top late found =>
    refine ⟨[], [t], by simp [WorkerRun.fetched, withWrites], rfl, s.rotated_perm.symm, ?_, rfl⟩
    obtain ⟨htop, rfl⟩ := List.getElem?_eq_some_iff.mp found
    exact (List.getElem_cons_eraseIdx_perm htop).symm
  | idle late empty =>
    exact ⟨[], [], by simp [withWrites], by simp [withWrites], s.rotated_perm.symm, .refl _, rfl⟩

namespace Attempts

variable {bs : List Bool}

/-- The pool is quiet between the attempts. -/
theorem quiet (h : Attempts w s bs s') (hq : Quiet w s) : Quiet w s' := by
  induction h with
  | nil => exact hq
  | cons top isTop _ ih => exact ih (hq.call isTop)

/-- As many tasks are executed as attempts succeed. -/
theorem executed (h : Attempts w s bs s') (hq : Quiet w s) : Executed s s' (bs.count true) := by
  induction h with
  | nil s => exact .refl s
  | @cons s s' bs top isTop _ ih =>
    have hfirst := (hq.attempt isTop).executed
    have hcount : (s.tryExecuteOne w top).1.toNat + bs.count true =
        ((s.tryExecuteOne w top).1 :: bs).count true := by
      cases (s.tryExecuteOne w top).1 <;> simp [Nat.add_comm]
    exact hcount ▸ hfirst.trans (ih (hq.call isTop))

end Attempts

/-- A heap that is not empty has a task of smallest distance. -/
theorem exists_isTop (p : WorkerPool α) : ∃ top, p.isTop top = true := by
  cases hheap : p.prefetchQueue with
  | nil => exact ⟨0, by simp [WorkerPool.isTop, hheap]⟩
  | cons t rest =>
    obtain ⟨u, hu, hmin⟩ := Set.exists_min_image {u | u ∈ t :: rest} PrefetchTask.distance
      (t :: rest).finite_toSet ⟨t, List.mem_cons_self⟩
    obtain ⟨top, htop, rfl⟩ := List.mem_iff_getElem.mp hu
    refine ⟨top, ?_⟩
    simp only [WorkerPool.isTop, hheap, List.getElem?_eq_getElem htop, List.all_eq_true,
      decide_eq_true_eq]
    exact hmin

/-- The worker can go on calling. -/
theorem Attempts.exists_length (w n : Nat) (s : WorkerRun α) :
    ∃ bs s', bs.length = n ∧ Attempts w s bs s' := by
  induction n generalizing s with
  | zero => exact ⟨[], s, rfl, .nil s⟩
  | succ n ih =>
    obtain ⟨top, htop⟩ := exists_isTop s.pool
    obtain ⟨bs, s', hlen, hrest⟩ := ih (s.tryExecuteOne w top).2
    exact ⟨_, s', by rw [List.length_cons, hlen], .cons top htop hrest⟩

/-! ### Progress -/

/-- A bound for the calls that are left, while no more than `m` write tasks are queued. -/
def remaining (m : Nat) (s : WorkerRun α) : Nat := s.queued * (m + 1) + s.ahead

/-- An attempt leaves less to do. -/
theorem Quiet.remaining_call (hq : Quiet w s) (htop : s.pool.isTop top = true) {m : Nat}
    (hm : s.pool.writeQueue.length ≤ m) (hne : s.queued ≠ 0) :
    remaining m (s.tryExecuteOne w top).2 + 1 ≤ remaining m s := by
  obtain ⟨hqueued, hlen, hfalse⟩ := (hq.attempt htop).counts hq
  have hnext := hq.call htop
  unfold remaining
  cases hb : (s.tryExecuteOne w top).1 with
  | false =>
    obtain ⟨-, hprefetch, hahead⟩ := hfalse hb
    have hwrite : s.pool.writeQueue ≠ [] := fun h => hne (by simp [queued, h, hprefetch])
    rw [hb, Bool.toNat_false, Nat.add_zero] at hqueued
    rw [hqueued]
    have hstep := hahead hwrite
    omega
  | true =>
    -- one task less, and whatever the way to the next, it is no longer than the queue
    have hahead : (s.tryExecuteOne w top).2.ahead ≤ m :=
      List.findIdx_le_length.trans (hlen.trans hm)
    rw [hb, Bool.toNat_true] at hqueued
    rw [← hqueued, Nat.add_mul]
    omega

/-- A run that has not emptied the queues is short. -/
theorem Attempts.length_le {bs : List Bool} (h : Attempts w s bs s') (hq : Quiet w s) {m : Nat}
    (hm : s.pool.writeQueue.length ≤ m) (hne : s'.queued ≠ 0) :
    bs.length + remaining m s' ≤ remaining m s := by
  induction h with
  | nil s => simp
  | @cons s s' bs top isTop rest ih =>
    have hlen := ((hq.attempt isTop).counts hq).2.1
    have hleft := (Attempts.cons top isTop rest).executed hq |>.queued_eq
    have hcall := hq.remaining_call isTop hm (by omega)
    have hrest := ih (hq.call isTop) (hlen.trans hm) hne
    rw [List.length_cons]
    omega

/-- Calls that return false before one that returns true. -/
theorem Attempts.waits {k : Nat} (hq : Quiet w s)
    (h : Attempts w s (List.replicate k false ++ [true]) s') :
    k = 0 ∨ s.pool.writeQueue ≠ [] ∧ k ≤ s.ahead := by
  induction k generalizing s with
  | zero => exact .inl rfl
  | succ k ih =>
    -- as a task is executed later on, the queues are not both empty
    have hqueued := (h.executed hq).queued_eq
    rw [List.count_append, List.count_singleton_self] at hqueued
    rw [List.replicate_succ, List.cons_append] at h
    generalize hbs : false :: (List.replicate k false ++ [true]) = bs at h
    cases h with
    | nil => cases hbs
    | @cons _ _ _ top isTop rest =>
      obtain ⟨hfirst, rfl⟩ := List.cons.inj hbs
      obtain ⟨-, -, hfalse⟩ := (hq.attempt isTop).counts hq
      obtain ⟨-, hprefetch, hahead⟩ := hfalse hfirst.symm
      have hwrite : s.pool.writeQueue ≠ [] := fun h => by
        simp only [queued, h, hprefetch, List.length_nil] at hqueued
        omega
      have hstep := hahead hwrite
      refine .inr ⟨hwrite, ?_⟩
      obtain rfl | ⟨-, hle⟩ := ih (hq.call isTop) rest
      · omega
      · omega

/-- The progress of worker `w` on its own from `s`. -/
structure Progress (w : Nat) (s : WorkerRun α) : Prop where
  /-- It can make any number of calls … -/
  goes_on : ∀ n, ∃ bs s', bs.length = n ∧ Attempts w s bs s'
  /-- … after so many of which nothing is queued. -/
  empties : ∀ bs s', Attempts w s bs s' →
    (s.queued + 1) * (s.pool.writeQueue.length + 1) ≤ bs.length →
    s'.pool.writeQueue = [] ∧ s'.pool.prefetchQueue = []
  /-- The calls that return true execute one task each, among them no task twice. -/
  executes : ∀ bs s', Attempts w s bs s' → Executed s s' (bs.count true)
  /-- Between two of them fewer calls return false than write tasks are queued, or none does. -/
  waits : ∀ bs k s₁ s₂, Attempts w s (bs ++ [true]) s₁ →
    Attempts w s₁ (List.replicate k false ++ [true]) s₂ → k = 0 ∨ k < s₁.pool.writeQueue.length

/-- **A quiet pool makes progress.** -/
theorem Quiet.progress (hq : Quiet w s) : Progress w s where
  goes_on n := Attempts.exists_length w n s
  empties bs s' h hlen := by
    by_contra hne
    have hqueued : s'.queued ≠ 0 := fun h => hne (by simpa [queued] using h)
    have hshort := h.length_le hq le_rfl hqueued
    -- what is left is more than nothing, so the bound is missed
    have hahead : s.ahead ≤ s.pool.writeQueue.length := List.findIdx_le_length
    have hpos : 0 < remaining s.pool.writeQueue.length s' :=
      Nat.add_pos_left (Nat.mul_pos (Nat.pos_of_ne_zero hqueued) (Nat.succ_pos _)) _
    unfold remaining at hshort hpos
    rw [Nat.add_mul] at hlen
    omega
  executes bs s' h := h.executed hq
  waits bs k s₁ s₂ h h' := by
    have hq₁ := h.quiet hq
    refine (Attempts.waits hq₁ h').imp_right fun ⟨hne, hle⟩ => ?_
    exact hle.trans_lt (hq₁.ahead_lt hne)

/-- Whoever leaves `worker_loop` leaves it after shutdown, with both queues empty. -/
def LeavesEmpty (s : WorkerRun α) : Prop :=
  ∀ op v s', s.step op = some s' → s'.pool.worker v = .exited → s.pool.worker v ≠ .exited →
    s.pool.shutdown = true ∧ s'.pool.writeQueue = [] ∧ s'.pool.prefetchQueue = []

/-- The pool leaves nothing behind. -/
theorem leavesEmpty (s : WorkerRun α) : s.LeavesEmpty := by
  intro op v s' hstep hafter hbefore
  cases step_cases hstep with
  | enters | waits | dropped | prefetches | shuts => exact absurd hafter hbefore
  | locks | wakes =>
    have hworker := step_worker (by simp) (by simp) hstep
    exact absurd (hworker ▸ hafter) hbefore
  | @turns u top lt idle =>
    obtain ⟨x, hworker, -⟩ := turn_worker top idle
    by_cases hvu : v = u
    · subst hvu
      -- the turn of the worker itself: it leaves only if nothing is queued
      by_cases hdone : s.pool.shutdown = true ∧ s.pool.writeQueue = [] ∧ s.pool.prefetchQueue = []
      · rw [WorkerRun.turn, if_pos hdone]
        exact hdone
      · rw [WorkerRun.turn, if_neg hdone] at hafter
        exact absurd hafter (tryExecuteOne_spec top idle).1
    · rw [hworker, Function.update_of_ne hvu] at hafter
      exact absurd hafter hbefore
  | @advances u _ ran =>
    obtain ⟨-, -, -, -, hin⟩ := advance_frame ran
    obtain rfl | hvu := eq_or_ne v u
    · exact absurd hafter hin
    · rw [advance_worker_of_ne hvu ran] at hafter
      exact absurd hafter hbefore

/-- **Progress.** With nothing in flight and nobody submitting, one worker empties both queues. -/
theorem worker_progress (hq : Quiet w s) : Progress w s ∧ ∀ s₁ : WorkerRun α, s₁.LeavesEmpty :=
  ⟨hq.progress, leavesEmpty⟩

/-- Three tasks of one key. While the first is executed, the third overtakes the second. -/
def swappedOps : List (WorkerOp Nat) :=
  [.enter 0 ⟨⟨1, 1⟩, 7, 10⟩, .lock 0, .enter 1 ⟨⟨1, 1⟩, 8, 11⟩, .lock 1, .turn 0 0,
    .enter 2 ⟨⟨1, 1⟩, 9, 12⟩, .lock 2, .turn 1 0, .advance 0, .advance 0, .advance 0, .advance 0,
    .advance 0, .advance 0]

theorem progress_of_swapped :
    ∃ s, (system Nat).replay (fun _ _ => True) (start Nat 2 {}) swappedOps = some s ∧
      s.pool.writeQueue.map (·.dvSeq) = [2, 1] ∧ Quiet 1 s ∧
      (Progress 1 s ∧ ∀ s₁ : WorkerRun Nat, s₁.LeavesEmpty) := by
  have hreach : (system Nat).Reachable _ := .of_replay swappedOps ⟨2, {}, rfl⟩ rfl
  have hquiet : Quiet 1 _ := ⟨hreach, rfl, by decide, rfl⟩
  exact ⟨_, rfl, rfl, hquiet, worker_progress hquiet⟩

def twoFetchesOps : List (WorkerOp Nat) :=
  [.submitPrefetch ⟨1, 1, 5, 0, 10⟩ false, .submitPrefetch ⟨2, 2, 5, 0, 11⟩ false]

/-- Of two prefetch tasks the second is executed right after the first, while no write task is
queued. -/
theorem waits_without_writes :
    ∃ s, (system Nat).replay (fun _ _ => True) (start Nat 1 {}) twoFetchesOps = some s ∧
      Quiet 0 s ∧ ∃ s₁ s₂, Attempts 0 s ([] ++ [true]) s₁ ∧
        Attempts 0 s₁ (List.replicate 0 false ++ [true]) s₂ ∧ ¬ 0 < s₁.pool.writeQueue.length := by
  have hreach : (system Nat).Reachable _ := .of_replay twoFetchesOps ⟨1, {}, rfl⟩ rfl
  have hquiet : Quiet 0 _ := ⟨hreach, rfl, by decide, rfl⟩
  exact ⟨_, rfl, hquiet, _, _, .cons 0 rfl (.nil _), .cons 0 rfl (.nil _), by decide⟩

end WorkerRun

end Amio
