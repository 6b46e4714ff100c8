import Amio.Lib.Tally
import Amio.Workers.Run
import Mathlib.Order.Interval.Finset.Nat

/-!
# Order and exactly-once execution in the worker pool

The queue is not in submission order, since a task that is not next in line goes to the back. What
carries the proof is conservation: the accepted tasks are, as a multiset, the queued ones, the ones
in flight and the completed ones (`Conserved.writes`). Accepted tasks of a key are numbered `0, 1,
…, next_seq - 1` and completed ones `0, 1, …, exec_seq - 1`, so what is left over is numbered
`exec_seq, …, next_seq - 1` (`Inv.outstanding_seqs`), each number once. A task in flight has the
number `exec_seq`, so there is only one of them.
-/

namespace Amio

open Lts (tally)

variable {α : Type}

/-! ### What the pool holds -/

namespace WorkerPool

/-- The write tasks that are queued or in flight. -/
def writes (p : WorkerPool α) : Multiset (WriteTask α) :=
  p.writeQueue + tally Worker.outstanding p.worker p.threadCount

/-- The prefetch tasks that are queued or in flight. -/
def prefetches (p : WorkerPool α) : Multiset (PrefetchTask α) :=
  p.prefetchQueue + tally Worker.unrun p.worker p.threadCount

/-- The number of workers that hold a task. -/
def busy (p : WorkerPool α) : Nat := tally Worker.busy p.worker p.threadCount

end WorkerPool

/-- Of a list numbered `0, 1, …` by `f`, a sublist that is also numbered from zero is an initial
segment. -/
theorem eq_take_of_numbered {β : Type} {f : β → Nat} {xs ys : List β} {m n : Nat}
    (hys : ys.map f = List.range n) (hxs : xs.map f = List.range m) (hsub : xs ⊆ ys) :
    xs = ys.take m := by
  -- a numbered list has its numbers as positions
  have hnum : ∀ {zs : List β} {l : Nat}, zs.map f = List.range l → zs.length = l ∧
      ∀ i (hi : i < zs.length), f zs[i] = i := by
    intro zs l hzs
    have hlen : zs.length = l := by simpa using congrArg List.length hzs
    refine ⟨hlen, fun i hi => ?_⟩
    have hget := List.getElem_of_eq hzs (i := i) (by simpa using hi)
    simpa using hget
  -- an element of the sublist sits at the same position in both
  have hat : ∀ i (hi : i < xs.length), ∃ hj : i < ys.length, ys[i] = xs[i] := by
    intro i hi
    obtain ⟨j, hj, hji⟩ := List.mem_iff_getElem.mp (hsub (List.getElem_mem hi))
    have : j = i := by rw [← (hnum hys).2 j hj, hji, (hnum hxs).2 i hi]
    subst this
    exact ⟨hj, hji⟩
  have hmn : m ≤ n := by
    by_contra hlt
    obtain ⟨hj, -⟩ := hat n (by rw [(hnum hxs).1]; omega)
    rw [(hnum hys).1] at hj
    omega
  refine List.ext_getElem (by rw [List.length_take, (hnum hxs).1, (hnum hys).1]; omega) ?_
  intro i hi _
  obtain ⟨hj, hji⟩ := hat i hi
  rw [List.getElem_take, hji]

namespace WorkerRun

/-! ### The invariant -/

/-- Every accepted task is queued, in flight or done, and `in_flight_` counts the workers that
hold one. -/
structure Conserved (s : WorkerRun α) : Prop where
  writes : (s.accepted : Multiset (WriteTask α)) = s.pool.writes + s.completed
  prefetches : (s.acceptedPrefetch : Multiset (PrefetchTask α)) = s.pool.prefetches + s.ranPrefetch
  in_flight : s.pool.inFlight = s.pool.busy
  idle_of_le : ∀ w, s.pool.threadCount ≤ w → s.pool.worker w = .idle

/-- The sequence numbers of each key: accepted and completed tasks are numbered from zero in
order, a task in flight is next in line, and the callbacks that ran are those of the completed
tasks and of a task in flight that is past its callback. -/
structure Sequenced (s : WorkerRun α) : Prop where
  accepted_seqs : ∀ k, ((s.accepted.filter (·.dvKey = k)).map (·.dvSeq)) =
    List.range (s.pool.dvStates k).nextSeq
  completed_seqs : ∀ k, ((s.completed.filter (·.dvKey = k)).map (·.dvSeq)) =
    List.range (s.pool.dvStates k).execSeq
  in_flight_seq : ∀ w, ∀ t ∈ (s.pool.worker w).outstanding,
    t.dvSeq = (s.pool.dvStates t.dvKey).execSeq
  ran_eq : ∀ k, (∃ w t, s.pool.worker w = .writing t .ran ∧ t.dvKey = k ∧
      s.ran.filter (·.dvKey = k) = s.completed.filter (·.dvKey = k) ++ [t]) ∨
    ((∀ w t, s.pool.worker w = .writing t .ran → t.dvKey ≠ k) ∧
      s.ran.filter (·.dvKey = k) = s.completed.filter (·.dvKey = k))

structure Inv (s : WorkerRun α) : Prop extends Conserved s, Sequenced s

variable {s s' : WorkerRun α}

theorem Inv.initial (n : Nat) (bp : BackpressureConfig) : Inv (start α n bp) where
  writes := by
    have hnone : tally Worker.outstanding (fun _ => (.idle : Worker α)) n = 0 :=
      Lts.tally_eq_zero fun _ _ => rfl
    simp [start, WorkerPool.create, WorkerPool.writes, hnone]
  prefetches := by
    have hnone : tally Worker.unrun (fun _ => (.idle : Worker α)) n = 0 :=
      Lts.tally_eq_zero fun _ _ => rfl
    simp [start, WorkerPool.create, WorkerPool.prefetches, hnone]
  accepted_seqs := fun _ => rfl
  completed_seqs := fun _ => rfl
  in_flight_seq := fun w t h => absurd h (Multiset.notMem_zero t)
  ran_eq := fun _ => .inr ⟨fun _ _ h => by simp [start, WorkerPool.create] at h, rfl⟩
  in_flight := (Lts.tally_eq_zero fun _ _ => rfl).symm
  idle_of_le := fun _ _ => rfl

/-- A worker that holds a task is one of the pool's. -/
theorem Conserved.lt_of_ne_idle (hs : Conserved s) {w : Nat} (h : s.pool.worker w ≠ .idle) :
    w < s.pool.threadCount := by
  by_contra hw
  exact h (hs.idle_of_le w (by omega))

/-- **What is outstanding**: the tasks of a key that are queued or in flight carry the numbers
from `exec_seq` up to `next_seq`, each once. -/
theorem Inv.outstanding_seqs (hs : Inv s) (k : DatasetVariableKey) :
    (s.pool.dvStates k).execSeq ≤ (s.pool.dvStates k).nextSeq ∧
    (s.pool.writes.filter (·.dvKey = k)).map (·.dvSeq) =
      (Finset.Ico (s.pool.dvStates k).execSeq (s.pool.dvStates k).nextSeq).val := by
  -- count the numbers of the accepted tasks in two ways
  have hsum : (List.range (s.pool.dvStates k).nextSeq : Multiset Nat) =
      (s.pool.writes.filter (·.dvKey = k)).map (·.dvSeq) +
        List.range (s.pool.dvStates k).execSeq := by
    rw [← hs.accepted_seqs k, ← hs.completed_seqs k, ← Multiset.map_coe, ← Multiset.map_coe,
      ← Multiset.filter_coe, ← Multiset.filter_coe, hs.writes, Multiset.filter_add,
      Multiset.map_add]
  have hle : (s.pool.dvStates k).execSeq ≤ (s.pool.dvStates k).nextSeq := by
    have hcard := congrArg Multiset.card hsum
    simp only [Multiset.coe_card, List.length_range, Multiset.card_add] at hcard
    omega
  refine ⟨hle, ?_⟩
  -- `0, …, next_seq - 1` splits at `exec_seq`, and the lower part is what is completed
  have hsplit : (List.range (s.pool.dvStates k).nextSeq : Multiset Nat) =
      (Finset.Ico (s.pool.dvStates k).execSeq (s.pool.dvStates k).nextSeq).val +
        List.range (s.pool.dvStates k).execSeq := by
    rw [Nat.Ico_eq_range', add_comm, Multiset.coe_add, List.range_eq_range', List.range_eq_range']
    congr 1
    have happend := @List.range'_append 0 (s.pool.dvStates k).execSeq
      ((s.pool.dvStates k).nextSeq - (s.pool.dvStates k).execSeq) 1
    simp only [Nat.zero_add, Nat.one_mul] at happend
    rw [happend]
    congr 1
    omega
  exact add_right_cancel (hsum.symm.trans hsplit)

/-- Conservation, counting the tasks that meet `P`. -/
theorem Conserved.countP_accepted (hs : Conserved s) (P : WriteTask α → Prop) [DecidablePred P] :
    s.accepted.countP P = s.pool.writeQueue.countP P +
      tally (fun x : Worker α => x.outstanding.countP P) s.pool.worker s.pool.threadCount +
      s.completed.countP P := by
  have hcount := congrArg (Multiset.countP P) hs.writes
  -- counting is additive, so it goes inside the total over the workers
  have hmap := Lts.map_tally (Multiset.countPAddMonoidHom P) Worker.outstanding s.pool.worker
    s.pool.threadCount
  simp only [Multiset.coe_countPAddMonoidHom] at hmap
  simpa [WorkerPool.writes, Multiset.coe_countP, hmap] using hcount

section Unique

variable {P : WriteTask α → Prop} [DecidablePred P] {w w' : Nat} {t t' : WriteTask α}

/-- A task in flight is counted. -/
theorem Conserved.countP_outstanding (hs : Conserved s) (ht : t ∈ (s.pool.worker w).outstanding)
    (hP : P t) : w < s.pool.threadCount ∧ 1 ≤ (s.pool.worker w).outstanding.countP P :=
  ⟨hs.lt_of_ne_idle fun h => Multiset.notMem_zero _ (by rwa [h] at ht),
    Multiset.countP_pos.mpr ⟨_, ht, hP⟩⟩

/-- When only one accepted task meets `P`, only one worker has such a task in flight … -/
theorem Conserved.outstanding_unique (hs : Conserved s) (hone : s.accepted.countP P ≤ 1)
    (ht : t ∈ (s.pool.worker w).outstanding) (hP : P t)
    (ht' : t' ∈ (s.pool.worker w').outstanding) (hP' : P t') : w = w' := by
  by_contra hne
  have hsum := hs.countP_accepted P
  obtain ⟨hw, hpos⟩ := hs.countP_outstanding ht hP
  obtain ⟨hw', hpos'⟩ := hs.countP_outstanding ht' hP'
  -- two workers would make two accepted tasks
  have htwo :=
    Lts.two_le_tally (g := fun x : Worker α => x.outstanding.countP P) hne hw hw' hpos hpos'
  omega

/-- … and then no such task is completed. -/
theorem Conserved.outstanding_not_completed (hs : Conserved s) (hone : s.accepted.countP P ≤ 1)
    (ht : t ∈ (s.pool.worker w).outstanding) (hP : P t) : ∀ t' ∈ s.completed, ¬ P t' := by
  intro t' ht' hP'
  have hsum := hs.countP_accepted P
  obtain ⟨hw, hpos⟩ := hs.countP_outstanding ht hP
  have hle := Lts.le_tally (g := fun x : Worker α => x.outstanding.countP P) (f := s.pool.worker) hw
  have hcomp : 1 ≤ s.completed.countP P :=
    List.countP_pos_iff.mpr ⟨t', ht', decide_eq_true hP'⟩
  omega

end Unique

/-- **One at a time**: at most one task of a key is in flight. -/
theorem Inv.in_flight_unique (hs : Inv s) {w w' : Nat} {t t' : WriteTask α}
    (ht : t ∈ (s.pool.worker w).outstanding) (ht' : t' ∈ (s.pool.worker w').outstanding)
    (hkey : t.dvKey = t'.dvKey) : w = w' := by
  -- both carry the number `exec_seq`, and an accepted key and number come only once
  let P : WriteTask α → Prop := fun u => u.dvKey = t.dvKey ∧ u.dvSeq = t.dvSeq
  have hone : s.accepted.countP P ≤ 1 := by
    have hnd : ((s.accepted.filter (·.dvKey = t.dvKey)).map (·.dvSeq)).Nodup := by
      rw [hs.accepted_seqs]; exact List.nodup_range
    have hcount := List.nodup_iff_count_le_one.mp hnd t.dvSeq
    simp only [List.count_eq_countP, List.countP_map, List.countP_filter] at hcount
    refine Nat.le_trans (Nat.le_of_eq (List.countP_congr fun u _ => ?_)) hcount
    simp [P, and_comm]
  refine hs.outstanding_unique hone ht ⟨rfl, rfl⟩ ht' ⟨hkey.symm, ?_⟩
  rw [hs.in_flight_seq w' t' ht', hs.in_flight_seq w t ht, hkey]

/-! ### Turns -/

/-- The effect of a worker's turn: tasks move between the queues and the worker, and a write task
is only taken when it is next in line. -/
structure Turn (p p' : WorkerPool α) (w : Nat) : Prop where
  writes : p'.writes = p.writes
  prefetches : p'.prefetches = p.prefetches
  dvStates : p'.dvStates = p.dvStates
  submitter : p'.submitter = p.submitter
  threadCount : p'.threadCount = p.threadCount
  in_flight : p.inFlight = p.busy → p'.inFlight = p'.busy
  worker : ∃ x, p'.worker = Function.update p.worker w x ∧ (∀ t, x ≠ .writing t .ran) ∧
    ∀ t ∈ x.outstanding, t.dvSeq = (p.dvStates t.dvKey).execSeq

section Turn

variable {p : WorkerPool α} {w top : Nat}

/-- A worker takes a prefetch. -/
theorem Turn.takePrefetch (hw : w < p.threadCount) (hidle : p.worker w = .idle) :
    Turn p (p.takePrefetch w top) w := by
  unfold WorkerPool.takePrefetch
  split
  -- the task moves from the heap to the worker
  · next task hget =>
    obtain ⟨htop, rfl⟩ := List.getElem?_eq_some_iff.mp hget
    have hmove : (p.prefetchQueue.eraseIdx top : Multiset (PrefetchTask α)) +
        {p.prefetchQueue[top]} = p.prefetchQueue := by
      rw [add_comm, Multiset.singleton_add, Multiset.cons_coe]
      exact Multiset.coe_eq_coe.mpr (List.getElem_cons_eraseIdx_perm htop)
    refine
      { writes := ?_, prefetches := ?_, dvStates := rfl, submitter := rfl, threadCount := rfl
        in_flight := ?_
        worker := ⟨_, rfl, by simp, fun t ht => absurd ht (Multiset.notMem_zero t)⟩ }
    · simp only [WorkerPool.writes]
      rw [Lts.tally_update_same (by rw [hidle]; rfl)]
    · simp only [WorkerPool.prefetches]
      rw [Lts.tally_update_add hw (by rw [hidle]; rfl), ← hmove]
      simp only [Worker.unrun]
      abel
    · intro h
      simp only [WorkerPool.busy] at h ⊢
      rw [Lts.tally_update_add hw (by rw [hidle]; rfl), h]
      rfl
  -- nothing to take: the worker stays idle
  · refine
      { writes := rfl, prefetches := rfl, dvStates := rfl, submitter := rfl, threadCount := rfl
        in_flight := id
        worker := ⟨.idle, ?_, by simp, fun t ht => absurd ht (Multiset.notMem_zero t)⟩ }
    rw [← hidle, Function.update_eq_self]

theorem Turn.tryExecuteOne (hw : w < p.threadCount) (hidle : p.worker w = .idle) :
    Turn p (p.tryExecuteOne w top) w := by
  unfold WorkerPool.tryExecuteOne
  split
  · next task rest hq =>
    split
    · -- not next in line: the task goes to the back, which is the same multiset
      let q : WorkerPool α := { p with writeQueue := rest ++ [task] }
      have hq' : q.writes = p.writes := by
        simp only [WorkerPool.writes, q, hq]
        congr 1
        exact Multiset.coe_eq_coe.mpr (List.perm_append_singleton _ _)
      have ht : Turn q (q.takePrefetch w top) w := Turn.takePrefetch hw hidle
      exact { ht with writes := ht.writes.trans hq' }
    -- next in line: the task moves from the queue to the worker
    · next hseq =>
      refine
        { writes := ?_, prefetches := ?_, dvStates := rfl, submitter := rfl, threadCount := rfl
          in_flight := ?_, worker := ⟨_, rfl, by simp, ?_⟩ }
      · simp only [WorkerPool.writes, hq]
        rw [Lts.tally_update_add hw (by rw [hidle]; rfl), ← Multiset.cons_coe,
          ← Multiset.singleton_add]
        simp only [Worker.outstanding]
        abel
      · simp only [WorkerPool.prefetches]
        rw [Lts.tally_update_same (by rw [hidle]; rfl)]
      · intro h
        simp only [WorkerPool.busy] at h ⊢
        rw [Lts.tally_update_add hw (by rw [hidle]; rfl), h]
        rfl
      · intro t ht
        rw [Multiset.mem_singleton.mp ht]
        exact not_not.mp hseq
  · exact Turn.takePrefetch hw hidle

end Turn

/-- A turn keeps the invariant. -/
theorem Inv.turn_of (hs : Inv s) {p' : WorkerPool α} {w : Nat} (hw : w < s.pool.threadCount)
    (hidle : s.pool.worker w = .idle) (ht : Turn s.pool p' w) : Inv { s with pool := p' } := by
  obtain ⟨x, hx, hran, hseq⟩ := ht.worker
  have hwork : ∀ v, v ≠ w → p'.worker v = s.pool.worker v := fun v hv => by
    rw [hx, Function.update_of_ne hv]
  have hself : p'.worker w = x := by rw [hx, Function.update_self]
  -- no worker comes to be past its callback by a turn
  have hranning : ∀ v t, p'.worker v = .writing t .ran ↔ s.pool.worker v = .writing t .ran := by
    intro v t
    by_cases hv : v = w
    · subst hv
      rw [hself, hidle]
      exact ⟨fun h => absurd h (hran t), fun h => by simp at h⟩
    · rw [hwork v hv]
  refine
    { writes := by rw [ht.writes]; exact hs.writes
      prefetches := by rw [ht.prefetches]; exact hs.prefetches
      accepted_seqs := by rw [ht.dvStates]; exact hs.accepted_seqs
      completed_seqs := by rw [ht.dvStates]; exact hs.completed_seqs
      in_flight_seq := ?_
      ran_eq := by simpa only [hranning] using hs.ran_eq
      in_flight := ht.in_flight hs.in_flight
      idle_of_le := ?_ }
  · intro v hv
    simp only [ht.threadCount] at hv ⊢
    rw [hwork v (by omega)]
    exact hs.idle_of_le v hv
  · intro v t hv
    simp only [ht.dvStates] at hv ⊢
    by_cases hvw : v = w
    · subst hvw
      rw [hself] at hv
      exact hseq t hv
    · rw [hwork v hvw] at hv
      exact hs.in_flight_seq v t hv

theorem Inv.turn (hs : Inv s) {w top : Nat} (hw : w < s.pool.threadCount)
    (hidle : s.pool.worker w = .idle) : Inv (s.turn w top) := by
  unfold WorkerRun.turn
  split
  -- the worker leaves its loop, and held nothing
  · refine hs.turn_of hw hidle
      { writes := ?_, prefetches := ?_, dvStates := rfl, submitter := rfl, threadCount := rfl
        in_flight := ?_
        worker := ⟨.exited, rfl, by simp, fun t ht => absurd ht (Multiset.notMem_zero t)⟩ }
    all_goals simp only [WorkerPool.setWorker, WorkerPool.writes, WorkerPool.prefetches,
      WorkerPool.busy]
    all_goals rw [Lts.tally_update_same (by rw [hidle]; rfl)]
    exact id
  · exact hs.turn_of hw hidle (Turn.tryExecuteOne hw hidle)

/-! ### Submissions -/

theorem Inv.setSubmitter (hs : Inv s) (c : Nat) (x : Submitter α) (xs : List (Submission α)) :
    Inv { s with pool := s.pool.setSubmitter c x, submissions := xs } :=
  { hs with }

theorem Inv.enqueue (hs : Inv s) (req : WriteRequest α) :
    Inv { s with
      pool := s.pool.enqueueWrite req, accepted := s.accepted ++ [s.pool.taskOf req] } := by
  -- the submission reads and advances `next_seq` only
  have hexec : ∀ k,
      ((s.pool.enqueueWrite req).dvStates k).execSeq = (s.pool.dvStates k).execSeq := by
    intro k
    simp only [WorkerPool.enqueueWrite]
    by_cases hk : k = req.dvKey
    · rw [hk, Function.update_self]
    · rw [Function.update_of_ne hk]
  refine
    { writes := ?_
      prefetches := hs.prefetches
      accepted_seqs := ?_
      completed_seqs := fun k => by simp only [hexec]; exact hs.completed_seqs k
      in_flight_seq := fun w t ht => by simp only [hexec]; exact hs.in_flight_seq w t ht
      ran_eq := hs.ran_eq
      in_flight := hs.in_flight
      idle_of_le := hs.idle_of_le }
  · have hw := hs.writes
    simp only [WorkerPool.writes, WorkerPool.enqueueWrite, ← Multiset.coe_add] at hw ⊢
    rw [hw]
    abel
  -- the new task carries the number that was next, at the back of the accepted ones
  · intro k
    simp only [WorkerPool.enqueueWrite, List.filter_append, List.map_append]
    by_cases hk : k = req.dvKey
    · subst hk
      rw [hs.accepted_seqs, Function.update_self, List.range_succ]
      simp [WorkerPool.taskOf]
    · rw [hs.accepted_seqs, Function.update_of_ne hk]
      simp [WorkerPool.taskOf, Ne.symm hk]

theorem Inv.finishSubmit (hs : Inv s) (c : Nat) (req : WriteRequest α) :
    Inv (s.finishSubmit c req) := by
  unfold WorkerRun.finishSubmit
  split
  · exact hs.setSubmitter c _ _
  · exact (hs.enqueue req).setSubmitter c _ _

theorem Inv.pushPrefetch (hs : Inv s) (task : PrefetchTask α) :
    Inv { s with
      pool := s.pool.pushPrefetch task
      acceptedPrefetch := s.acceptedPrefetch ++ [task] } := by
  refine { hs with prefetches := ?_ }
  have hp := hs.prefetches
  simp only [WorkerPool.prefetches, WorkerPool.pushPrefetch, ← Multiset.coe_add] at hp ⊢
  rw [hp]
  abel

/-! ### Workers with a task -/

/-- Taking or dropping the ordering mutex touches no counter. -/
theorem Inv.setMu (hs : Inv s) (k : DatasetVariableKey) (m : Option Nat) :
    Inv { s with pool := s.pool.setDvState k { s.pool.dvStates k with mu := m } } := by
  have hseqs : ∀ k',
      ((s.pool.setDvState k { s.pool.dvStates k with mu := m }).dvStates k').nextSeq =
        (s.pool.dvStates k').nextSeq ∧
      ((s.pool.setDvState k { s.pool.dvStates k with mu := m }).dvStates k').execSeq =
        (s.pool.dvStates k').execSeq := by
    intro k'
    exact ⟨Lts.apply_update_eq DvOrderState.nextSeq (by rfl) k',
      Lts.apply_update_eq DvOrderState.execSeq (by rfl) k'⟩
  exact
    { hs with
      accepted_seqs := fun k' => by simp only [(hseqs k').1]; exact hs.accepted_seqs k'
      completed_seqs := fun k' => by simp only [(hseqs k').2]; exact hs.completed_seqs k'
      in_flight_seq := fun w t ht => by simp only [(hseqs _).2]; exact hs.in_flight_seq w t ht }

section Move

variable {w : Nat} {x : Worker α}

/-- Conservation over a step of worker `w` to `x`: what it gives up goes to the logs. -/
theorem Conserved.move (hs : Conserved s) (hne : s.pool.worker w ≠ .idle)
    (hworker : s'.pool.worker = Function.update s.pool.worker w x)
    (hqueues : s'.pool.writeQueue = s.pool.writeQueue ∧
      s'.pool.prefetchQueue = s.pool.prefetchQueue ∧ s'.pool.threadCount = s.pool.threadCount)
    (haccepted : s'.accepted = s.accepted ∧ s'.acceptedPrefetch = s.acceptedPrefetch)
    (hcompleted : x.outstanding + s'.completed = (s.pool.worker w).outstanding + s.completed)
    (hran : x.unrun + s'.ranPrefetch = (s.pool.worker w).unrun + s.ranPrefetch)
    (hbusy : s'.pool.inFlight + (s.pool.worker w).busy = s.pool.inFlight + x.busy) :
    Conserved s' := by
  have hw := hs.lt_of_ne_idle hne
  refine { writes := ?_, prefetches := ?_, in_flight := ?_, idle_of_le := ?_ }
  -- the sum over the workers changes by what this one has gained or lost
  · rw [haccepted.1, WorkerPool.writes, hworker, hqueues.1, hqueues.2.2]
    exact Lts.tally_balance hw hs.writes hcompleted
  · rw [haccepted.2, WorkerPool.prefetches, hworker, hqueues.2.1, hqueues.2.2]
    exact Lts.tally_balance hw hs.prefetches hran
  · have htally := Lts.tally_update (g := Worker.busy) (f := s.pool.worker) (b := x) hw
    have hin := hs.in_flight
    simp only [WorkerPool.busy, hworker, hqueues.2.2] at hin ⊢
    omega
  · intro v hv
    rw [hqueues.2.2] at hv
    rw [hworker, Function.update_of_ne (by omega)]
    exact hs.idle_of_le v hv

/-- The sequence numbers over a step away from the callback and from `exec_seq`. -/
theorem Sequenced.setWorker (hs : Sequenced s)
    (hout : ∀ t ∈ x.outstanding, t ∈ (s.pool.worker w).outstanding)
    (hran : ∀ t, x ≠ .writing t .ran) (hran' : ∀ t, s.pool.worker w ≠ .writing t .ran) :
    Sequenced { s with pool := s.pool.setWorker w x } := by
  -- neither before nor after is the worker between the callback and the increment
  have hranning : ∀ v t, (s.pool.setWorker w x).worker v = .writing t .ran ↔
      s.pool.worker v = .writing t .ran := by
    intro v t
    simp only [WorkerPool.setWorker]
    by_cases hv : v = w
    · subst hv
      rw [Function.update_self]
      exact ⟨fun h => absurd h (hran t), fun h => absurd h (hran' t)⟩
    · rw [Function.update_of_ne hv]
  refine
    { hs with
      in_flight_seq := ?_
      ran_eq := by simpa only [hranning] using hs.ran_eq }
  intro v t ht
  refine hs.in_flight_seq v t ?_
  simp only [WorkerPool.setWorker] at ht
  by_cases hv : v = w
  · subst hv; rw [Function.update_self] at ht; exact hout t ht
  · rwa [Function.update_of_ne hv] at ht

end Move

/-- The callback of a write task: no other task of the key is in flight, so the log of callbacks
was the log of completed tasks. -/
theorem Inv.callback (hs : Inv s) {w : Nat} {t : WriteTask α}
    (hw : s.pool.worker w = .writing t .locked) :
    Sequenced { s with pool := s.pool.setWorker w (.writing t .ran), ran := s.ran ++ [t] } := by
  have hmem : t ∈ (s.pool.worker w).outstanding := Worker.mem_outstanding.mpr (.inr (.inl hw))
  -- a second task of the key past its callback would be a second one in flight
  have hother : ∀ v u, s.pool.worker v = .writing u .ran → u.dvKey ≠ t.dvKey := by
    intro v u hv hkey
    have hvu : u ∈ (s.pool.worker v).outstanding := Worker.mem_outstanding.mpr (.inr (.inr hv))
    obtain rfl := hs.in_flight_unique hvu hmem hkey
    rw [hv] at hw
    cases hw
  have hranning : ∀ v u, (s.pool.setWorker w (.writing t .ran)).worker v = .writing u .ran ↔
      (v = w ∧ u = t) ∨ s.pool.worker v = .writing u .ran := by
    intro v u
    simp only [WorkerPool.setWorker]
    by_cases hv : v = w
    · subst hv
      rw [Function.update_self, hw]
      simp [eq_comm]
    · rw [Function.update_of_ne hv]
      simp [hv]
  refine
    { accepted_seqs := hs.accepted_seqs, completed_seqs := hs.completed_seqs
      in_flight_seq := ?_, ran_eq := ?_ }
  · intro v u hu
    refine hs.in_flight_seq v u ?_
    simp only [WorkerPool.setWorker] at hu
    by_cases hv : v = w
    · subst hv; rw [Function.update_self] at hu; rw [hw]; exact hu
    · rwa [Function.update_of_ne hv] at hu
  · intro k
    simp only [hranning, List.filter_append]
    by_cases hk : t.dvKey = k
    -- the key of the callback: the log gets ahead of the completed tasks by one
    · left
      refine ⟨w, t, .inl ⟨rfl, rfl⟩, hk, ?_⟩
      rcases hs.ran_eq k with ⟨v, u, hv, hu, -⟩ | ⟨-, heq⟩
      · exact absurd (hu.trans hk.symm) (hother v u hv)
      · simp [heq, hk]
    -- any other key: its part of the log does not change
    · rcases hs.ran_eq k with ⟨v, u, hv, hu, heq⟩ | ⟨hnone, heq⟩
      · exact .inl ⟨v, u, .inr hv, hu, by simp [heq, hk]⟩
      · refine .inr ⟨?_, by simp [heq, hk]⟩
        rintro v u (⟨rfl, rfl⟩ | hv)
        · exact hk
        · exact hnone v u hv

/-- Advancing `exec_seq` completes the key's sequence by one. No other task of the key is in
flight, so none is left with the old number. -/
theorem Inv.bump (hs : Inv s) {w : Nat} {t : WriteTask α}
    (hw : s.pool.worker w = .writing t .ran) :
    Sequenced { s with
      pool := (s.pool.setDvState t.dvKey { s.pool.dvStates t.dvKey with
        execSeq := (s.pool.dvStates t.dvKey).execSeq + 1 }).setWorker w (.writing t .bumped)
      completed := s.completed ++ [t] } := by
  have hmem : t ∈ (s.pool.worker w).outstanding := Worker.mem_outstanding.mpr (.inr (.inr hw))
  have hseq := hs.in_flight_seq w t hmem
  refine
    { accepted_seqs := ?_, completed_seqs := ?_, in_flight_seq := ?_, ran_eq := ?_ }
  · intro k
    simp only [WorkerPool.setWorker, WorkerPool.setDvState]
    by_cases hk : k = t.dvKey
    · subst hk; rw [Function.update_self]; exact hs.accepted_seqs _
    · rw [Function.update_of_ne hk]; exact hs.accepted_seqs k
  · intro k
    simp only [WorkerPool.setWorker, WorkerPool.setDvState, List.filter_append, List.map_append]
    by_cases hk : k = t.dvKey
    · subst hk
      rw [hs.completed_seqs, Function.update_self, List.range_succ]
      simp [hseq]
    · rw [hs.completed_seqs, Function.update_of_ne hk]
      simp [Ne.symm hk]
  -- `w` has nothing outstanding now, and nobody else has a task of this key
  · intro v u hu
    simp only [WorkerPool.setWorker, WorkerPool.setDvState] at hu ⊢
    by_cases hv : v = w
    · subst hv; rw [Function.update_self] at hu; exact absurd hu (Multiset.notMem_zero u)
    · rw [Function.update_of_ne hv] at hu
      rw [Function.update_of_ne fun hkey => hv (hs.in_flight_unique hu hmem hkey)]
      exact hs.in_flight_seq v u hu
  · intro k
    -- `w` was the one worker past a callback of the key
    have hranning : ∀ v u,
        Function.update s.pool.worker w (.writing t .bumped) v = .writing u .ran ↔
        v ≠ w ∧ s.pool.worker v = .writing u .ran := by
      intro v u
      by_cases hv : v = w
      · subst hv; rw [Function.update_self]; simp
      · rw [Function.update_of_ne hv]; simp [hv]
    simp only [WorkerPool.setWorker, WorkerPool.setDvState, hranning, List.filter_append]
    have huniq : ∀ v u, s.pool.worker v = .writing u .ran → u.dvKey = t.dvKey → v = w := by
      intro v u hv hkey
      have hvu : u ∈ (s.pool.worker v).outstanding := Worker.mem_outstanding.mpr (.inr (.inr hv))
      exact hs.in_flight_unique hvu hmem hkey
    by_cases hk : t.dvKey = k
    · right
      refine ⟨fun v u hv hu => hv.1 (huniq v u hv.2 (hu.trans hk.symm)), ?_⟩
      rcases hs.ran_eq k with ⟨v, u, hv, hu, heq⟩ | ⟨hnone, -⟩
      · obtain rfl := huniq v u hv (hu.trans hk.symm)
        rw [hw] at hv
        cases hv
        simp [heq, hk]
      · exact absurd hk (hnone w t hw)
    · rcases hs.ran_eq k with ⟨v, u, hv, hu, heq⟩ | ⟨hnone, heq⟩
      · refine .inl ⟨v, u, ⟨?_, hv⟩, hu, by simp [heq, hk]⟩
        rintro rfl
        rw [hw] at hv
        cases hv
        exact hk hu
      · exact .inr ⟨fun v u hv => hnone v u hv.2, by simp [heq, hk]⟩

/-- A step away from the callback and from `exec_seq`, by a worker that keeps its task or has
nothing left to give up. -/
theorem Inv.setWorker (hs : Inv s) {w : Nat} {x : Worker α} (hne : s.pool.worker w ≠ .idle)
    (hout : x.outstanding = (s.pool.worker w).outstanding)
    (hunrun : x.unrun = (s.pool.worker w).unrun) (hbusy : x.busy = (s.pool.worker w).busy)
    (hran : ∀ t, x ≠ .writing t .ran) (hran' : ∀ t, s.pool.worker w ≠ .writing t .ran) :
    Inv { s with pool := s.pool.setWorker w x } :=
  ⟨hs.toConserved.move hne rfl ⟨rfl, rfl, rfl⟩ ⟨rfl, rfl⟩ (by rw [hout]) (by rw [hunrun])
    (by rw [hbusy]; rfl), hs.toSequenced.setWorker (fun t ht => hout ▸ ht) hran hran'⟩

/-- The last step of a worker with a task. -/
theorem Inv.leave (hs : Inv s) {w : Nat} (hbusy : (s.pool.worker w).busy = 1)
    (hout : (s.pool.worker w).outstanding = 0) (hunrun : (s.pool.worker w).unrun = 0)
    (hran : ∀ t, s.pool.worker w ≠ .writing t .ran) :
    Inv { s with pool := { s.pool.setWorker w .idle with inFlight := s.pool.inFlight - 1 } } := by
  have hne : s.pool.worker w ≠ .idle := fun h => by rw [h] at hbusy; cases hbusy
  -- the leaving worker is itself counted in flight
  have hpos : 1 ≤ s.pool.inFlight := by
    have := Lts.le_tally (g := Worker.busy) (f := s.pool.worker) (hs.lt_of_ne_idle hne)
    rw [hs.in_flight, WorkerPool.busy]
    omega
  -- it carries no task, so the sequence books stay as they are
  have hseq := hs.toSequenced.setWorker (w := w) (x := .idle)
    (fun t ht => absurd ht (Multiset.notMem_zero t)) (by simp) hran
  have hcon : Conserved
      { s with pool := { s.pool.setWorker w .idle with inFlight := s.pool.inFlight - 1 } } :=
    hs.toConserved.move (w := w) (x := .idle) hne rfl ⟨rfl, rfl, rfl⟩ ⟨rfl, rfl⟩
      (by rw [hout]; rfl) (by rw [hunrun]; rfl) (by rw [hbusy]; simp only [Worker.busy]; omega)
  exact ⟨hcon, { hseq with }⟩

/-- **Every access of a worker with a task keeps the invariant.** -/
theorem Inv.advance (hs : Inv s) {w : Nat} (h : s.advance w = some s') : Inv s' := by
  unfold WorkerRun.advance at h
  split at h
  -- the lock of the variable is taken, if it is this task's turn
  case h_1 t hw =>
    split at h
    · obtain rfl := Option.some.inj h
      refine (hs.setMu t.dvKey (some w)).setWorker ?_ ?_ ?_ ?_ ?_ ?_
      all_goals simp [WorkerPool.setDvState, hw, Worker.outstanding, Worker.unrun, Worker.busy]
    · exact absurd h (by simp)
  -- the callback runs
  case h_2 t hw =>
    obtain rfl := Option.some.inj h
    refine ⟨hs.toConserved.move ?_ rfl ⟨rfl, rfl, rfl⟩ ⟨rfl, rfl⟩ ?_ ?_ ?_, hs.callback hw⟩
    all_goals simp [WorkerPool.setWorker, hw, Worker.outstanding, Worker.unrun, Worker.busy]
  -- `exec_seq` is advanced: the task is completed
  case h_3 t hw =>
    obtain rfl := Option.some.inj h
    refine ⟨hs.toConserved.move ?_ rfl ⟨rfl, rfl, rfl⟩ ⟨rfl, rfl⟩ ?_ ?_ ?_, hs.bump hw⟩
    all_goals simp [WorkerPool.setWorker, WorkerPool.setDvState, hw, Worker.outstanding,
      Worker.unrun, Worker.busy, ← Multiset.coe_add, add_comm]
  -- the lock is given back
  case h_4 t hw =>
    obtain rfl := Option.some.inj h
    refine (hs.setMu t.dvKey none).setWorker ?_ ?_ ?_ ?_ ?_ ?_
    all_goals simp [WorkerPool.setDvState, hw, Worker.outstanding, Worker.unrun, Worker.busy]
  -- the counters, and back to the loop
  case h_5 t hw =>
    obtain rfl := Option.some.inj h
    have hmove := hs.setWorker (w := w) (x := .writing t .counted) (by simp [hw]) (by rw [hw]; rfl)
      (by rw [hw]; rfl) (by rw [hw]; rfl) (by simp) (by simp [hw])
    exact { hmove with }
  case h_6 t hw =>
    obtain rfl := Option.some.inj h
    exact hs.leave (by rw [hw]; rfl) (by rw [hw]; rfl) (by rw [hw]; rfl) (by simp [hw])
  -- a prefetch: its callback, then the counters
  case h_7 t hw =>
    obtain rfl := Option.some.inj h
    have hseq := hs.toSequenced.setWorker (w := w) (x := .prefetching t .ran)
      (fun u hu => absurd hu (Multiset.notMem_zero u)) (by simp) (by simp [hw])
    refine ⟨hs.toConserved.move ?_ rfl ⟨rfl, rfl, rfl⟩ ⟨rfl, rfl⟩ ?_ ?_ ?_, { hseq with }⟩
    all_goals simp [WorkerPool.setWorker, hw, Worker.outstanding, Worker.unrun, Worker.busy,
      ← Multiset.coe_add, add_comm]
  case h_8 t hw =>
    obtain rfl := Option.some.inj h
    have hmove := hs.setWorker (w := w) (x := .prefetching t .counted) (by simp [hw])
      (by rw [hw]; rfl) (by rw [hw]; rfl) (by rw [hw]; rfl) (by simp) (by simp [hw])
    exact { hmove with }
  case h_9 t hw =>
    obtain rfl := Option.some.inj h
    exact hs.leave (by rw [hw]; rfl) (by rw [hw]; rfl) (by rw [hw]; rfl) (by simp [hw])
  case h_10 => cases h
  case h_11 => cases h

/-- **Every step keeps the invariant.** -/
theorem Inv.step (hs : Inv s) {op : WorkerOp α} (h : s.step op = some s') : Inv s' := by
  cases step_cases h with
  | enters c | @waits c => exact hs.setSubmitter c _ _
  | @locks c | @wakes c => exact hs.finishSubmit c _
  | dropped => exact hs
  | prefetches task => exact hs.pushPrefetch task
  | shuts => exact { hs with }
  | turns lt idle => exact hs.turn lt idle
  | advances ran => exact hs.advance ran

theorem Inv.of_reachable (h : (system α).Reachable s) : Inv s := by
  refine Lts.System.Reach.invariant ?_ (fun _ _ _ hi _ hstep => hi.step hstep) h
  rintro _ ⟨n, bp, rfl⟩
  exact Inv.initial n bp

/-! ### What the submitters are told -/

/-- **Every answer names a task of its own**: the accepted tasks are those of the submissions that
were answered with a number, one for each, with the key, the handle and the callback that its caller
gave. -/
structure Answered (s : WorkerRun α) : Prop where
  tasks : s.submissions.filterMap Submission.task = s.accepted
  /-- What a caller has been told last is on record. -/
  latest : ∀ c r, s.pool.submitter c = .returned r →
    ∃ req, (s.submissions.filter (·.caller = c)).getLast? = some ⟨c, req, r⟩

/-- A submission returns. -/
theorem Answered.returns (hs : Answered s) {c : Nat} {req : WriteRequest α} {r : SubmitResult}
    (hsub : s'.pool.submitter = Function.update s.pool.submitter c (.returned r))
    (hxs : s'.submissions = s.submissions ++ [⟨c, req, r⟩])
    (haccepted : s'.accepted = s.accepted ++ (Submission.task ⟨c, req, r⟩).toList) :
    Answered s' where
  tasks := by
    rw [hxs, haccepted, List.filterMap_append, hs.tasks]
    cases r <;> rfl
  latest := by
    intro d r' hd
    rw [hsub] at hd
    rw [hxs, List.filter_append]
    -- the call that returns now, and those that returned before
    by_cases hdc : d = c
    · subst hdc
      rw [Function.update_self] at hd
      obtain rfl := Submitter.returned.inj hd
      exact ⟨req, by simp⟩
    · rw [Function.update_of_ne hdc] at hd
      simpa [Ne.symm hdc] using hs.latest d r' hd

/-- A submission moves on, or nothing happens to the submissions. -/
theorem Answered.waits (hs : Answered s) (hxs : s'.submissions = s.submissions)
    (haccepted : s'.accepted = s.accepted)
    (hsub : ∀ c r, s'.pool.submitter c = .returned r → s.pool.submitter c = .returned r) :
    Answered s' where
  tasks := by rw [hxs, haccepted, hs.tasks]
  latest c r hc := by
    rw [hxs]
    exact hs.latest c r (hsub c r hc)

/-- A submission is answered for its own task. -/
theorem Answered.finishSubmit (hs : Answered s) (c : Nat) (req : WriteRequest α) :
    Answered (s.finishSubmit c req) := by
  unfold WorkerRun.finishSubmit
  split
  · next r hr =>
    refine hs.returns rfl rfl ?_
    -- a refusal has no number
    cases r with
    | accepted n => exact absurd rfl (refusal_ne_accepted hr n)
    | shutDown | queueFull => exact (List.append_nil _).symm
  · exact hs.returns rfl rfl rfl

theorem turn_submissions (s : WorkerRun α) (w top : Nat) :
    (s.turn w top).submissions = s.submissions := by
  unfold WorkerRun.turn
  split <;> rfl

theorem advance_submissions {w : Nat} (h : s.advance w = some s') :
    s'.submissions = s.submissions := by
  unfold WorkerRun.advance at h
  split at h
  case h_1 =>
    simp only [Option.ite_none_right_eq_some, Option.some.injEq] at h
    obtain ⟨-, rfl⟩ := h
    rfl
  case h_10 => cases h
  case h_11 => cases h
  all_goals
    obtain rfl := Option.some.inj h
    rfl

/-- Every answer names its own task, after every step. -/
theorem Answered.step (hs : Answered s) {op : WorkerOp α} (h : s.step op = some s') :
    Answered s' := by
  -- a submitter that is told nothing
  have hbusy : ∀ {c : Nat} {x : Submitter α}, (∀ r, x ≠ .returned r) → ∀ d r,
      Function.update s.pool.submitter c x d = .returned r → s.pool.submitter d = .returned r := by
    intro c x hx d r hd
    by_cases hdc : d = c
    · subst hdc
      rw [Function.update_self] at hd
      exact absurd hd (hx r)
    · rwa [Function.update_of_ne hdc] at hd
  cases step_cases h with
  | enters c req =>
    by_cases hdown : s.pool.shutdown = true
    · simp only [hdown, if_true]
      exact hs.returns rfl rfl (List.append_nil _).symm
    · simp only [hdown]
      exact hs.waits rfl rfl (hbusy (by simp))
  | waits => exact hs.waits rfl rfl (hbusy (by simp))
  | @locks c req | @wakes c req => exact hs.finishSubmit c req
  | dropped | prefetches | shuts => exact hs.waits rfl rfl fun _ _ h => h
  | @turns w top =>
    obtain ⟨hsub, -, haccepted, -⟩ := turn_frame s w top
    exact hs.waits (turn_submissions s w top) haccepted fun c r hc => hsub ▸ hc
  | advances ran =>
    obtain ⟨haccepted, hsub, -⟩ := advance_cases ran
    exact hs.waits (advance_submissions ran) haccepted fun c r hc => hsub ▸ hc

/-- Every answer names its own task, in every run. -/
theorem Answered.of_reachable (h : (system α).Reachable s) : Answered s := by
  refine Lts.System.Reach.invariant ?_ (fun _ _ _ hs _ hstep => hs.step hstep) h
  rintro _ ⟨n, bp, rfl⟩
  exact ⟨rfl, fun _ _ => nofun⟩

/-! ### Order, exactly once -/

/-- What holds for the key `k`. -/
structure Ordered (s : WorkerRun α) (k : DatasetVariableKey) : Prop where
  /-- The numbers of the tasks queued or in flight are `exec_seq, …, next_seq - 1`, each once. -/
  outstanding : (s.pool.writes.filter (·.dvKey = k)).map (·.dvSeq) =
    (Finset.Ico (s.pool.dvStates k).execSeq (s.pool.dvStates k).nextSeq).val
  exec_le_next : (s.pool.dvStates k).execSeq ≤ (s.pool.dvStates k).nextSeq
  /-- At most one worker has a task in flight. -/
  one_in_flight : ∀ w w' t t', t ∈ (s.pool.worker w).outstanding → t.dvKey = k →
    t' ∈ (s.pool.worker w').outstanding → t'.dvKey = k → w = w'
  /-- The executed tasks are numbered `0, …, exec_seq - 1` in that order … -/
  executed : (s.completed.filter (·.dvKey = k)).map (·.dvSeq) =
    List.range (s.pool.dvStates k).execSeq
  /-- … which is the order in which they were accepted. -/
  submission_order : s.completed.filter (·.dvKey = k) =
    (s.accepted.filter (·.dvKey = k)).take (s.pool.dvStates k).execSeq
  /-- The callbacks that ran are those of the executed tasks, in order, and at most one more. -/
  callbacks : s.ran.filter (·.dvKey = k) = s.completed.filter (·.dvKey = k) ∨
    ∃ w t, s.pool.worker w = .writing t .ran ∧
      s.ran.filter (·.dvKey = k) = s.completed.filter (·.dvKey = k) ++ [t]
  /-- No callback ran twice. -/
  once : ((s.ran.filter (·.dvKey = k)).map (·.dvSeq)).Nodup

/-- Order for every key, nothing dropped, nothing accepted but what was submitted, and `drain()`
waits for everything accepted. -/
structure Sound (s : WorkerRun α) : Prop where
  ordered : ∀ k, Ordered s k
  answered : Answered s
  writes_kept : (s.accepted : Multiset (WriteTask α)) = s.pool.writes + s.completed
  prefetches_kept : (s.acceptedPrefetch : Multiset (PrefetchTask α)) =
    s.pool.prefetches + s.ranPrefetch
  drained : s.pool.Drained → s.ran.Perm s.accepted ∧ s.ranPrefetch.Perm s.acceptedPrefetch

/-- The callbacks of a key that ran are numbered from zero in order. -/
theorem Inv.ran_numbered (hs : Inv s) (k : DatasetVariableKey) :
    ∃ n, (s.ran.filter (·.dvKey = k)).map (·.dvSeq) = List.range n := by
  rcases hs.ran_eq k with ⟨w, t, hw, hk, heq⟩ | ⟨-, heq⟩
  · have hseq := hs.in_flight_seq w t (Worker.mem_outstanding.mpr (.inr (.inr hw)))
    refine ⟨(s.pool.dvStates k).execSeq + 1, ?_⟩
    rw [heq, List.map_append, hs.completed_seqs, List.range_succ]
    simp [hseq, hk]
  · exact ⟨_, by rw [heq, hs.completed_seqs]⟩

/-- The callback of a completed task has run. -/
theorem Sequenced.ran_of_completed (hs : Sequenced s) {t : WriteTask α} (ht : t ∈ s.completed) :
    t ∈ s.ran := by
  have hmem : t ∈ s.completed.filter (·.dvKey = t.dvKey) :=
    List.mem_filter.mpr ⟨ht, decide_eq_true rfl⟩
  have hran : t ∈ s.ran.filter (·.dvKey = t.dvKey) := by
    rcases hs.ran_eq t.dvKey with ⟨w, u, -, -, heq⟩ | ⟨-, heq⟩
    · rw [heq]; exact List.mem_append.mpr (.inl hmem)
    · rw [heq]; exact hmem
  exact (List.mem_filter.mp hran).1

/-- The tasks of a key are in order. -/
theorem Inv.ordered (hs : Inv s) (k : DatasetVariableKey) : Ordered s k where
  outstanding := (hs.outstanding_seqs k).2
  exec_le_next := (hs.outstanding_seqs k).1
  one_in_flight := fun w w' t t' ht hk ht' hk' => hs.in_flight_unique ht ht' (hk.trans hk'.symm)
  executed := hs.completed_seqs k
  submission_order := by
    -- completed tasks are accepted ones, and both are numbered from zero
    refine eq_take_of_numbered (hs.accepted_seqs k) (hs.completed_seqs k) fun t ht => ?_
    have hmem : t ∈ (s.accepted : Multiset (WriteTask α)) := by
      rw [hs.writes]
      exact Multiset.mem_add.mpr (.inr (List.mem_filter.mp ht).1)
    exact List.mem_filter.mpr ⟨hmem, (List.mem_filter.mp ht).2⟩
  callbacks := by
    rcases hs.ran_eq k with ⟨w, t, hw, -, heq⟩ | ⟨-, heq⟩
    · exact .inr ⟨w, t, hw, heq⟩
    · exact .inl heq
  once := by
    obtain ⟨n, hn⟩ := hs.ran_numbered k
    rw [hn]
    exact List.nodup_range

/-- When `drain()`'s predicate holds no worker holds a task. -/
theorem Inv.idle_of_drained (hs : Inv s) (hd : s.pool.Drained) (w : Nat) :
    (s.pool.worker w).busy = 0 := by
  by_cases hw : w < s.pool.threadCount
  · exact Lts.eq_zero_of_tally (g := Worker.busy) (hs.in_flight.symm.trans hd.2.2) hw
  · rw [hs.idle_of_le w (by omega)]; rfl

/-- A drained pool has run everything that it accepted. -/
theorem Inv.drained (hs : Inv s) (hd : s.pool.Drained) :
    s.ran.Perm s.accepted ∧ s.ranPrefetch.Perm s.acceptedPrefetch := by
  have hidle := hs.idle_of_drained hd
  have hout : ∀ w, (s.pool.worker w).outstanding = 0 ∧ (s.pool.worker w).unrun = 0 := by
    intro w
    have hb := hidle w
    revert hb
    cases s.pool.worker w <;> simp [Worker.busy, Worker.outstanding, Worker.unrun]
  -- no worker is past a callback, so the logs agree for every key
  have hran : ∀ k, s.ran.filter (·.dvKey = k) = s.completed.filter (·.dvKey = k) := by
    intro k
    rcases hs.ran_eq k with ⟨w, t, hw, -, -⟩ | ⟨-, heq⟩
    · have hb := hidle w
      rw [hw] at hb
      cases hb
    · exact heq
  constructor
  · have hacc : (s.accepted : Multiset (WriteTask α)) = s.completed := by
      rw [hs.writes, WorkerPool.writes, hd.1, Lts.tally_eq_zero fun w _ => (hout w).1]
      simp
    refine List.Perm.trans ?_ (Multiset.coe_eq_coe.mp hacc).symm
    -- a task counts in the whole log as it does in the part of its key
    classical
    refine List.perm_iff_count.mpr fun t => ?_
    have hcount := congrArg (List.count t) (hran t.dvKey)
    rwa [List.count_filter (by simp), List.count_filter (by simp)] at hcount
  · refine Multiset.coe_eq_coe.mp ?_
    rw [hs.prefetches, WorkerPool.prefetches, hd.2.1, Lts.tally_eq_zero fun w _ => (hout w).2]
    simp

/-- **Per-key order and exactly-once execution**, for any number of workers, any keys and every
interleaving. -/
theorem sound_of_reachable (h : (system α).Reachable s) : Sound s := by
  have hs := Inv.of_reachable h
  exact ⟨hs.ordered, .of_reachable h, hs.writes, hs.prefetches, hs.drained⟩

/-- Two workers and three tasks of one key: the second worker finds the second task not next in
line, and the third task overtakes it in the queue. -/
def overtakeOps : List (WorkerOp Nat) :=
  [.enter 0 ⟨⟨1, 1⟩, 7, 10⟩, .lock 0, .enter 1 ⟨⟨1, 1⟩, 8, 11⟩, .lock 1, .turn 0 0,
    .enter 2 ⟨⟨1, 1⟩, 9, 12⟩, .lock 2, .turn 1 0, .advance 0, .advance 0, .advance 0, .turn 1 0,
    .turn 1 0]

theorem sound_of_overtake :
    ∃ s, (system Nat).replay (fun _ _ => True) (start Nat 2 {}) overtakeOps = some s ∧
      s.pool.writeQueue.map (·.dvSeq) = [2] ∧ s.ran.map (·.callback) = [10] ∧
      s.pool.worker 1 = .writing ⟨⟨1, 1⟩, 1, 8, 11⟩ .dequeued ∧ Sound s :=
  ⟨_, rfl, rfl, rfl, rfl,
    sound_of_reachable (Lts.System.Reachable.of_replay overtakeOps ⟨2, {}, rfl⟩ rfl)⟩

end WorkerRun

end Amio
