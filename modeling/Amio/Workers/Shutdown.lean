import Amio.Workers.Order

/-!
# Shutdown of the worker pool

`shutdown()` sets the flag, wakes everyone and joins the workers; a worker leaves its loop under
`mu_` when it sees the flag and finds both queues empty. So everything that is pushed while some
worker is still in its loop is executed before that worker leaves (`Closed`). Two things are outside
this argument. A submission reads the flag before it takes `mu_` and, without backpressure, not
again under it: it may push when all workers have left. And the overload with `seq_out` answers a
submission that it drops with `AMIO_OK`.

In a run in which neither happens, nothing accepted is lost once `shutdown()` has returned
(`shutdown_complete`).
-/

namespace Amio

variable {α : Type}

/-- The three overloads of `submit_write`. -/
inductive Overload
  | legacy
  | withHandle
  | seqOut
  deriving DecidableEq, Repr

/-- Whether the caller is told that its task was accepted: by `AMIO_OK`, or by the task being
enqueued. -/
def Overload.reportsAccepted : Overload → SubmitResult → Bool
  | .seqOut, r => decide (r.status = .ok)
  | .legacy, .accepted _ | .withHandle, .accepted _ => true
  | .legacy, _ | .withHandle, _ => false

/-- The answer to the submission tells its caller that the task was accepted. -/
def Submission.isReported (overload : Nat → Overload) (x : Submission α) : Bool :=
  (overload x.caller).reportsAccepted x.result

namespace WorkerRun

variable (s : WorkerRun α)

/-- Some worker is still in its loop. -/
def Attended : Prop := ∃ w < s.pool.threadCount, s.pool.worker w ≠ .exited

/-- `shutdown()` has returned: the flag is set and every worker is joined. -/
def ShutdownReturned : Prop :=
  s.pool.shutdown = true ∧ ∀ w < s.pool.threadCount, s.pool.worker w = .exited

/-- A submission that enters the critical section: it pushes only for a worker, and a dropped one
does not answer `AMIO_OK`. -/
def Settled (overload : Overload) : Prop :=
  (s.pool.refusal = none → s.Attended) ∧
    ∀ r, s.pool.refusal = some r → overload.reportsAccepted r = false

/-- The steps at which a submission meets the end of the pool in good order. -/
def Timely (overload : Nat → Overload) : WorkerOp α → Prop
  | .enter c _ => s.pool.shutdown = true → (overload c).reportsAccepted .shutDown = false
  | .lock c => s.pool.blocksWriter = false → s.Settled (overload c)
  | .wake c _ => s.Settled (overload c)
  | .submitPrefetch _ late => ¬ (s.pool.shutdown = true ∧ late = false) → s.Attended
  | .shutdown | .turn _ _ | .advance _ => True

/-- What `shutdown()` promises. -/
structure ShutdownComplete (overload : Nat → Overload) : Prop where
  /-- Every accepted task has run, exactly once … -/
  executed : s.ShutdownReturned →
    s.ran.Perm s.accepted ∧ s.ran.Nodup ∧ s.ranPrefetch.Perm s.acceptedPrefetch
  /-- … and nothing is queued … -/
  empty : s.ShutdownReturned → s.pool.writeQueue = [] ∧ s.pool.prefetchQueue = []
  /-- … now or later. -/
  stays : s.ShutdownReturned → ∀ op s', s.step op = some s' → s'.ShutdownReturned
  /-- The submissions that are reported as accepted are the accepted tasks, one for one: each with
  its caller's own key, handle and callback, under the number it was told. -/
  reported : (s.submissions.filter (·.isReported overload)).map Submission.task =
    s.accepted.map some
  /-- The answer that a caller holds is that of its own last submission. -/
  told : ∀ c r, s.pool.submitter c = .returned r →
    ∃ req, (s.submissions.filter (·.caller = c)).getLast? = some ⟨c, req, r⟩

variable {s} {s' : WorkerRun α} {overload : Nat → Overload}

/-! ### Workers leave an empty pool -/

/-- When all workers have left, nothing is queued. -/
def Closed (s : WorkerRun α) : Prop :=
  ¬ s.Attended → s.pool.writeQueue = [] ∧ s.pool.prefetchQueue = []

/-- A worker that moves on holds a task, and does not leave with it. -/
theorem advance_attended (hi : Inv s) {w : Nat} (h : s.advance w = some s') : s'.Attended := by
  have hne : s.pool.worker w ≠ .idle := by
    intro hidle
    simp only [WorkerRun.advance, hidle] at h
    cases h
  obtain ⟨-, -, hcount, -⟩ := advance_cases h
  obtain ⟨-, -, -, -, hin⟩ := advance_frame h
  exact ⟨w, hcount ▸ hi.lt_of_ne_idle hne, hin⟩

/-- A timely step leaves the closed pool closed. -/
theorem Closed.step {op : WorkerOp α} (hi : Inv s) (hc : Closed s)
    (hok : s.Timely overload op) (h : s.step op = some s') : Closed s' := by
  obtain ⟨hcount, -, -⟩ := step_frame h
  -- a step of a submitter changes no worker
  have hsame : (∀ w top, op ≠ .turn w top) → (∀ w, op ≠ .advance w) →
      (¬ s'.Attended → ¬ s.Attended) := by
    intro hturn hadvance hleft hin
    unfold Attended at hleft
    rw [hcount, step_worker hturn hadvance h] at hleft
    exact hleft hin
  intro hleft
  cases step_queued h with
  | same hop hwrite hprefetch =>
    by_cases hadvance : ∀ w, op ≠ .advance w
    · rw [hwrite, hprefetch]
      exact hc (hsame hop hadvance hleft)
    · obtain ⟨w, rfl⟩ := not_forall_not.mp hadvance
      exact absurd (advance_attended hi h) hleft
  | locked c req before room refusal =>
    exact absurd ((hok room).1 refusal) (hsame (by simp) (by simp) hleft)
  | woken c req timedOut before wakes refusal =>
    exact absurd (hok.1 refusal) (hsame (by simp) (by simp) hleft)
  | prefetched task late hlate =>
    exact absurd (hok hlate) (hsame (by simp) (by simp) hleft)
  | turned w top before lt length left =>
    exact left (not_not.mp fun hin => hleft ⟨w, hcount ▸ lt, hin⟩)

/-- The pool is closed in every timely run. -/
theorem Closed.of_reach (h : (system α).Reach (fun s op => s.Timely overload op) s) : Closed s := by
  refine Lts.System.Reach.invariant_of (J := Inv) (fun _ hr => Inv.of_reachable hr.reachable)
    ?_ ?_ h
  · rintro _ ⟨n, bp, rfl⟩ - -
    exact ⟨rfl, rfl⟩
  · exact fun s op s' hi _ hc hok hstep => hc.step hi hok hstep

/-- When `shutdown()` has returned, no worker moves any more. -/
theorem ShutdownReturned.step {op : WorkerOp α} (hi : Inv s) (hr : s.ShutdownReturned)
    (h : s.step op = some s') : s'.ShutdownReturned := by
  obtain ⟨hcount, -, hset⟩ := step_frame h
  -- a worker that has left takes no turn and makes no access
  have hworker : s'.pool.worker = s.pool.worker := by
    refine step_worker (fun w top hop => ?_) (fun w hop => ?_) h
    · subst hop
      cases step_queued h with
      | same hop => exact hop w top rfl
      | turned _ _ before lt =>
        rw [hr.2 w lt] at before
        cases before
    · subst hop
      have hstuck : s.pool.worker w = .exited ∨ s.pool.worker w = .idle := by
        rcases Nat.lt_or_ge w s.pool.threadCount with hlt | hge
        · exact .inl (hr.2 w hlt)
        · exact .inr (hi.idle_of_le w hge)
      rcases hstuck with hw | hw
      all_goals
        have h : s.advance w = some s' := h
        simp only [WorkerRun.advance, hw] at h
        cases h
  refine ⟨hset hr.1, fun w hw => ?_⟩
  rw [hworker]
  exact hr.2 w (hcount ▸ hw)

/-- When `shutdown()` has returned, no worker holds a task. -/
theorem ShutdownReturned.drained (hi : Inv s) (hc : Closed s) (hr : s.ShutdownReturned) :
    s.pool.Drained := by
  have hleft : ¬ s.Attended := fun ⟨w, hw, hin⟩ => hin (hr.2 w hw)
  obtain ⟨hwrite, hprefetch⟩ := hc hleft
  refine ⟨hwrite, hprefetch, hi.in_flight.trans (Lts.tally_eq_zero fun w hw => ?_)⟩
  rw [hr.2 w hw]
  rfl

/-- The accepted tasks are told apart by their keys and numbers. -/
theorem Inv.accepted_nodup (hi : Inv s) : s.accepted.Nodup := by
  classical
  refine List.nodup_iff_count_le_one.mpr fun t => ?_
  have hnodup : (s.accepted.filter (·.dvKey = t.dvKey)).Nodup := by
    refine List.Nodup.of_map (·.dvSeq) ?_
    rw [hi.accepted_seqs]
    exact List.nodup_range
  have hcount := List.nodup_iff_count_le_one.mp hnodup t
  rwa [List.count_filter (by simp)] at hcount

/-! ### What the submitters are told -/

/-- Nobody is told that a task was accepted which was not. -/
def Honest (overload : Nat → Overload) (s : WorkerRun α) : Prop :=
  ∀ x ∈ s.submissions, x.isReported overload = true → x.task ≠ none

/-- One more answer, for a task if it is reported. -/
theorem Honest.append (hs : Honest overload s) {x : Submission α}
    (hxs : s'.submissions = s.submissions ++ [x])
    (hx : x.isReported overload = true → x.task ≠ none) :
    Honest overload s' := by
  intro y hy hrep
  rw [hxs] at hy
  rcases List.mem_append.mp hy with hold | hnew
  · exact hs y hold hrep
  · obtain rfl := List.mem_singleton.mp hnew
    exact hx hrep

theorem Honest.congr (hs : Honest overload s) (hxs : s'.submissions = s.submissions) :
    Honest overload s' := by
  intro x hx
  exact hs x (hxs ▸ hx)

/-- A submission that is settled is answered honestly. -/
theorem Honest.finishSubmit (hs : Honest overload s) {c : Nat} (req : WriteRequest α)
    (hok : s.Settled (overload c)) : Honest overload (s.finishSubmit c req) := by
  unfold WorkerRun.finishSubmit
  split
  · next r hr =>
    exact hs.append rfl fun hrep => absurd ((hok.2 r hr).symm.trans hrep) nofun
  · exact hs.append rfl fun _ => nofun

/-- Every timely step answers honestly. -/
theorem Honest.step {op : WorkerOp α} (hs : Honest overload s) (hok : s.Timely overload op)
    (h : s.step op = some s') : Honest overload s' := by
  cases step_cases h with
  | enters c req =>
    by_cases hdown : s.pool.shutdown = true
    · exact hs.append (if_pos hdown) fun hrep => absurd ((hok hdown).symm.trans hrep) nofun
    · exact hs.congr (if_neg hdown)
  | waits | dropped | prefetches | shuts => exact hs.congr rfl
  | @locks c req before room => exact hs.finishSubmit req (hok room)
  | @wakes c req => exact hs.finishSubmit req hok
  | @turns w top => exact hs.congr (turn_submissions s w top)
  | advances ran => exact hs.congr (advance_submissions ran)

/-- Every overload reports a task that was accepted. -/
theorem isReported_of_task {x : Submission α} {t : WriteTask α} (h : x.task = some t) :
    x.isReported overload = true := by
  unfold Submission.task at h
  unfold Submission.isReported
  split at h
  · next n hn =>
    rw [hn]
    cases overload x.caller <;> rfl
  · cases h
  · cases h

/-- What is reported as accepted was accepted, in the same order. -/
theorem Honest.reported (hs : Honest overload s) (ha : Answered s) :
    (s.submissions.filter (·.isReported overload)).map Submission.task = s.accepted.map some := by
  rw [← ha.tasks, List.map_filterMap_some_eq_filter_map_isSome, List.filter_map]
  refine congrArg (List.map Submission.task) (List.filter_congr fun x hx => ?_)
  refine Bool.eq_iff_iff.mpr ⟨fun hrep => Option.isSome_iff_ne_none.mpr (hs x hx hrep), fun h => ?_⟩
  obtain ⟨t, ht⟩ := Option.isSome_iff_exists.mp h
  exact isReported_of_task ht

/-- **Shutdown completeness.** In every run in which every push finds a worker in its loop and no
call with `seq_out` finds the pool shut down, `shutdown()` keeps its promise. -/
theorem shutdown_complete (overload : Nat → Overload)
    (h : (system α).Reach (fun s op => s.Timely overload op) s) : s.ShutdownComplete overload := by
  have hi := Inv.of_reachable h.reachable
  have hc := Closed.of_reach h
  -- every answer given in time is the true one
  have hhonest : Honest overload s := by
    refine Lts.System.Reach.invariant ?_ (fun _ _ _ hr hok hstep => hr.step hok hstep) h
    rintro _ ⟨n, bp, rfl⟩ x hx
    cases hx
  have hanswered := Answered.of_reachable h.reachable
  refine ⟨fun hr => ?_, fun hr => ?_, fun hr op s' hstep => hr.step hi hstep,
    hhonest.reported hanswered, hanswered.latest⟩
  · obtain ⟨hran, hprefetch⟩ := hi.drained (hr.drained hi hc)
    exact ⟨hran, hran.nodup_iff.mpr hi.accepted_nodup, hprefetch⟩
  · obtain ⟨hwrite, hprefetch, -⟩ := hr.drained hi hc
    exact ⟨hwrite, hprefetch⟩

/-! ### Concrete runs -/

/-- The worker has not left its loop. -/
def inLoop : Worker α → Bool
  | .exited => false
  | _ => true

instance (s : WorkerRun α) : Decidable s.Attended :=
  decidable_of_iff ((List.range s.pool.threadCount).any (fun w => inLoop (s.pool.worker w)) = true)
    (by
      simp only [List.any_eq_true, List.mem_range, Attended]
      refine exists_congr fun w => and_congr_right fun _ => ?_
      cases s.pool.worker w <;> simp [inLoop])

instance (s : WorkerRun α) (overload : Overload) : Decidable (s.Settled overload) :=
  decidable_of_iff ((s.pool.refusal = none → s.Attended) ∧
    (s.pool.refusal.all fun r => !overload.reportsAccepted r) = true) (by
      refine and_congr_right fun _ => ?_
      cases s.pool.refusal <;> simp)

instance (s : WorkerRun α) (overload : Nat → Overload) : ∀ op, Decidable (s.Timely overload op)
  | .enter c _ => inferInstanceAs (Decidable (s.pool.shutdown = true →
      (overload c).reportsAccepted .shutDown = false))
  | .lock c => inferInstanceAs (Decidable (s.pool.blocksWriter = false → s.Settled (overload c)))
  | .wake c _ => inferInstanceAs (Decidable (s.Settled (overload c)))
  | .submitPrefetch _ late =>
    inferInstanceAs (Decidable (¬ (s.pool.shutdown = true ∧ late = false) → s.Attended))
  | .shutdown | .turn _ _ | .advance _ => isTrue trivial

/-- A task is submitted, the pool is shut down, and the worker executes the task and leaves. -/
def lastTaskOps : List (WorkerOp Nat) :=
  [.enter 0 ⟨⟨1, 1⟩, 7, 10⟩, .lock 0, .shutdown, .turn 0 0, .advance 0, .advance 0, .advance 0,
    .advance 0, .advance 0, .advance 0, .turn 0 0]

theorem shutdown_complete_of_last_task :
    ∃ s, (system Nat).replay (fun s op => s.Timely (fun _ => .seqOut) op) (start Nat 1 {})
        lastTaskOps = some s ∧
      s.ShutdownReturned ∧ s.ran.map (·.callback) = [10] ∧ s.ShutdownComplete fun _ => .seqOut :=
  ⟨_, rfl, ⟨rfl, by decide⟩, rfl, shutdown_complete _
    (Lts.System.Reach.of_replay lastTaskOps (.init ⟨1, {}, rfl⟩) rfl)⟩

/-- A submission has read the flag when the pool is shut down, and takes `mu_` when the worker has
left. -/
def lateTaskOps : List (WorkerOp Nat) :=
  [.enter 0 ⟨⟨1, 1⟩, 7, 10⟩, .shutdown, .turn 0 0, .lock 0]

theorem late_task_stranded :
    ∃ s, (system Nat).replay (fun _ _ => True) (start Nat 1 {}) lateTaskOps = some s ∧
      (system Nat).Reachable s ∧ s.ShutdownReturned ∧
      s.pool.submitter 0 = .returned (.accepted 0) ∧ s.pool.writeQueue.map (·.callback) = [10] ∧
      ¬ s.ShutdownComplete fun _ => .seqOut := by
  refine ⟨_, rfl, Lts.System.Reachable.of_replay lateTaskOps ⟨1, {}, rfl⟩ rfl, ⟨rfl, by decide⟩,
    rfl, rfl, fun h => ?_⟩
  cases (h.empty ⟨rfl, by decide⟩).1

end WorkerRun

end Amio
