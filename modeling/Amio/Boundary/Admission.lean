import Amio.Boundary.WriteEffects

/-!
# Admission of writes

What a call of `write` promises when it returns, and when it keeps the promise. `submit_write`
answers a refused submission with `0`, which is also the first sequence number, and `write` does not
look at the answer: it counts the write as pending and returns `AMIO_OK` either way. A refused write
therefore keeps its staging buffer, its Io handle and its share of `pending_writes` for good.

In a run in which no submission is refused, every write that returned `AMIO_OK` is queued, in flight
or done, and the driver is asked for it exactly once (`admission_exact`).
-/

namespace Amio

namespace WriteRun

variable {s s' : WriteRun}

/-- The workers have emptied the write queue and nothing is in flight. -/
def Emptied (s : WriteRun) : Prop :=
  s.workers.pool.writeQueue = [] ∧ ∀ w, (s.workers.pool.worker w).outstanding = 0

/-- What `write` promises of call `c`. -/
structure AdmissionExact (s : WriteRun) (c : Nat) : Prop where
  /-- A write that returned `AMIO_OK` is queued, in flight or has run … -/
  admitted : (s.calls c).host = .returned .ok → ∃ t ∈ s.workers.accepted, t.callback = .write c ∧
    (t ∈ s.workers.pool.writeQueue ∨ (∃ w, t ∈ (s.workers.pool.worker w).outstanding) ∨
      t ∈ s.workers.ran)
  /-- … and once the workers have emptied the queue, the driver has been asked to write its payload
  exactly once and the write is completed or failed. -/
  executed : (s.calls c).host = .returned .ok → s.Emptied →
    s.driverLog.filter (·.call = c) = [⟨c, (s.calls c).snapshot, s.metaOf c⟩] ∧
    ((s.calls c).io.completed = true ∨ (s.calls c).io.failed = true)
  /-- The driver is never asked twice. -/
  once : (s.driverLog.filter (·.call = c)).length ≤ 1
  /-- A write that was refused returns an error and leaves nothing behind. -/
  refused : ∀ r status, (s.calls c).result = some r → (∀ seq, r ≠ .accepted seq) →
    (s.calls c).host = .returned status →
    status ≠ .ok ∧ (r = .queueFull → status = .queueFull) ∧
    (s.calls c).buf ∈ s.staging.freeList ∧ (s.calls c).added = false ∧
    ¬ s.handles.Valid (s.calls c).io.token .io

/-- The submission a step makes is not refused: `submit_write` finds the pool not shut down, and
under `mu_` it finds room (or, with backpressure enabled, the pool still not shut down). -/
def submitAdmitted (s : WriteRun) : WriteOp → Bool
  | .host _ .enter => !s.workers.pool.shutdown
  | .worker (.lock _) | .worker (.wake _ _) => s.workers.pool.refusal.isNone
  | _ => true

/-- Every submission that returned was accepted. -/
def NoneRefused (s : WriteRun) : Prop :=
  ∀ c r, s.workers.pool.submitter c = .returned r → ∃ seq, r = .accepted seq

/-- A submission that is not refused. -/
theorem NoneRefused.update {c : Nat} {y : Submitter Closure} {r : WorkerRun Closure}
    (hs : NoneRefused s) (hsub : r.pool.submitter = Function.update s.workers.pool.submitter c y)
    (hy : ∀ res, y = .returned res → ∃ seq, res = .accepted seq) {t : WriteRun}
    (ht : t.workers = r) : NoneRefused t := by
  intro d res hd
  rw [ht, hsub] at hd
  by_cases hdc : d = c
  · subst hdc; rw [Function.update_self] at hd; exact hy res hd
  · rw [Function.update_of_ne hdc] at hd; exact hs d res hd

/-- A step that refuses no submission. -/
theorem NoneRefused.step {op : WriteOp} (hi : Inv s) (hs : NoneRefused s)
    (hok : s.submitAdmitted op = true) (h : Step s op s') : NoneRefused s' := by
  cases h with
  | @entered c r hc pc hr =>
    have hidle := ((hi.submitters c).early (by rw [pc]; rfl)).1
    -- the early shutdown check of `submit_write` would have answered without the lock
    have hsd : s.workers.pool.shutdown = false := by simpa [submitAdmitted] using hok
    simp only [WorkerRun.step, hidle, hsd] at hr
    obtain rfl := Option.some.inj hr
    exact hs.update rfl (by simp) rfl
  | @sectioned op r hr henter hadvance =>
    -- the answers given under `mu_` are decided by `refusal`, which the condition rules out
    have hrefusal : (∃ c, op = .lock c) ∨ (∃ c timedOut, op = .wake c timedOut) →
        s.workers.pool.refusal = none := by
      rintro (⟨c, rfl⟩ | ⟨c, timedOut, rfl⟩) <;> simpa [submitAdmitted] using hok
    rcases WorkerRun.step_submitter henter hadvance hr with hsub | hop
    · intro d res hd
      exact hs d res (hsub ▸ hd)
    · obtain ⟨-, -, hsec⟩ := WorkerRun.step_sectioned henter hadvance hr
      cases hsec with
      | waits c req before after => exact hs.update after (by simp) rfl
      | refused c req res before refusal =>
        rw [hrefusal hop] at refusal
        cases refusal
      | admitted c req before refusal after =>
        refine hs.update after (fun res hres => ?_) rfl
        cases hres
        exact ⟨_, rfl⟩
      | turned w x before phase submitter => exact fun d res hd => hs d res (submitter ▸ hd)
      | same submitter => exact fun d res hd => hs d res (submitter ▸ hd)
  | locked hr | advanced hr =>
    obtain ⟨-, hsub, -⟩ := WorkerRun.advance_cases hr
    exact fun d res hd => hs d res (hsub ▸ hd)
  | _ => exact hs

/-- No submission is refused in a run that admits all of them. -/
theorem NoneRefused.of_reach (h : system.Reach (fun s op => s.submitAdmitted op = true) s) :
    NoneRefused s := by
  refine Lts.System.Reach.invariant_of (J := Good) (fun _ => Good.of_reach) ?_ ?_ h
  · rintro _ ⟨a, n, bp, ids, -, rfl⟩ - c r hr
    cases hr
  · intro s op s' hj _ hs hok hstep
    exact hs.step hj.toInv hok (step_cases hstep)

/-! ### The promise is kept -/

/-- Where an accepted task is. -/
theorem Linked.whereabouts (hs : Linked s) {t : WriteTask Closure} (ht : t ∈ s.workers.accepted) :
    t ∈ s.workers.pool.writeQueue ∨ (∃ w, t ∈ (s.workers.pool.worker w).outstanding) ∨
      t ∈ s.workers.completed := by
  -- conservation: accepted = queued + in flight + completed, as multisets
  have hmem : t ∈ (s.workers.accepted : Multiset (WriteTask Closure)) := ht
  rw [hs.workers.writes, WorkerPool.writes] at hmem
  rcases Multiset.mem_add.mp hmem with hmem | hmem
  · rcases Multiset.mem_add.mp hmem with hmem | hmem
    · exact .inl hmem
    · obtain ⟨w, -, hw⟩ := Multiset.mem_sum.mp hmem
      exact .inr (.inl ⟨w, hw⟩)
  · exact .inr (.inr hmem)

/-- The task of a write that returned `AMIO_OK`, if none was refused. -/
theorem Linked.task_of_ok (hs : Linked s) (hnone : NoneRefused s) {c : Nat}
    (hok : (s.calls c).host = .returned .ok) : ∃ t ∈ s.workers.accepted, t.callback = .write c := by
  obtain ⟨r, hr, -⟩ := (hs.submitters c).after (by rw [hok]; rfl) (by simp [hok])
  obtain ⟨seq, rfl⟩ := hnone c r hr
  have hcount := hs.once c
  rw [hr] at hcount
  have hpos : 0 < s.workers.accepted.countP (·.callback = .write c) := by
    rw [hcount]; exact Nat.one_pos
  obtain ⟨t, ht, hcb⟩ := List.countP_pos_iff.mp hpos
  exact ⟨t, ht, of_decide_eq_true hcb⟩

/-- **Exactly-once admission.** In every run in which no submission is refused, every call of
`write` keeps its promise, for any number of threads, workers and datasets and whatever the other
users of the core do. -/
theorem admission_exact (h : system.Reach (fun s op => s.submitAdmitted op = true) s) (c : Nat) :
    AdmissionExact s c := by
  have hs := Good.of_reach h
  have hnone := NoneRefused.of_reach h
  refine ⟨fun hok => ?_, fun hok hempty => ?_, ?_, ?_⟩
  · obtain ⟨t, ht, hcb⟩ := hs.task_of_ok hnone hok
    refine ⟨t, ht, hcb, ?_⟩
    exact (hs.whereabouts ht).imp_right (Or.imp_right (hs.workers.ran_of_completed ·))
  · obtain ⟨t, ht, hcb⟩ := hs.task_of_ok hnone hok
    rcases hs.whereabouts ht with ht | ⟨w, ht⟩ | ht
    -- with queue and workers empty, the task can only be among the completed ones
    · rw [hempty.1] at ht; cases ht
    · rw [hempty.2 w] at ht; exact absurd ht (Multiset.notMem_zero t)
    · have hfin := hs.done t c ht hcb
      have hflags := (hs.calls c).flags
      have hlog := hs.logged c
      rw [hfin] at hflags hlog
      refine ⟨hlog, ?_⟩
      rcases hflags with ⟨-, hc, -⟩ | ⟨-, -, hf, -⟩
      · exact .inl hc
      · exact .inr hf
  · rw [hs.logged c]
    split <;> simp
  · intro r status hres hrefused hhost
    -- a call with an answer has had `submit_write` return, and no answer was a refusal
    have hpast : (s.calls c).host.past = true := by
      by_contra hpast
      have := ((hs.submitters c).early (by simpa using hpast)).2
      rw [this] at hres
      cases hres
    obtain ⟨r', hr', hres'⟩ := (hs.submitters c).after hpast (by simp [hhost])
    obtain ⟨seq, rfl⟩ := hnone c r' hr'
    rw [hres'] at hres
    cases hres
    exact absurd rfl (hrefused seq)

/-! ### Concrete runs -/

def oneWriteOps : List WriteOp := prepareOps 0 [118] 42 ++ submitOps 0 ++ executeOps 0 true

/-- Two writes and no worker. -/
def twoWritesOps : List WriteOp :=
  prepareOps 0 [118] 42 ++ submitOps 0 ++ prepareOps 1 [118] 43 ++ submitOps 1

/-- A write whose pool is shut down before it submits. -/
def lateWriteOps : List WriteOp :=
  prepareOps 0 [118] 42 ++
    [.worker .shutdown, .host 0 .enter, .host 0 .submitted, .host 0 .count, .host 0 .ret]

theorem admission_exact_of_one_write :
    ∃ s, system.replay (fun s op => s.submitAdmitted op = true) (byteCore 1 {}) oneWriteOps =
        some s ∧
      (s.calls 0).host = .returned .ok ∧ s.driverLog.map (·.payload) = [[42]] ∧
      AdmissionExact s 0 :=
  ⟨_, rfl, rfl, rfl, admission_exact
    (Lts.System.Reach.of_replay oneWriteOps (.init (byteCore_init 1 (by decide) {})) rfl) 0⟩

/-- With room for one task, a second write is refused and returns `AMIO_OK`; and so does a write
whose pool is shut down before it submits. The queue does not hold them, their buffers are not on
the free list, and `pending_writes` counts them. -/
theorem refused_write_returns_ok :
    (∃ s, system.replay (fun _ _ => True) (byteCore 1 { queueCapacity := 1 }) twoWritesOps =
        some s ∧
      system.Reachable s ∧ (s.calls 1).result = some .queueFull ∧
      (s.calls 1).host = .returned .ok ∧ s.workers.pool.writeQueue.map (·.callback) = [.write 0] ∧
      s.staging.freeList = [] ∧ (s.datasets 0).pendingWrites = 2 ∧ ¬ AdmissionExact s 1) ∧
    ∃ s, system.replay (fun _ _ => True) (byteCore 1 {}) lateWriteOps = some s ∧
      system.Reachable s ∧ (s.calls 0).result = some .shutDown ∧
      (s.calls 0).host = .returned .ok ∧ s.workers.pool.writeQueue = [] ∧
      s.staging.freeList = [1] ∧ (s.datasets 0).pendingWrites = 1 ∧ ¬ AdmissionExact s 0 :=
  ⟨⟨_, rfl, Lts.System.Reachable.of_replay twoWritesOps
        (byteCore_init 1 (by decide) { queueCapacity := 1 }) rfl,
      rfl, rfl, rfl, rfl, rfl, fun h => (h.refused .queueFull .ok rfl nofun rfl).1 rfl⟩,
    ⟨_, rfl, Lts.System.Reachable.of_replay lateWriteOps (byteCore_init 1 (by decide) {}) rfl,
      rfl, rfl, rfl, rfl, rfl, fun h => (h.refused .shutDown .ok rfl nofun rfl).1 rfl⟩⟩

end WriteRun

end Amio
