import Amio.Workers.Order

/-!
# The exception cordon

`workers/exception_bridge.cpp`, and the calls of it in `try_execute_one`. A callback that throws has
its exception turned into an error code and a message, and if its task has a handle, this is
recorded in the registry under the handle before the worker goes on. Throwing and recording are two
steps: in between, other workers run, throw and record.

The registry holds every failure once when the pool is drained (`failures_booked`), those of a
variable in the order in which the writes were submitted: a worker records while it still holds the
ordering mutex of the variable.
-/

namespace Amio

/-! ### Exceptions -/

/-- `conf::Error_Code`, as the cordon tells it apart. -/
inductive ErrorCode
  | fileNotFound
  | parseError
  | keyNotFound
  | typeMismatch
  | invalidArg
  | other
  deriving DecidableEq

/-- What a callback throws. -/
inductive Thrown
  | conf (code : ErrorCode) (what : String)
  | invalidArgument (what : String)
  | exception (what : String)
  | other
  deriving DecidableEq

/-- `translate_exception_to_error`. -/
def translateExceptionToError : Thrown → AmioErr × String
  | .conf code what =>
    (match code with
      | .fileNotFound => .manifestNotFound
      | .parseError | .keyNotFound => .manifestInvalid
      | .typeMismatch | .invalidArg => .invalidInput
      | .other => .backendFailure, what)
  | .invalidArgument what => (.invalidInput, what)
  | .exception what => (.backendFailure, what)
  -- what is no `std::exception` has no text
  | .other => (.backendFailure, "Unknown exception (non-std)")

/-- An exception is never taken for a success. -/
theorem translateExceptionToError_ne_ok (e : Thrown) : (translateExceptionToError e).1 ≠ .ok := by
  cases e with
  | conf code => cases code <;> simp [translateExceptionToError]
  | _ => simp [translateExceptionToError]

/-! ### The registry -/

structure TaskOutcome where
  errorCode : AmioErr := .ok
  message : String := ""
  stackTrace : String := ""
  deriving DecidableEq

def TaskOutcome.isFailure (o : TaskOutcome) : Bool := decide (o.errorCode ≠ .ok)

/-- `OutcomeRegistry`; a handle that has no entry has an empty one. -/
structure OutcomeRegistry where
  outcomes : UInt64 → List TaskOutcome

namespace OutcomeRegistry

variable (r : OutcomeRegistry)

def record (handleId : UInt64) (o : TaskOutcome) : OutcomeRegistry where
  outcomes := Function.update r.outcomes handleId (r.outcomes handleId ++ [o])

def hasFailure (handleId : UInt64) : Bool := (r.outcomes handleId).any (·.isFailure)

def getFirstFailure (handleId : UInt64) : TaskOutcome :=
  ((r.outcomes handleId).find? (·.isFailure)).getD {}

end OutcomeRegistry

/-! ### The pool with the cordon -/

inductive Task (α : Type)
  | write (t : WriteTask α)
  | prefetch (t : PrefetchTask α)

def Task.handleId {α : Type} : Task α → UInt64
  | .write t => t.handleId
  | .prefetch t => t.handleId

/-- The write task, if it is one. -/
def Task.write? {α : Type} : Task α → Option (WriteTask α)
  | .write t => some t
  | .prefetch _ => none

/-- A task whose callback has thrown, with the text of `emit_parallel_stacktrace`. -/
structure Failure (α : Type) where
  task : Task α
  thrown : Thrown
  stackTrace : String

/-- What the cordon records of it. -/
def Failure.outcome {α : Type} (f : Failure α) : TaskOutcome where
  errorCode := (translateExceptionToError f.thrown).1
  message := (translateExceptionToError f.thrown).2
  stackTrace := f.stackTrace

/-- The task whose callback a worker runs next. -/
def Worker.about {α : Type} : Worker α → Option (Task α)
  | .writing t .locked => some (.write t)
  | .prefetching t .dequeued => some (.prefetch t)
  | _ => none

/-- The pool with its registry. `pending` is what a worker has caught and not recorded yet. The
history has the callbacks that threw, and what was recorded, oldest first. -/
structure CordonRun (α : Type) where
  run : WorkerRun α
  registry : OutcomeRegistry
  pending : Nat → Option (Failure α)
  failed : List (Failure α)
  recorded : List (Failure α)

inductive CordonOp (α : Type)
  | pool (op : WorkerOp α)
  | throws (w : Nat) (thrown : Thrown) (stackTrace : String)
  | record (w : Nat)

/-- A write whose callback is over comes behind those of its key that are completed, or that another
worker is over with. -/
theorem WorkerRun.Inv.seq_lt_of_ran {α : Type} {s : WorkerRun α} (hs : s.Inv) {w : Nat}
    {t u : WriteTask α} (hran : s.pool.worker w = .writing u .ran) (hkey : t.dvKey = u.dvKey)
    (hpast : t ∈ s.completed ∨ ∃ v, s.pool.worker v = .writing t .ran ∧ v ≠ w) :
    t.dvSeq < u.dvSeq := by
  have hu := Worker.mem_outstanding.mpr (.inr (.inr hran))
  rcases hpast with hdone | ⟨v, hv, hne⟩
  · have hmem : t.dvSeq ∈ (s.completed.filter (·.dvKey = u.dvKey)).map (·.dvSeq) :=
      List.mem_map_of_mem (List.mem_filter.mpr ⟨hdone, decide_eq_true hkey⟩)
    rw [hs.completed_seqs, List.mem_range] at hmem
    rwa [hs.in_flight_seq w u hu]
  -- no two workers have a task of one key
  · exact absurd (hs.in_flight_unique (Worker.mem_outstanding.mpr (.inr (.inr hv))) hu hkey) hne

namespace CordonRun

variable {α : Type} (s : CordonRun α)

/-- A worker that has something to record does not go on. -/
def isFree : WorkerOp α → Bool
  | .advance w => (s.pending w).isNone
  | _ => true

def step : CordonOp α → Option (CordonRun α)
  | .pool op =>
    if s.isFree op then (s.run.step op).map fun run => { s with run := run } else none
  -- the callback of worker `w` throws
  | .throws w thrown stackTrace =>
    match (s.run.pool.worker w).about with
    | none => none
    | some task =>
      (s.run.step (.advance w)).map fun run =>
        { s with
          run := run
          -- without a handle, the exception is swallowed
          pending :=
            if task.handleId ≠ 0 then
              Function.update s.pending w (some ⟨task, thrown, stackTrace⟩)
            else s.pending
          failed := s.failed ++ [⟨task, thrown, stackTrace⟩] }
  | .record w =>
    (s.pending w).map fun f =>
      { s with
        registry := s.registry.record f.task.handleId f.outcome
        pending := Function.update s.pending w none
        recorded := s.recorded ++ [f] }

/-- A fresh pool with nothing recorded. -/
def start (α : Type) (threadCount : Nat) (backpressure : BackpressureConfig) : CordonRun α where
  run := .start α threadCount backpressure
  registry := ⟨fun _ => []⟩
  pending := fun _ => none
  failed := []
  recorded := []

def system (α : Type) : Lts.System (CordonRun α) (CordonOp α) where
  init s := ∃ n bp, s = start α n bp
  step := step

/-! ### One step -/

section Steps

variable {s s' : CordonRun α} {w : Nat}

/-- A worker with a task moves only in its own steps. -/
theorem worker_of_step {r : WorkerRun α} {op : WorkerOp α} (h : s.run.step op = some r)
    (hbusy : s.run.pool.worker w ≠ .idle) (hop : op ≠ .advance w) :
    r.pool.worker w = s.run.pool.worker w := by
  cases WorkerRun.step_cases h with
  | @turns v top _ hidle =>
    obtain ⟨x, hx, -⟩ := WorkerRun.turn_worker top hidle
    -- only an idle worker takes its turn
    have hv : w ≠ v := by
      rintro rfl
      exact hbusy hidle
    rw [hx, Function.update_of_ne hv]
  | @advances v _ hadvance =>
    have hv : w ≠ v := by
      rintro rfl
      exact hop rfl
    exact WorkerRun.advance_worker_of_ne hv hadvance
  | _ => rw [WorkerRun.step_worker (by simp) (by simp) h]

/-- What is completed stays so. -/
theorem completed_of_step {r : WorkerRun α} {op : WorkerOp α} (h : s.run.step op = some r) :
    s.run.completed ⊆ r.completed := by
  cases WorkerRun.step_cases h with
  | enters => exact List.Subset.refl _
  | advances hadvance =>
    obtain ⟨-, -, -, hadv⟩ := WorkerRun.advance_cases hadvance
    cases hadv with
    | bumped t _ _ hcompleted =>
      rw [hcompleted]
      exact List.subset_append_left _ _
    | locked t _ _ hcompleted | ran t _ _ hcompleted | other x _ _ _ hcompleted =>
      rw [hcompleted]
      exact List.Subset.refl _
  | _ => rw [(WorkerRun.step_sectioned (by simp) (by simp) h).1]; exact List.Subset.refl _

/-- A worker whose callback returns from the write task `t` completes it next. -/
theorem completed_of_ran {r : WorkerRun α} {t : WriteTask α}
    (h : s.run.step (.advance w) = some r) (hran : s.run.pool.worker w = .writing t .ran) :
    t ∈ r.completed := by
  cases WorkerRun.step_cases h with
  | advances hadvance =>
    obtain ⟨-, -, -, hadv⟩ := WorkerRun.advance_cases hadvance
    -- of the advances only the last one, which bumps the counter, starts at `ran`
    cases hadv with
    | bumped u before _ hcompleted =>
      rw [hran] at before
      obtain ⟨rfl, -⟩ := Worker.writing.inj before
      rw [hcompleted]
      exact List.mem_append_right _ (List.mem_singleton_self _)
    | locked u before | ran u before =>
      rw [hran] at before
      cases before
    | other x before =>
      rw [hran] at before
      exact absurd before (Multiset.singleton_ne_zero t)

/-- The task is a write. -/
theorem eq_write_of {task : Task α} {t : WriteTask α} (h : task.write? = some t) :
    task = .write t := by
  cases task with
  | write u => exact congrArg _ (Option.some.inj h)
  | prefetch u => cases h

/-- Where a worker is when the callback of its task is over. -/
def Past (task : Task α) (x : Worker α) : Prop :=
  (∀ t, task = .write t → x = .writing t .ran) ∧ ∀ t, task = .prefetch t → x = .prefetching t .ran

/-- A worker past its callback has its task. -/
theorem Past.ne_idle {task : Task α} {x : Worker α} (h : Past task x) : x ≠ .idle := by
  cases task with
  | write t => rw [h.1 t rfl]; nofun
  | prefetch t => rw [h.2 t rfl]; nofun

/-- The callbacks that a worker can be about to run. -/
theorem about_cases {x : Worker α} {task : Task α} (h : x.about = some task) :
    (∃ t, task = .write t ∧ x = .writing t .locked) ∨
      ∃ t, task = .prefetch t ∧ x = .prefetching t .dequeued := by
  unfold Worker.about at h
  split at h
  · next t =>
    obtain rfl := Option.some.inj h
    exact .inl ⟨t, rfl, rfl⟩
  · next t =>
    obtain rfl := Option.some.inj h
    exact .inr ⟨t, rfl, rfl⟩
  · cases h

/-- A worker about to run a callback is not past one. -/
theorem not_past_of_about {x : Worker α} {task task' : Task α} (h : x.about = some task) :
    ¬ Past task' x := by
  rintro ⟨hwrite, hprefetch⟩
  cases task' with
  | write t =>
    rw [hwrite t rfl] at h
    cases h
  | prefetch t =>
    rw [hprefetch t rfl] at h
    cases h

/-- The callback is over, whether it returns or throws. -/
theorem past_of_about {r : WorkerRun α} {task : Task α} (h : s.run.step (.advance w) = some r)
    (habout : (s.run.pool.worker w).about = some task) :
    Past task (r.pool.worker w) ∧ s.run.pool.worker w ≠ .idle := by
  have hadvance : s.run.advance w = some r := h
  rcases about_cases habout with ⟨t, rfl, hw⟩ | ⟨t, rfl, hw⟩
  · simp only [WorkerRun.advance, hw, Option.some.injEq] at hadvance
    subst hadvance
    refine ⟨⟨fun u hu => ?_, nofun⟩, by rw [hw]; nofun⟩
    obtain rfl := Task.write.inj hu
    exact Function.update_self ..
  · simp only [WorkerRun.advance, hw, Option.some.injEq] at hadvance
    subst hadvance
    refine ⟨⟨nofun, fun u hu => ?_⟩, by rw [hw]; nofun⟩
    obtain rfl := Task.prefetch.inj hu
    exact Function.update_self ..

end Steps

/-! ### The books -/

/-- What a worker has still to record. -/
def held : Option (Failure α) → Multiset (Failure α)
  | some f => {f}
  | none => 0

/-- The invariant. -/
structure Booked (s : CordonRun α) : Prop where
  run : WorkerRun.Inv s.run
  pending : ∀ w f, s.pending w = some f →
    f.task.handleId ≠ 0 ∧ Past f.task (s.run.pool.worker w)
  log : ∀ handleId, s.registry.outcomes handleId =
    (s.recorded.filter (·.task.handleId = handleId)).map Failure.outcome
  exact : ((s.failed.filter (·.task.handleId ≠ 0) : List (Failure α)) : Multiset (Failure α)) =
    s.recorded + Lts.tally held s.pending s.run.pool.threadCount
  past : ∀ t ∈ s.recorded.filterMap (·.task.write?), t ∈ s.run.completed ∨
    ∃ w, s.run.pool.worker w = .writing t .ran ∧ s.pending w = none
  ordered : ∀ k, ((s.recorded.filterMap (·.task.write?)).filter (·.dvKey = k)).Pairwise
    fun t u => t.dvSeq < u.dvSeq

variable {s s' : CordonRun α}

theorem Booked.initial (n : Nat) (bp : BackpressureConfig) : Booked (start α n bp) where
  run := .initial n bp
  pending := nofun
  log _ := rfl
  exact := by
    have hnone : Lts.tally held (fun _ => (none : Option (Failure α))) n = 0 :=
      Lts.tally_eq_zero fun _ _ => rfl
    exact (add_eq_left.mpr hnone).symm
  past := nofun
  ordered _ := .nil

/-- A step of the pool. -/
theorem Booked.pool (h : Booked s) {op : WorkerOp α} {r : WorkerRun α}
    (hfree : s.isFree op = true) (hstep : s.run.step op = some r) :
    Booked { s with run := r } where
  run := h.run.step hstep
  -- a worker that still has to record a failure may not advance
  pending w f hw := by
    obtain ⟨hhandle, hpast⟩ := h.pending w f hw
    refine ⟨hhandle, ?_⟩
    have hop : op ≠ .advance w := by
      rintro rfl
      rw [isFree, hw] at hfree
      cases hfree
    show Past f.task (r.pool.worker w)
    rwa [worker_of_step hstep hpast.ne_idle hop]
  log := h.log
  exact := by
    rw [show ({ s with run := r } : CordonRun α).run.pool.threadCount =
      s.run.pool.threadCount from (WorkerRun.step_frame hstep).1]
    exact h.exact
  -- the worker of a failed task keeps it until it has advanced `exec_seq`
  past t ht := by
    rcases h.past t ht with hdone | ⟨w, hw, hnone⟩
    · exact .inl (completed_of_step hstep hdone)
    · by_cases hop : op = .advance w
      · subst hop
        exact .inl (completed_of_ran hstep hw)
      · exact .inr ⟨w, (worker_of_step hstep (by rw [hw]; nofun) hop).trans hw, hnone⟩
  ordered := h.ordered

/-- A callback throws. -/
theorem Booked.throws (h : Booked s) {w : Nat} {f : Failure α} {r : WorkerRun α}
    (habout : (s.run.pool.worker w).about = some f.task)
    (hstep : s.run.step (.advance w) = some r) :
    Booked { s with
      run := r
      pending := if f.task.handleId ≠ 0 then Function.update s.pending w (some f) else s.pending
      failed := s.failed ++ [f] } := by
  obtain ⟨hpast, hbusy⟩ := past_of_about hstep habout
  have hnone : s.pending w = none := by
    cases hw : s.pending w with
    | none => rfl
    | some g => exact absurd (h.pending w g hw).2 (not_past_of_about habout)
  have hother : ∀ v, v ≠ w → s.run.pool.worker v ≠ .idle →
      r.pool.worker v = s.run.pool.worker v := fun v hv hv' =>
    worker_of_step hstep hv' fun heq => hv (WorkerOp.advance.inj heq).symm
  have hlt := h.run.lt_of_ne_idle hbusy
  -- the worker holds the new failure, if it has a handle; the others hold what they held
  refine ⟨h.run.step hstep, fun v g hv => ?_, h.log, ?_, fun t ht => ?_, h.ordered⟩
  · by_cases hvw : v = w
    · subst hvw
      dsimp only at hv
      split at hv
      · next hhandle =>
        rw [Function.update_self] at hv
        obtain rfl := Option.some.inj hv
        exact ⟨hhandle, hpast⟩
      · rw [hnone] at hv
        cases hv
    · have hv' : s.pending v = some g := by
        dsimp only at hv
        split at hv
        · rwa [Function.update_of_ne hvw] at hv
        · exact hv
      obtain ⟨hhandle, hpast'⟩ := h.pending v g hv'
      refine ⟨hhandle, ?_⟩
      show Past g.task (r.pool.worker v)
      rwa [hother v hvw hpast'.ne_idle]
  -- as many failures are held or recorded as were thrown
  · have hcount : r.pool.threadCount = s.run.pool.threadCount := (WorkerRun.step_frame hstep).1
    have hexact := h.exact
    dsimp only
    rw [hcount, List.filter_append, ← Multiset.coe_add, hexact]
    by_cases hhandle : f.task.handleId ≠ 0
    · rw [if_pos hhandle, Lts.tally_update_add hlt (by rw [hnone]; rfl)]
      simp [hhandle, held, add_assoc]
    · rw [if_neg hhandle]
      simp [hhandle]
  -- another worker's failed task is still in its place
  · rcases h.past t ht with hdone | ⟨v, hv, hv'⟩
    · exact .inl (completed_of_step hstep hdone)
    · have hvw : v ≠ w := by
        rintro rfl
        rw [hv] at habout
        cases habout
      refine .inr ⟨v, (hother v hvw (by rw [hv]; nofun)).trans hv, ?_⟩
      dsimp only
      split
      · rwa [Function.update_of_ne hvw]
      · exact hv'

/-- A failure is recorded. -/
theorem Booked.record (h : Booked s) {w : Nat} {f : Failure α} (hw : s.pending w = some f) :
    Booked { s with
      registry := s.registry.record f.task.handleId f.outcome
      pending := Function.update s.pending w none
      recorded := s.recorded ++ [f] } := by
  obtain ⟨-, hpast⟩ := h.pending w f hw
  have hlt := h.run.lt_of_ne_idle hpast.ne_idle
  have hdone : Function.update s.pending w none w = none := Function.update_self ..
  have hother : ∀ v, v ≠ w → Function.update s.pending w none v = s.pending v := fun v hv =>
    Function.update_of_ne hv ..
  refine ⟨h.run, fun v g hv => ?_, fun handleId => ?_, ?_, fun t ht => ?_, fun k => ?_⟩
  · by_cases hvw : v = w
    · subst hvw
      cases hdone.symm.trans hv
    · exact h.pending v g ((hother v hvw).symm.trans hv)
  -- the registry gets the outcome under the handle of the task
  · rw [List.filter_append, List.map_append, ← h.log]
    by_cases hid : handleId = f.task.handleId
    · subst hid
      simp [OutcomeRegistry.record]
    · simp [OutcomeRegistry.record, Function.update_of_ne hid, Ne.symm hid]
  -- the failure is recorded instead of held
  · have hmove := Lts.tally_update_sub (g := held) (f := s.pending) (b := none) hlt rfl
    rw [hw] at hmove
    rw [h.exact, ← hmove, ← Multiset.coe_add, Multiset.coe_singleton, add_assoc]
    exact congrArg _ (add_comm _ _)
  -- a task whose failure was recorded before, or this one
  · rw [List.filterMap_append] at ht
    rcases List.mem_append.mp ht with hold | hnew
    · refine (h.past t hold).imp_right fun ⟨v, hv, hv'⟩ => ⟨v, hv, ?_⟩
      by_cases hvw : v = w
      · subst hvw
        exact hdone
      · exact (hother v hvw).trans hv'
    · obtain ⟨g, hg, hgt⟩ := List.mem_filterMap.mp hnew
      obtain rfl := List.mem_singleton.mp hg
      exact .inr ⟨w, hpast.1 t (eq_write_of hgt), hdone⟩
  -- of one variable the tasks ran in order, so this one is the latest
  · rw [List.filterMap_append, List.filter_append, List.pairwise_append]
    refine ⟨h.ordered k, ?_, fun t ht u hu => ?_⟩
    · cases hwrite : f.task.write? with
      | none => simp [hwrite]
      | some u =>
        have hone : [f].filterMap (·.task.write?) = [u] := by simp [hwrite]
        rw [hone]
        exact (List.pairwise_singleton _ u).sublist List.filter_sublist
    · obtain ⟨ht, htk⟩ := List.mem_filter.mp ht
      obtain ⟨hu, huk⟩ := List.mem_filter.mp hu
      obtain ⟨g, hg, hgu⟩ := List.mem_filterMap.mp hu
      obtain rfl := List.mem_singleton.mp hg
      have hran := hpast.1 u (eq_write_of hgu)
      have hkey : t.dvKey = u.dvKey := (of_decide_eq_true htk).trans (of_decide_eq_true huk).symm
      exact h.run.seq_lt_of_ran hran hkey ((h.past t ht).imp_right fun ⟨v, hv, hv'⟩ =>
        ⟨v, hv, by rintro rfl; cases hw.symm.trans hv'⟩)

/-- **One step keeps the books.** -/
theorem Booked.step (h : Booked s) {op : CordonOp α} (hstep : s.step op = some s') : Booked s' := by
  cases op with
  | pool op =>
    simp only [CordonRun.step, Option.ite_none_right_eq_some, Option.map_eq_some_iff] at hstep
    obtain ⟨hfree, r, hr, rfl⟩ := hstep
    exact h.pool hfree hr
  | throws w thrown stackTrace =>
    simp only [CordonRun.step] at hstep
    split at hstep
    · cases hstep
    · next task habout =>
      obtain ⟨r, hr, rfl⟩ := Option.map_eq_some_iff.mp hstep
      exact h.throws (f := ⟨task, thrown, stackTrace⟩) habout hr
  | record w =>
    simp only [CordonRun.step] at hstep
    obtain ⟨f, hf, rfl⟩ := Option.map_eq_some_iff.mp hstep
    exact h.record hf

/-- **The books are kept in every run.** -/
theorem booked (h : (system α).Reachable s) : Booked s := by
  refine h.invariant (I := Booked) ?_ fun s op s' hs _ hstep => hs.step hstep
  rintro _ ⟨n, bp, rfl⟩
  exact .initial n bp

/-- What is recorded is never taken back, and comes before what is recorded later. -/
theorem recorded_of_step {op : CordonOp α} (h : s.step op = some s') (handleId : UInt64) :
    s.registry.outcomes handleId <+: s'.registry.outcomes handleId := by
  cases op with
  | pool op =>
    simp only [CordonRun.step, Option.ite_none_right_eq_some, Option.map_eq_some_iff] at h
    obtain ⟨-, r, -, rfl⟩ := h
    exact List.prefix_rfl
  | throws w thrown stackTrace =>
    simp only [CordonRun.step] at h
    split at h
    · cases h
    · obtain ⟨r, -, rfl⟩ := Option.map_eq_some_iff.mp h
      exact List.prefix_rfl
  | record w =>
    simp only [CordonRun.step] at h
    obtain ⟨f, -, rfl⟩ := Option.map_eq_some_iff.mp h
    -- an outcome is appended under its own handle and leaves the others
    by_cases hid : handleId = f.task.handleId
    · subst hid
      simp [OutcomeRegistry.record]
    · simp [OutcomeRegistry.record, Function.update_of_ne hid]

theorem recorded_of_after (h : (system α).After s s') (handleId : UInt64) :
    s.registry.outcomes handleId <+: s'.registry.outcomes handleId := by
  induction h with
  | refl => exact List.prefix_rfl
  | tail _ hstep ih =>
    obtain ⟨op, hop⟩ := hstep
    exact ih.trans (recorded_of_step hop handleId)

/-- The first failure of a handle stays the first. -/
theorem getFirstFailure_of_prefix {r r' : OutcomeRegistry} {handleId : UInt64}
    (h : r.outcomes handleId <+: r'.outcomes handleId) (hfail : r.hasFailure handleId = true) :
    r'.hasFailure handleId = true ∧ r'.getFirstFailure handleId = r.getFirstFailure handleId := by
  obtain ⟨later, hlater⟩ := h
  obtain ⟨o, ho, hbad⟩ := List.any_eq_true.mp hfail
  obtain ⟨first, hfirst⟩ : ∃ first, (r.outcomes handleId).find? (·.isFailure) = some first :=
    Option.isSome_iff_exists.mp (List.find?_isSome.mpr ⟨o, ho, hbad⟩)
  constructor
  · rw [OutcomeRegistry.hasFailure, ← hlater]
    exact List.any_eq_true.mpr ⟨o, List.mem_append_left _ ho, hbad⟩
  · rw [OutcomeRegistry.getFirstFailure, OutcomeRegistry.getFirstFailure, ← hlater,
      List.find?_append, hfirst]
    rfl

/-- When the pool is drained, nothing is caught and not recorded. -/
theorem Booked.pending_of_drained (h : Booked s) (hd : s.run.pool.Drained) (w : Nat) :
    s.pending w = none := by
  cases hw : s.pending w with
  | none => rfl
  | some f =>
    have hpast := (h.pending w f hw).2
    have hbusy := h.run.idle_of_drained hd w
    cases htask : f.task with
    | write t =>
      rw [hpast.1 t htask] at hbusy
      cases hbusy
    | prefetch t =>
      rw [hpast.2 t htask] at hbusy
      cases hbusy

/-- **Every failure is booked once.** In every run, whatever the workers do between a throw and its
record: the registry has of every handle what was recorded under it, and nothing but failures; the
first of a handle stays the first; the failures of a variable are recorded in the order in which its
writes were submitted; and when the pool is drained, the registry has of every handle exactly the
failures of the callbacks that threw. -/
theorem failures_booked (h : (system α).Reachable s) :
    (∀ handleId, s.registry.outcomes handleId =
      (s.recorded.filter (·.task.handleId = handleId)).map Failure.outcome ∧
        ∀ o ∈ s.registry.outcomes handleId, o.isFailure = true) ∧
    (∀ s' handleId, (system α).After s s' → s.registry.hasFailure handleId = true →
      s'.registry.hasFailure handleId = true ∧
        s'.registry.getFirstFailure handleId = s.registry.getFirstFailure handleId) ∧
    (∀ k, ((s.recorded.filterMap (·.task.write?)).filter (·.dvKey = k)).Pairwise
      fun t u => t.dvSeq < u.dvSeq) ∧
    (s.run.pool.Drained → ∀ handleId, handleId ≠ 0 → (s.registry.outcomes handleId).Perm
      ((s.failed.filter (·.task.handleId = handleId)).map Failure.outcome)) := by
  have hs := booked h
  refine ⟨fun handleId => ⟨hs.log handleId, fun o ho => ?_⟩, fun s' handleId hafter hfail =>
    getFirstFailure_of_prefix (recorded_of_after hafter handleId) hfail, hs.ordered,
    fun hd handleId hne => ?_⟩
  · rw [hs.log] at ho
    obtain ⟨f, -, rfl⟩ := List.mem_map.mp ho
    exact decide_eq_true (translateExceptionToError_ne_ok f.thrown)
  -- in a drained pool no worker has a failure that is not recorded yet
  · have hnone : Lts.tally held s.pending s.run.pool.threadCount = 0 :=
      Lts.tally_eq_zero fun w _ => by rw [hs.pending_of_drained hd w]; rfl
    have hexact := hs.exact
    rw [hnone, add_zero] at hexact
    have hperm := (Multiset.coe_eq_coe.mp hexact).filter (·.task.handleId = handleId)
    rw [List.filter_filter] at hperm
    rw [hs.log]
    refine List.Perm.map _ (hperm.symm.trans (List.Perm.of_eq ?_))
    refine List.filter_congr fun f _ => ?_
    by_cases hid : f.task.handleId = handleId <;> simp [hid, hne]

/-- A write and a prefetch for one handle throw, and the prefetch is recorded first. -/
def crossedThrows : List (CordonOp Nat) :=
  [.pool (.enter 0 ⟨⟨1, 1⟩, 7, 10⟩), .pool (.lock 0),
    .pool (.submitPrefetch ⟨0, 0, 1, 7, 11⟩ false), .pool (.turn 0 0), .pool (.turn 1 0),
    .pool (.advance 0), .throws 0 (.exception "disk full") "",
    .throws 1 (.conf .typeMismatch "not a number") "", .record 1, .record 0, .pool (.advance 0),
    .pool (.advance 0), .pool (.advance 0), .pool (.advance 0), .pool (.advance 1),
    .pool (.advance 1)]

theorem failures_booked_of_crossed : ∃ s, (system Nat).Reachable s ∧
    s.registry.getFirstFailure 7 = ⟨.invalidInput, "not a number", ""⟩ ∧
      (s.registry.outcomes 7).Perm
        [⟨.backendFailure, "disk full", ""⟩, ⟨.invalidInput, "not a number", ""⟩] := by
  have hrun : ((system Nat).replay (fun _ _ => True) (start Nat 2 {}) crossedThrows).map
      (fun s => (decide s.run.pool.Drained, s.registry.getFirstFailure 7,
        (s.failed.filter (·.task.handleId = 7)).map Failure.outcome)) =
        some (true, ⟨.invalidInput, "not a number", ""⟩,
          [⟨.backendFailure, "disk full", ""⟩, ⟨.invalidInput, "not a number", ""⟩]) := rfl
  obtain ⟨s, hreplay, hend⟩ := Option.map_eq_some_iff.mp hrun
  obtain ⟨hdrained, hrest⟩ := Prod.mk.inj hend
  obtain ⟨hfirst, hfailed⟩ := Prod.mk.inj hrest
  have hs : (system Nat).Reachable s := .of_replay crossedThrows ⟨2, {}, rfl⟩ hreplay
  obtain ⟨-, -, -, hbooked⟩ := failures_booked hs
  refine ⟨s, hs, hfirst, ?_⟩
  have hperm := hbooked (of_decide_eq_true hdrained) 7 (by decide)
  rwa [hfailed] at hperm

end CordonRun

end Amio
