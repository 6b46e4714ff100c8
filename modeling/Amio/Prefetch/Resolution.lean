import Amio.Prefetch.Cancellation

/-!
# Every scheduled fetch resolves

`schedule_fetch` inserts a timestep into `pending_`, and `sync_fetch`, on a worker or on the calling
thread, has to take it out again with a result. Three exits of the code do not:

* `acquire` throws outside the `try` block, and the timestep stays in `pending_` for ever;
* a worker pool that is shut down ignores `submit_prefetch`, with the same effect;
* a fetch that is past its cancellation check when the queue is cancelled is marked nevertheless, so
  a timestep that has left `pending_` by cancellation gets a second outcome.

In every run without these (`resolving`), with workers or without, a fetch that ends has taken its
timestep out of `pending_` with exactly one outcome and holds no buffer, and whatever is in
`pending_` has a fetch still to run (`every_fetch_resolves`).
-/

namespace Amio

/-! ### Queues with and without workers -/

/-- A queue in one of its two modes. Without workers a call runs its fetches itself: `inside c` is
the fetch that call `c` has begun last. -/
structure ModeRun where
  sync : Bool
  run : PrefetchRun
  inside : Nat → Option Nat

namespace ModeRun

/-- Call `c` is not inside a fetch of its own. A fetch that has thrown never gives the call back:
the exception leaves `schedule_fetch` and the call with it. -/
def outside (s : ModeRun) (c : Nat) : Bool :=
  match s.inside c with
  | some f => decide ((s.run.fetches f).phase = .finished)
  | none => true

def withRun (s : ModeRun) (run : PrefetchRun) : ModeRun := { s with run := run }

/-- `schedule_fetch` without workers: the call goes into the fetch. There is no worker pool that
could refuse it. -/
def enterFetch (s : ModeRun) (c : Nat) (lost : Bool) : Option ModeRun :=
  if s.outside c ∧ lost = false then
    (s.run.step (.submit c lost)).map fun run =>
      { s with run := run, inside := Function.update s.inside c (some s.run.nfetches) }
  else none

def step (s : ModeRun) (op : ReadOp) : Option ModeRun :=
  if s.sync then
    match op with
    | .call c | .expire c | .release c =>
      if s.outside c then (s.run.step op).map s.withRun else none
    -- without workers the fetch is made in the place of the submission
    | .submit c lost => s.enterFetch c lost
    -- there is no pool to shut down
    | .shutdown => none
    | .begin _ _ _ | .fetch _ _ | .cancel | .other _ => (s.run.step op).map s.withRun
  else (s.run.step op).map s.withRun

def system : Lts.System ModeRun ReadOp where
  init s := PrefetchRun.system.init s.run ∧ ∀ c, s.inside c = none
  step := step

variable {s s' : ModeRun}

/-- A queue without workers does what some queue with workers could do. -/
theorem step_run {op : ReadOp} (h : s.step op = some s') : s.run.step op = some s'.run := by
  have hmap : ∀ {o : Option PrefetchRun} {g : PrefetchRun → ModeRun}, (∀ r, (g r).run = r) →
      o.map g = some s' → o = some s'.run := by
    intro o g hg ho
    obtain ⟨r, hr, rfl⟩ := Option.map_eq_some_iff.mp ho
    rw [hr, hg]
  unfold step at h
  split at h
  -- without workers some steps are not taken, and a submission enters its fetch at once
  · cases op with
    | call c | expire c | release c =>
      simp only at h
      split at h
      · exact hmap (fun _ => rfl) h
      · cases h
    | submit c lost =>
      simp only [enterFetch] at h
      split at h
      · exact hmap (fun _ => rfl) h
      · cases h
    | shutdown => cases h
    | begin | fetch | cancel | other => exact hmap (fun _ => rfl) h
  · exact hmap (fun _ => rfl) h

/-- A run of the mode is a run of the queue. -/
theorem Reach.run (ok : PrefetchRun → ReadOp → Prop)
    (h : system.Reach (fun s op => ok s.run op) s) : PrefetchRun.system.Reach ok s.run := by
  induction h with
  | init hinit => exact .init hinit.1
  | step _ hok hstep ih => exact .step ih hok (step_run hstep)

end ModeRun

namespace PrefetchRun

variable {s s' : PrefetchRun} {c f i : Nat} {t : Int} {st : Stage} {pc : ReadPc}

/-! ### Outcomes -/

/-- What can become of a scheduled timestep. -/
inductive Outcome
  | completed (buf : Nat)
  | failed (err : AmioErr)
  | cancelled
  deriving DecidableEq

def HasOutcome (q : PrefetchQueue) (t : Int) : Outcome → Prop
  | .completed buf => q.completed.lookup t = some buf
  | .failed err => q.failed.lookup t = some err
  | .cancelled => q.cancelled = true

/-- Fetch `f` is resolved: its timestep is not pending any more, has exactly one outcome, and the
fetch has no buffer. -/
structure Resolved (s : PrefetchRun) (f : Nat) : Prop where
  left : (s.fetches f).timestep ∉ s.stage.queue.pending
  outcome : ∃! o, HasOutcome s.stage.queue (s.fetches f).timestep o
  empty : ∀ i, s.stage.owner i ≠ some (.fetch f)

/-- The steps of a run in which every fetch resolves: the worker pool refuses no fetch, no
allocation fails while a fetch acquires its buffer, and no fetch is marked in a cancelled queue. -/
def resolving (s : PrefetchRun) : ReadOp → Bool
  -- a task that the pool drops is never run
  | .submit _ lost => !lost
  -- a growth that throws leaves the callback with its timestep pending
  | .fetch f (.acquire alloc) =>
    decide ((s.stage.pool.acquireOnce (s.requestedBytes f) alloc).1 ≠ .threw)
  | .fetch f (.giveUp alloc) =>
    decide ((s.stage.pool.acquireFinal (s.requestedBytes f) alloc).1 ≠ .threw)
  | .fetch f .mark =>
    match (s.fetches f).phase with
    -- what ends after a cancel is filed under a timestep that is not pending
    | .filled buf => s.stage.overCapacity buf || !s.stage.queue.cancelled
    | .emptied | .denied => !s.stage.queue.cancelled
    | _ => true
  | _ => true

/-! ### Resolution -/

/-- What the guard says about a fetch that is marked: the queue is not cancelled. -/
theorem live_of_resolving {op : FetchOp} (hguard : s.resolving (.fetch f op) = true)
    (hstep : s.fetchStep f op = some s')
    (hphase : (∃ buf, (s.fetches f).phase = .filled buf ∧ s.stage.overCapacity buf = false) ∨
      (s.fetches f).phase = .emptied ∨ (s.fetches f).phase = .denied) :
    s.stage.queue.cancelled = false := by
  obtain rfl := fetchStep_mark (hphase.imp_left fun ⟨buf, h, _⟩ => ⟨buf, h⟩) hstep
  rcases hphase with ⟨buf, hphase, hfits⟩ | hphase | hphase
  · simpa [resolving, hphase, hfits] using hguard
  · simpa [resolving, hphase] using hguard
  · simpa [resolving, hphase] using hguard

/-- The outcome of a timestep that had none before. -/
theorem unique_outcome {q : PrefetchQueue} {o : Outcome} (ho : HasOutcome q t o)
    (hone : ∀ o', HasOutcome q t o' → o' = o) : ∃! o, HasOutcome q t o :=
  ⟨o, ho, hone⟩

/-- **A fetch that ends is resolved.** -/
theorem Resolved.of_fetchStep (hb : Books s) (hc : Custody s') {op : FetchOp}
    (hguard : s.resolving (.fetch f op) = true) (hstep : s.fetchStep f op = some s')
    (hbefore : (s.fetches f).phase.ended = false) (hafter : (s'.fetches f).phase.ended = true) :
    Resolved s' f := by
  have hkept : (s'.fetches f).phase ≠ .lost := by
    refine fetchStep_kept ?_ ?_ hstep
    · rintro alloc rfl
      simpa [resolving] using hguard
    · rintro alloc rfl
      simpa [resolving] using hguard
  have hempty : ∀ i, s'.stage.owner i ≠ some (.fetch f) := by
    intro i hi
    have hclaim := (hc.claims i (.fetch f)).mp hi
    rw [claims_fetch, FetchPhase.buffer_of_ended hafter] at hclaim
    cases hclaim
  -- before the end the timestep has neither result
  have hnone := hb.fresh (s.fetches f).timestep (.fetch f)
    ⟨rfl, fun hfin => by rw [hfin] at hbefore; cases hbefore⟩
  obtain ⟨st, phase, notify, rfl, hmove⟩ := fetchStep_cases hstep
  have hphase : (((s.withStage st).setPhase f phase).notifyIf notify).fetches f =
      { s.fetches f with phase := phase } := by
    cases notify <;> exact Function.update_self _ _ _
  have hstage : (((s.withStage st).setPhase f phase).notifyIf notify).stage = st := by
    cases notify <;> rfl
  rw [hphase] at hafter hkept
  refine ⟨?_, ?_, hempty⟩
  · rw [hphase, hstage]
    cases hmove with
    | dropped | completed | failed => exact Finset.notMem_erase _ _
    | started | got | answered | threw | released => cases hafter
    | refused at_ ha ends =>
      rcases ends with ⟨-, rfl⟩ | ⟨-, rfl | rfl⟩
      · exact absurd rfl hkept
      · cases hafter
      · cases hafter
  · rw [hphase, hstage]
    cases hmove with
    | dropped at_ cancelled =>
      refine unique_outcome (o := .cancelled) cancelled fun o ho => ?_
      cases o with
      | completed buf => cases hnone.1.symm.trans ho
      | failed err => cases hnone.2.symm.trans ho
      | cancelled => rfl
    | @completed buf at_ fits =>
      have hlive := live_of_resolving hguard hstep (.inl ⟨buf, at_, fits⟩)
      have hlookup : (s.stage.complete (s.fetches f).timestep buf
          (s.fetches f).sel).queue.completed.lookup (s.fetches f).timestep = some buf :=
        AList.lookup_insert _
      refine unique_outcome (o := .completed buf) hlookup fun o ho => ?_
      cases o with
      | completed buf' => rw [Option.some.inj (hlookup.symm.trans ho)]
      | failed err => cases hnone.2.symm.trans ho
      | cancelled => cases hlive.symm.trans ho
    | @failed err err_ne at_ =>
      have hlive := live_of_resolving hguard hstep (.inr at_)
      have hlookup : (s.stage.fail (s.fetches f).timestep err).queue.failed.lookup
          (s.fetches f).timestep = some err := AList.lookup_insert _
      refine unique_outcome (o := .failed err) hlookup fun o ho => ?_
      cases o with
      | completed buf => cases hnone.1.symm.trans ho
      | failed err' => rw [Option.some.inj (hlookup.symm.trans ho)]
      | cancelled => cases hlive.symm.trans ho
    | started | got | answered | threw | released => cases hafter
    | refused at_ ha ends =>
      rcases ends with ⟨-, rfl⟩ | ⟨-, rfl | rfl⟩
      · exact absurd rfl hkept
      · cases hafter
      · cases hafter

/-- **Only a step of a fetch changes the fetch**, apart from the submission that makes it. -/
theorem fetches_of_step {op : ReadOp} (h : s.step op = some s') :
    (∃ fop, op = .fetch f fop ∧ s.fetchStep f fop = some s') ∨
      (s'.fetches f = s.fetches f ∧ (f < s'.nfetches → f < s.nfetches)) ∨
      (f = s.nfetches ∧ ∃ c lost, op = .submit c lost ∧
        (s'.fetches f).phase = if lost then .lost else .queued) := by
  cases step_cases h with
  | begins | cancels | shuts => exact .inr (.inl ⟨rfl, id⟩)
  | calls lt ran =>
    obtain ⟨st, pc, rfl, -⟩ := callStep_cases ran
    exact .inr (.inl ⟨rfl, id⟩)
  | @submits c lost s' lt ran =>
    obtain ⟨t, sel, next, -, -, rfl⟩ := submitStep_cases ran
    by_cases hf : f = s.nfetches
    -- the fetch that is made by this submission
    · subst hf
      exact .inr (.inr ⟨rfl, c, lost, rfl, by simp⟩)
    · refine .inr (.inl ⟨Function.update_of_ne hf _ _, fun hlt => ?_⟩)
      exact lt_of_le_of_ne (Nat.le_of_lt_succ hlt) hf
  | expires lt ran =>
    obtain ⟨notified, status, out, st, -, -, rfl⟩ := expireStep_cases ran
    exact .inr (.inl ⟨rfl, id⟩)
  | @fetches g fop s' lt ran =>
    by_cases hf : g = f
    · subst hf
      exact .inl ⟨fop, rfl, ran⟩
    · obtain ⟨st, phase, notify, rfl, -⟩ := fetchStep_cases ran
      -- a step of another fetch
      have hsame : ((s.withStage st).setPhase g phase).fetches f = s.fetches f :=
        Function.update_of_ne (Ne.symm hf) _ _
      cases notify <;> exact .inr (.inl ⟨hsame, id⟩)
  | releases lt ran =>
    obtain ⟨buf, -, -, rfl⟩ := releaseStep_cases ran
    exact .inr (.inl ⟨rfl, id⟩)
  | others ran =>
    obtain ⟨st, rfl, -⟩ := otherStep_queue ran
    exact .inr (.inl ⟨rfl, id⟩)

/-- In a resolving run no fetch is lost. -/
theorem none_lost (h : system.Reach (fun s op => s.resolving op = true) s) (f : Nat) :
    (s.fetches f).phase ≠ .lost := by
  refine h.invariant (I := fun s => ∀ f, (s.fetches f).phase ≠ .lost) ?_ ?_ f
  · rintro s ⟨depth, id, name, info, a, rfl⟩ f
    exact nofun
  · intro s op s' hs hguard hstep f
    -- the fetch moves, stays, or has just been submitted
    rcases fetches_of_step (f := f) hstep with
      ⟨fop, rfl, hfetch⟩ | ⟨hsame, -⟩ | ⟨-, c, lost, rfl, hnew⟩
    · refine fetchStep_kept ?_ ?_ hfetch
      · rintro alloc rfl
        simpa [resolving] using hguard
      · rintro alloc rfl
        simpa [resolving] using hguard
    · rw [hsame]
      exact hs f
    · obtain rfl : lost = false := by simpa [resolving] using hguard
      rw [hnew]
      exact nofun

end PrefetchRun

namespace ModeRun

open PrefetchRun

variable {s s' : ModeRun}

/-- Timestep `t` still has its fetch ahead of it: some call is about to submit it, or it has not
ended. -/
def Ahead (s : PrefetchRun) (t : Int) : Prop :=
  (∃ c sel next, (s.calls c).pc = .submitting t sel next) ∨
    ∃ f, (s.fetches f).timestep = t ∧ (s.fetches f).phase.ended = false

/-- **Every scheduled fetch resolves**, with workers or without, in every run in which no fetch is
refused, left by a failed allocation or marked in a cancelled queue: what is pending has its fetch
ahead of it, and a fetch that ends is resolved. -/
theorem every_fetch_resolves (h : system.Reach (fun s op => s.run.resolving op = true) s) :
    (∀ t ∈ s.run.stage.queue.pending, Ahead s.run t) ∧
    ∀ op s' f, s.run.resolving op = true → s.step op = some s' → f < s'.run.nfetches →
      (f < s.run.nfetches → (s.run.fetches f).phase.ended = false) →
      (s'.run.fetches f).phase.ended = true → Resolved s'.run f := by
  have hrun := Reach.run (fun s op => s.resolving op = true) h
  have hb := Books.of_reach hrun
  constructor
  · intro t ht
    -- what is pending has a call that submits it or a fetch under way
    obtain ⟨-, x, hx⟩ := (hb.pending t).mp ht
    cases x with
    | call c => exact .inl ⟨c, hx⟩
    | fetch f =>
      refine .inr ⟨f, hx.1, ?_⟩
      have hlost := none_lost hrun f
      have hfinished := hx.2
      cases hphase : (s.run.fetches f).phase <;> first | rfl | exact absurd hphase ‹_›
  · intro op s' f hguard hstep hlt hbefore hafter
    have hstep' := step_run hstep
    have hc' : Custody s'.run := .of_reach (.step hrun hguard hstep')
    -- the fetch ends in a step of its own; it cannot be born ended unless it is lost
    rcases fetches_of_step (f := f) hstep' with
      ⟨fop, rfl, hfetch⟩ | ⟨hsame, hborn⟩ | ⟨-, c, lost, rfl, hnew⟩
    · have hborn : f < s.run.nfetches := by
        cases step_cases hstep' with
        | fetches lt => exact lt
      exact .of_fetchStep hb hc' hguard hfetch (hbefore hborn) hafter
    · rw [hsame, hbefore (hborn hlt)] at hafter
      cases hafter
    · obtain rfl : lost = false := by simpa [resolving] using hguard
      rw [hnew] at hafter
      cases hafter

/-- A queue of one record, with workers or without. -/
def oneRecord (sync : Bool) : ModeRun := ⟨sync, PrefetchRun.oneRecord, fun _ => none⟩

theorem oneRecord_init (sync : Bool) : system.init (oneRecord sync) :=
  ⟨PrefetchRun.oneRecord_init, fun _ => rfl⟩

/-- Call `0` warms the window without workers: it fetches the record itself, and the driver
throws. -/
def failingOps : List ReadOp :=
  warmOps ++ [.fetch 0 .start, .fetch 0 (.acquire true), .fetch 0 (.read none), .fetch 0 .mark]

/-- The driver's exception ends as an error, and the buffer is back. -/
theorem every_fetch_resolves_of_failing :
    ∃ s s', system.replay (fun s op => s.run.resolving op = true) (oneRecord true) failingOps =
        some s ∧
      s.step (.fetch 0 .mark) = some s' ∧ (0 : Int) ∈ s.run.stage.queue.pending ∧
      Ahead s.run 0 ∧ Resolved s'.run 0 ∧
      s'.run.stage.queue.failed.lookup 0 = some .backendFailure := by
  refine ⟨_, _, rfl, rfl, by decide, ?_⟩
  have hreach : system.Reach (fun s op => s.run.resolving op = true) _ :=
    .of_replay failingOps (.init (oneRecord_init true)) rfl
  obtain ⟨hpending, hresolved⟩ := every_fetch_resolves hreach
  exact ⟨hpending 0 (by decide),
    hresolved (.fetch 0 .mark) _ 0 rfl rfl (by decide) (fun _ => rfl) rfl, rfl⟩

/-- An allocation fails while the fetch acquires its buffer. -/
def throwingOps : List ReadOp := warmOps ++ [.fetch 0 .start, .fetch 0 (.acquire false)]

/-- The worker pool is shut down before the fetch is submitted. -/
def refusedOps : List ReadOp :=
  [.begin .scheduleInitial 0 none, .call 0, .call 0, .shutdown, .submit 0 true]

/-- The three exits: with workers or without, a throwing `acquire` leaves the timestep pending with
no outcome and no fetch ahead; so does a worker pool that is shut down; and a fetch that is marked
in a cancelled queue has two outcomes. -/
theorem unresolved_fetches :
    (∀ sync, ∃ s, system.replay (fun _ _ => True) (oneRecord sync) throwingOps = some s ∧
      system.Reachable s ∧ (s.run.fetches 0).phase = .lost ∧
      (0 : Int) ∈ s.run.stage.queue.pending ∧ ¬ ∃ o, HasOutcome s.run.stage.queue 0 o) ∧
    (∃ s, system.replay (fun _ _ => True) (oneRecord false) refusedOps = some s ∧
      system.Reachable s ∧ (s.run.fetches 0).phase = .lost ∧
      (0 : Int) ∈ s.run.stage.queue.pending ∧ ¬ ∃ o, HasOutcome s.run.stage.queue 0 o) ∧
    ∃ s, system.replay (fun _ _ => True) (oneRecord false) closedDuringOps = some s ∧
      system.Reachable s ∧ (s.run.fetches 0).phase = .finished ∧
      HasOutcome s.run.stage.queue 0 (.completed 0) ∧
      HasOutcome s.run.stage.queue 0 .cancelled := by
  -- no result, no error and no cancel: no outcome
  have hnone : ∀ {q : PrefetchQueue} {t : Int}, q.completed.lookup t = none →
      q.failed.lookup t = none → q.cancelled = false → ¬ ∃ o, HasOutcome q t o := by
    rintro q t hcompleted hfailed hlive ⟨o, ho⟩
    cases o with
    | completed buf => cases hcompleted.symm.trans ho
    | failed err => cases hfailed.symm.trans ho
    | cancelled => cases hlive.symm.trans ho
  refine ⟨fun sync => ?_, ?_, ?_⟩
  -- a growth that throws, with workers or without
  · cases sync
    · exact ⟨_, rfl, .of_replay throwingOps (oneRecord_init false) rfl, rfl, by decide,
        hnone rfl rfl rfl⟩
    · exact ⟨_, rfl, .of_replay throwingOps (oneRecord_init true) rfl, rfl, by decide,
        hnone rfl rfl rfl⟩
  -- a pool that is shut down and drops the task
  · exact ⟨_, rfl, .of_replay refusedOps (oneRecord_init false) rfl, rfl, by decide,
      hnone rfl rfl rfl⟩
  -- a cancel while the driver reads: two outcomes
  · exact ⟨_, rfl, .of_replay closedDuringOps (oneRecord_init false) rfl, rfl, rfl, rfl⟩

end ModeRun

end Amio
