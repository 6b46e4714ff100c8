import Amio.Prefetch.Custody

/-!
# Closing a reader

`close_dataset` cancels the queues of a dataset and goes on to close its driver. `cancel_pending`
gives the staged buffers back to the pool and makes every fetch that has not started return at
once. A fetch that is past its cancellation check is not stopped: it acquires a buffer, reads, and
stages the result in a queue that nobody will look at again.

In every run in which no fetch completes in a cancelled queue (`prompt`), once all fetches have
ended nothing is left behind (`nothing_left_behind`).
-/

namespace Amio

namespace PrefetchRun

variable {s s' : PrefetchRun} {c f i : Nat} {t : Int} {st : Stage} {pc : ReadPc}

/-- The step does not complete a fetch in a cancelled queue. -/
def prompt (s : PrefetchRun) : ReadOp → Bool
  | .fetch f .mark =>
    match (s.fetches f).phase with
    | .filled buf => s.stage.overCapacity buf || !s.stage.queue.cancelled
    | _ => true
  | _ => true

/-- A cancelled queue has nothing staged. -/
def Drained (s : PrefetchRun) : Prop :=
  s.stage.queue.cancelled = true → ∀ t, s.stage.queue.completed.lookup t = none

/-- A step that stages nothing. -/
theorem Drained.of_eq (h : Drained s) (hcancelled : s'.stage.queue.cancelled =
    s.stage.queue.cancelled) (hcompleted : ∀ t, s.stage.queue.completed.lookup t = none →
      s'.stage.queue.completed.lookup t = none) : Drained s' :=
  fun hc t => hcompleted t (h (hcancelled ▸ hc) t)

/-- A fetch that stages nothing after the cancel. -/
theorem Drained.fetchStep (h : Drained s) {op : FetchOp} (hguard : s.prompt (.fetch f op) = true)
    (hstep : s.fetchStep f op = some s') : Drained s' := by
  obtain ⟨st, phase, notify, rfl, hmove⟩ := fetchStep_cases hstep
  have hstage : (((s.withStage st).setPhase f phase).notifyIf notify).stage = st := by
    cases notify <;> rfl
  have hkeep : st.queue.cancelled = s.stage.queue.cancelled →
      st.queue.completed = s.stage.queue.completed →
      Drained (((s.withStage st).setPhase f phase).notifyIf notify) := by
    intro hcancelled hcompleted
    refine h.of_eq (by rw [hstage, hcancelled]) fun t ht => ?_
    rw [hstage, hcompleted, ht]
  cases hmove with
  | @completed buf at_ fits =>
    -- the guard is about this step: the queue is not cancelled
    have hlive : s.stage.queue.cancelled = false := by
      obtain rfl := fetchStep_mark (.inl ⟨buf, at_⟩) hstep
      simpa [prompt, at_, fits] using hguard
    intro hc
    rw [hstage] at hc
    rw [show s.stage.queue.cancelled = true from hc] at hlive
    cases hlive
  | started | dropped | got | refused | answered | threw | released | failed => exact hkeep rfl rfl

/-- Every step keeps a cancelled queue drained. -/
theorem Drained.step (h : Drained s) {op : ReadOp} (hguard : s.prompt op = true)
    (hstep : s.step op = some s') : Drained s' := by
  cases step_cases hstep with
  | begins | shuts => exact h
  | calls lt ran =>
    obtain ⟨st, pc, rfl, hmove⟩ := callStep_cases ran
    exact h.of_eq hmove.cancelled fun t => hmove.completed
  | submits lt ran =>
    obtain ⟨t, sel, next, -, -, rfl⟩ := submitStep_cases ran
    exact h
  | @expires c s' lt ran =>
    obtain ⟨notified, status, out, st, -, hlast, rfl⟩ := expireStep_cases ran
    have hp := Stage.Pruned.lastCheck s.stage c (s.calls c).timestep
    rw [hlast] at hp
    exact h.of_eq hp.cancelled fun t => hp.completed_none
  -- of all steps only a fetch could file a buffer after a cancel
  | fetches lt ran => exact h.fetchStep hguard ran
  | releases lt ran =>
    obtain ⟨buf, -, -, rfl⟩ := releaseStep_cases ran
    exact h
  | cancels =>
    intro _ t
    change s.stage.cancelPending.queue.completed.lookup t = none
    rw [Stage.cancelPending_queue]
    rfl
  | others ran =>
    obtain ⟨st, rfl, hqueue⟩ := otherStep_queue ran
    exact h.of_eq (congrArg PrefetchQueue.cancelled hqueue) fun t ht =>
      (congrArg (fun q => q.completed.lookup t) hqueue).trans ht

/-- **Closing a reader leaks no buffer**, in every run in which no fetch completes in a cancelled
queue: once the queue is cancelled and its fetches have ended, nothing is staged, and every buffer
is on the free list unless a caller of `get_buffer` or another user of the pool has it. -/
theorem nothing_left_behind (h : system.Reach (fun s op => s.prompt op = true) s)
    (hcancelled : s.stage.queue.cancelled = true)
    (hended : ∀ f, f < s.nfetches → (s.fetches f).phase.ended = true) :
    (∀ t, s.stage.queue.completed.lookup t = none) ∧
    ∀ i, i < s.stage.pool.size → i ∈ s.stage.pool.freeList ∨
      (∃ c, (s.calls c).pc.handed = some i ∧ (s.calls c).released = false) ∨
      s.stage.owner i = some .other := by
  have hdrained : Drained s := h.invariant
    (fun _ ⟨depth, id, name, info, a, hs⟩ => hs ▸ nofun) fun _ _ _ hs hguard hstep =>
      hs.step hguard hstep
  have hbooks : Books s := .of_reach h
  have hcustody : Custody s := .of_reach h
  refine ⟨hdrained hcancelled, fun i hi => ?_⟩
  by_cases hclaim : ∃ k, Claims s i k
  · obtain ⟨k, hk⟩ := hclaim
    cases k with
    | staged t => rw [Claims, hdrained hcancelled t] at hk; cases hk
    | fetch f =>
      -- a fetch that has ended has no buffer
      have hend : (s.fetches f).phase.ended = true := by
        rcases Nat.lt_or_ge f s.nfetches with hf | hf
        · exact hended f hf
        · rw [hbooks.bounded.fetches f hf]
          rfl
      rw [claims_fetch, FetchPhase.buffer_of_ended hend] at hk
      cases hk
    | caller c => exact .inr (.inl ⟨c, hk.2⟩)
    | other => exact .inr (.inr hk)
  · exact .inl (hcustody.free hi fun k hk => hclaim ⟨k, hk⟩)

/-- A look-ahead fetch completes, and then the reader is closed. -/
def closedAfterOps : List ReadOp := warmOps ++ fetchOps 0 [1, 2] ++ [.cancel]

theorem nothing_left_behind_of_completed :
    ∃ s, system.replay (fun s op => s.prompt op = true) oneRecord closedAfterOps = some s ∧
      s.stage.queue.cancelled = true ∧ s.nfetches = 1 ∧
      s.stage.queue.completed.lookup 0 = none ∧ 0 ∈ s.stage.pool.freeList := by
  refine ⟨_, rfl, rfl, rfl, ?_⟩
  have hreach : system.Reach (fun s op => s.prompt op = true) _ :=
    .of_replay closedAfterOps (.init oneRecord_init) rfl
  obtain ⟨hnone, hfree⟩ := nothing_left_behind hreach rfl
    (fun f hf => by obtain rfl : f = 0 := Nat.lt_one_iff.mp hf; rfl)
  -- no call was handed the buffer and nobody else took one
  refine ⟨hnone 0, (hfree 0 (by decide)).resolve_right ?_⟩
  rintro (⟨c, hc, -⟩ | hother)
  · match c with
    | 0 => cases hc
    | c + 1 => cases hc
  · cases hother

/-- The reader is closed while the fetch is past its cancellation check. -/
def closedDuringOps : List ReadOp :=
  warmOps ++ [.fetch 0 .start, .cancel, .fetch 0 (.acquire true), .fetch 0 (.read (some [1, 2])),
    .fetch 0 .mark]

/-- The fetch stages its buffer in the drained queue, where it stays. -/
theorem late_fetch_leaks :
    ∃ s, system.replay (fun _ _ => True) oneRecord closedDuringOps = some s ∧ system.Reachable s ∧
      s.stage.queue.cancelled = true ∧ s.ncalls = 1 ∧ s.nfetches = 1 ∧
      (s.fetches 0).phase = .finished ∧ s.stage.queue.completed.lookup 0 = some 0 ∧
      s.stage.owner 0 = some (.staged 0) ∧ 0 ∉ s.stage.pool.freeList :=
  ⟨_, rfl, Lts.System.Reachable.of_replay closedDuringOps oneRecord_init rfl, rfl, rfl, rfl, rfl,
    rfl, rfl, by decide⟩

end PrefetchRun

end Amio
