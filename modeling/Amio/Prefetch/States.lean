import Amio.Prefetch.Custody

/-!
# The four maps of the prefetch queue

`pending_`, `completed_`, `failed_` and `fetched_bbox_` are written by different functions under
separate lock acquisitions. `Books` ties `pending_` to the fetches that are under way and `Custody`
ties the staged buffers to the pool. What is left is that a timestep never has two results, and
that the tag in `fetched_bbox_` tells the truth about the buffer. A timeout takes a buffer and
leaves its tag behind, so the tags of timesteps without a buffer mean nothing; `mark_complete`
writes or erases the tag together with the buffer, and that is enough.

`Filed` is the invariant; `maps_agree` reads the four maps off it in every reachable state.
-/

namespace Amio

namespace PrefetchRun

variable {s s' : PrefetchRun} {c f : Nat} {st : Stage}

/-- What is staged is what its tag says, each fetch has what it asked for, and no timestep both
succeeded and failed. -/
structure Filed (s : PrefetchRun) : Prop where
  ok : s.stage.Ok
  fetch : ∀ f, FetchOk s f
  apart : ∀ t, s.stage.queue.completed.lookup t ≠ none → s.stage.queue.failed.lookup t = none

/-- A step that adds no result and spares the buffers of the fetches, none of which moves. -/
theorem Filed.restage (h : Filed s) (hok : s'.stage.Ok)
    (hspare : ∀ f, s.stage.Spares s'.stage (.fetch f)) (hfetches : s'.fetches = s.fetches)
    (hcompleted : ∀ t, s.stage.queue.completed.lookup t = none →
      s'.stage.queue.completed.lookup t = none)
    (hfailed : ∀ t, s.stage.queue.failed.lookup t = none →
      s'.stage.queue.failed.lookup t = none) : Filed s' where
  ok := hok
  fetch f := (h.fetch f).spared (hspare f) (congrFun hfetches f)
  apart t ht := hfailed t (h.apart t (mt (hcompleted t) ht))

/-- A step that leaves the stage alone. -/
theorem Filed.same (h : Filed s) (hstage : s'.stage = s.stage)
    (hfetch : ∀ f, s'.fetches f = s.fetches f ∨ (s'.fetches f).phase.buffer = none) : Filed s' where
  ok := by rw [hstage]; exact h.ok
  fetch f := by
    rcases hfetch f with hf | hf
    · exact (h.fetch f).spared (by rw [hstage]; exact ⟨rfl, fun _ ho => ⟨ho, rfl, rfl⟩⟩) hf
    · constructor
      · intro i hi
        rw [hf] at hi
        cases hi
      · intro i hi
        rw [hi] at hf
        cases hf
  apart := by rw [hstage]; exact h.apart

theorem Filed.start (depth : Nat) (id : UInt64) (name : List UInt8) (info : VariableInfo)
    (a : PoolArgs) : Filed (start depth id name info a) where
  ok := ⟨.create Keeper a, fun _ _ => nofun, fun _ _ => nofun⟩
  fetch _ := ⟨nofun, nofun⟩
  apart _ _ := rfl

/-- The end of a fetch is the one step that adds a result, to a timestep that had none. -/
theorem Filed.fetchMove (h : Filed s) (hb : Books s) {phase : FetchPhase} {notify : Bool}
    (hmove : FetchMove s f st phase notify) : Filed ((s.withStage st).setPhase f phase) := by
  obtain ⟨hok, hkeep, howns, hfilled⟩ := hmove.stage h.ok (h.fetch f)
  refine ⟨hok, FetchOk.setPhase h.fetch hkeep howns hfilled, fun t ht => ?_⟩
  cases hmove with
  | completed at_ fits =>
    -- the timestep was pending, so it had neither a buffer nor a failure
    have hfresh := hb.fresh _ (.fetch f) ⟨rfl, by rw [at_]; exact nofun⟩
    by_cases heq : t = (s.fetches f).timestep
    · subst heq
      exact hfresh.2
    · refine h.apart t fun hnone => ht ?_
      exact (StepMap.lookup_insert _ _ t _).trans ((if_neg heq).trans hnone)
  | failed err_ne at_ =>
    have hfresh := hb.fresh _ (.fetch f)
      ⟨rfl, by rcases at_ with at_ | at_ <;> (rw [at_]; exact nofun)⟩
    by_cases heq : t = (s.fetches f).timestep
    · subst heq
      exact absurd hfresh.1 ht
    · exact (StepMap.lookup_insert _ _ t _).trans ((if_neg heq).trans (h.apart t ht))
  | started | dropped | got | refused | answered | threw | released => exact h.apart t ht

theorem Filed.notifyIf (h : Filed s) (notify : Bool) : Filed (s.notifyIf notify) := by
  refine h.same ?_ fun f => .inl ?_
  · cases notify <;> rfl
  · cases notify <;> rfl

/-- A timeout keeps the maps in agreement. -/
theorem Filed.expireStep (h : Filed s) (hstep : s.expireStep c = some s') : Filed s' := by
  obtain ⟨hok, hkeep⟩ := h.ok.lastCheck c (s.calls c).timestep
  have hpruned := Stage.Pruned.lastCheck s.stage c (s.calls c).timestep
  obtain ⟨notified, status, out, st, -, hlast, rfl⟩ := expireStep_cases hstep
  rw [hlast] at hok hkeep hpruned
  exact h.restage hok (fun f => hkeep _ (by simp)) rfl (fun _ => hpruned.completed_none)
    fun _ => hpruned.failed_none

/-- The caller gives back a buffer that is its own, so nothing staged or fetched is touched. -/
theorem Filed.releaseStep (h : Filed s) (hcustody : Custody s) (hc : c < s.ncalls)
    (hstep : s.releaseStep c = some s') : Filed s' := by
  obtain ⟨buf, hpc, hreleased, rfl⟩ := releaseStep_cases hstep
  have ho : s.stage.owner buf = some (.caller c) :=
    (hcustody.claims buf (.caller c)).mpr ⟨hc, by rw [hpc]; rfl, hreleased⟩
  exact h.restage (h.ok.release ho (by simp))
    (fun f => Stage.keeps_release ho _ (by simp)) rfl (fun _ ht => ht) fun _ ht => ht

/-- **Every step keeps the maps in agreement.** -/
theorem Filed.step (h : Filed s) (hb : Books s) (hcustody : Custody s) {op : ReadOp}
    (hstep : s.step op = some s') : Filed s' := by
  cases step_cases hstep with
  | begins | shuts => exact h.same rfl fun _ => .inl rfl
  | calls lt ran =>
    obtain ⟨st, pc, rfl, hmove⟩ := callStep_cases ran
    obtain ⟨hok, hkeep⟩ := hmove.stage h.ok
    exact h.restage hok (fun f => hkeep _ (by simp)) rfl (fun _ => hmove.completed)
      fun _ => hmove.failed
  | @submits c lost s' lt ran =>
    obtain ⟨t, sel, next, -, -, rfl⟩ := submitStep_cases ran
    refine h.same rfl fun f => ?_
    -- the new fetch has no buffer yet
    by_cases hf : f = s.nfetches
    · subst hf
      right
      cases lost <;> simp [FetchPhase.buffer]
    · exact .inl (Function.update_of_ne hf _ _)
  | expires lt ran => exact h.expireStep ran
  | fetches lt ran =>
    obtain ⟨st, phase, notify, rfl, hmove⟩ := fetchStep_cases ran
    exact (h.fetchMove hb hmove).notifyIf notify
  | releases lt ran => exact h.releaseStep hcustody lt ran
  | cancels =>
    obtain ⟨hok, hspare⟩ := h.ok.cancelPending
    have hqueue := Stage.cancelPending_queue s.stage
    have hcancelled : Filed (s.withStage s.stage.cancelPending) := by
      refine h.restage hok (fun f => hspare _ (by simp)) rfl (fun t _ => ?_) fun t _ => ?_
      · simp only [withStage, hqueue]
        rfl
      · simp only [withStage, hqueue]
        rfl
    exact hcancelled.notifyIf true
  | others ran =>
    obtain ⟨st, rfl, hqueue, hok, hspare⟩ := otherStep_stage h.ok ran
    refine h.restage hok (fun f => hspare _ (by simp) (by simp)) rfl (fun t ht => ?_) fun t ht => ?_
    · simp only [withStage, hqueue]
      exact ht
    · simp only [withStage, hqueue]
      exact ht

theorem Filed.of_reach {ok : PrefetchRun → ReadOp → Prop} (h : system.Reach ok s) : Filed s :=
  h.invariant_of (J := fun s => Books s ∧ Custody s)
    (fun _ hr => ⟨Books.of_reach hr, Custody.of_reach hr⟩)
    (fun _ ⟨depth, id, name, info, a, hs⟩ _ => hs ▸ .start depth id name info a)
    fun _ _ _ hj _ hs _ hstep => hs.step hj.1 hj.2 hstep

/-! ### The maps -/

/-- **The maps of the queue agree**, with each other, with the fetches and with the pool. -/
structure MapsAgree (s : PrefetchRun) : Prop where
  -- a timestep is in at most one of `pending_`, `completed_` and `failed_`
  pending_apart : ∀ t ∈ s.stage.queue.pending,
    s.stage.queue.completed.lookup t = none ∧ s.stage.queue.failed.lookup t = none
  completed_apart : ∀ t, s.stage.queue.completed.lookup t ≠ none →
    s.stage.queue.failed.lookup t = none
  -- between `schedule_fetch` and the end of its fetch nobody else fetches the timestep, and nothing
  -- is staged that `completed_[t] = buf` could overwrite
  single : ∀ t x y, Works s t x → Works s t y → x = y
  vacant : ∀ t x, Works s t x → s.stage.queue.completed.lookup t = none
  distinct : ∀ t t' i, s.stage.queue.completed.lookup t = some i →
    s.stage.queue.completed.lookup t' = some i → t = t'
  -- a staged buffer carries one reference, and whoever was once given it has released it
  held : ∀ t i, s.stage.queue.completed.lookup t = some i →
    i < s.stage.pool.size ∧ (s.stage.pool.buf i).refCount = 1 ∧
      ∀ c, c < s.ncalls → (s.calls c).pc.handed = some i → (s.calls c).released = true
  selection : ∀ t i, s.stage.queue.completed.lookup t = some i →
    s.stage.Holds i t (s.stage.queue.fetchedBbox.lookup t)

theorem maps_agree (h : system.Reachable s) : MapsAgree s := by
  have hbooks := Books.of_reach h
  have hcustody := Custody.of_reach h
  have hfiled := Filed.of_reach h
  constructor
  case pending_apart =>
    intro t ht
    obtain ⟨-, x, hx⟩ := (hbooks.pending t).mp ht
    exact hbooks.fresh t x hx
  case completed_apart => exact hfiled.apart
  case single => exact hbooks.unique
  case vacant => exact fun t x hx => (hbooks.fresh t x hx).1
  case distinct =>
    intro t t' i hi hi'
    -- both keys would own the buffer
    have ho := (hfiled.ok.staged t i hi).1
    rw [(hfiled.ok.staged t' i hi').1] at ho
    exact (Keeper.staged.inj (Option.some.inj ho)).symm
  case held =>
    intro t i hi
    have ho := (hfiled.ok.staged t i hi).1
    obtain ⟨hlt, hone, -⟩ := hfiled.ok.owned.held i _ ho
    refine ⟨hlt, hone, fun c hc hhanded => ?_⟩
    cases hr : (s.calls c).released with
    | true => rfl
    | false =>
      have hcaller := (hcustody.claims i (.caller c)).mpr ⟨hc, hhanded, hr⟩
      rw [ho] at hcaller
      cases hcaller
  case selection => exact fun t i hi => (hfiled.ok.staged t i hi).2

/-- The first read of a queue asks for one byte, whose fetch has just completed. -/
def selectedOps : List ReadOp :=
  [.begin .getBuffer 0 (some firstByte), .call 0, .call 0, .submit 0 false] ++ fetchOps 0 [7]

theorem maps_agree_of_selected :
    ∃ s, system.replay (fun _ _ => True) oneRecord selectedOps = some s ∧
      s.stage.queue.completed.lookup 0 = some 0 ∧
      s.stage.queue.fetchedBbox.lookup 0 = some firstByte ∧ s.stage.pool.payload 0 = [7] ∧
      MapsAgree s :=
  ⟨_, rfl, rfl, rfl, rfl, maps_agree
    (Lts.System.Reachable.of_replay selectedOps oneRecord_init rfl)⟩

end PrefetchRun

end Amio
