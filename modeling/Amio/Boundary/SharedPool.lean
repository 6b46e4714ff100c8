import Amio.Boundary.WriteEffects
import Amio.Prefetch.Custody
import Amio.Staging.Addresses

/-!
# The two sides of the staging pool

The write path and the prefetch queues of a core share one staging pool. For each side this module
says which pool operations a step makes (`acts`), that these account for the whole change of the
pool (`acts_pool`), and that a step of one side leaves the buffers of everybody else alone
(`step_spares`).
-/

namespace Amio

namespace StagingPool

variable {Ω : Type} {p p' : StagingPool} {owner owner' : Nat → Option Ω} {i : Nat} {x : Ω}

/-- The buffers of `x` are still those of `x`, and as they were. -/
def Spared (x : Ω) (owner owner' : Nat → Option Ω) (p p' : StagingPool) : Prop :=
  ∀ b, (owner' b = some x ↔ owner b = some x) ∧ (owner b = some x → p'.buf b = p.buf b)

theorem Spared.refl (x : Ω) (owner : Nat → Option Ω) (p : StagingPool) : Spared x owner owner p p :=
  fun _ => ⟨Iff.rfl, fun _ => rfl⟩

/-- Nobody's buffers change hands. -/
theorem Spared.of_untouched (h : Untouched owner p p') : Spared x owner owner p p' := by
  refine fun b => ⟨Iff.rfl, fun hb => h b ?_⟩
  rw [hb]
  exact nofun

/-- One buffer, which is not that of `x`, changes hands. -/
theorem Spared.update {o : Option Ω} (hold : owner i ≠ some x) (hnew : o ≠ some x)
    (hbuf : ∀ b, b ≠ i → owner b ≠ none → p'.buf b = p.buf b) :
    Spared x owner (Function.update owner i o) p p' := by
  intro b
  by_cases hb : b = i
  · subst hb
    rw [Function.update_self]
    exact ⟨⟨fun h => absurd h hnew, fun h => absurd h hold⟩, fun h => absurd h hold⟩
  · rw [Function.update_of_ne hb]
    refine ⟨Iff.rfl, fun h => hbuf b hb ?_⟩
    rw [h]
    exact nofun

end StagingPool

open StagingPool (Spared)

/-! ### Writes -/

namespace WriteRun

variable {s s' : WriteRun}

/-- The pool operations of a step of the write path. -/
def acts (s : WriteRun) : WriteOp → List PoolAct
  | .host c (.acquire alloc) => [.acquire (s.calls c).args.payloadBytes alloc false]
  | .host c (.giveUp alloc) => [.acquire (s.calls c).args.payloadBytes alloc true]
  | .host c (.copy bytes) => [.fill (s.calls c).buf bytes]
  | .callback w _ =>
    -- the buffer goes back once the flags are set
    match s.runningCall w with
    | some c => if (s.calls c).cb = .flagged then [.release (s.calls c).buf] else []
    | none => []
  | _ => []

/-- The pool after an attempt to acquire. -/
theorem afterAcquire_staging (s : WriteRun) (c : Nat) (onBlocked : HostPc)
    (res : StagingPool.Acquired × StagingPool) :
    (s.afterAcquire c onBlocked res).staging = res.2 := by
  unfold WriteRun.afterAcquire
  split <;> rfl

/-- What an attempt to acquire does to the pool. -/
theorem hostStep_acquire {c : Nat} {alloc : Bool} (h : s.hostStep c (.acquire alloc) = some s') :
    s'.staging = (s.staging.acquireOnce (s.calls c).args.payloadBytes alloc).2 := by
  cases hpc : (s.calls c).host with
  | checked | blocked =>
    simp only [hostStep, hpc] at h
    obtain rfl := Option.some.inj h
    exact afterAcquire_staging _ _ _ _
  | _ => simp [hostStep, hpc] at h

theorem hostStep_giveUp {c : Nat} {alloc : Bool} (h : s.hostStep c (.giveUp alloc) = some s') :
    s'.staging = (s.staging.acquireFinal (s.calls c).args.payloadBytes alloc).2 := by
  cases hpc : (s.calls c).host with
  | blocked =>
    simp only [hostStep, hpc] at h
    obtain rfl := Option.some.inj h
    exact afterAcquire_staging _ _ _ _
  | _ => simp [hostStep, hpc] at h

/-- **The operations of a step are all it does to the pool.** -/
theorem acts_pool {op : WriteOp} (hop : ∀ o, op ≠ .other o) (h : s.step op = some s') :
    s'.staging = (s.acts op).foldl StagingPool.act s.staging := by
  cases step_cases h with
  -- the two attempts to acquire, of which each is one operation of the pool
  | @got c b op p' hc pc acq | @denied c op p' pc' hc pc next acq =>
    simp only [WriteRun.step, Option.ite_none_right_eq_some] at h
    cases op with
    | acquire alloc => exact hostStep_acquire h.2
    | giveUp alloc => exact hostStep_giveUp h.2
    | copy | insert | enter | submitted | count | ret =>
      rcases pc with pc | pc <;> simp [hostStep, pc] at h
  | call | copied | inserted | entered | submitted | counted | returned | sectioned | locked
  | advanced | flushBegan | flushRead | flushTimeout | flushFinish => rfl
  -- a section of a callback: its operation, if any, is the release
  | @began w c ok run pc | @answered w c ok run pc | @completed w c ok run pc
  | @failed w c ok run pc | @coded w c ok run pc | @marked w c ok run pc | @firstCode w c ok run pc
  | @gaveBack w c ok run pc | @subtracted w c ok run pc =>
    simp only [acts, run, pc]
    rfl
  | otherGot | otherDenied | otherRelease | otherFill | otherHandles => exact absurd rfl (hop _)

/-- **A write leaves the buffers of the other users alone.** -/
theorem step_spares (hi : Inv s) (hs : Staged s) {op : WriteOp} (hop : ∀ o, op ≠ .other o)
    (h : s.step op = some s') : Spared .other s.owner s'.owner s.staging s'.staging := by
  cases step_cases h with
  -- what is acquired had no owner
  | @got c b op p' hc pc acq =>
    obtain ⟨r, alloc, acq⟩ := acq
    obtain ⟨hnone, hun, -⟩ := hs.owned.got acq
    exact .update (by rw [hnone]; exact nofun) nofun fun b' _ hb' => hun b' hb'
  | @denied c op p' pc' hc pc next acq =>
    obtain ⟨r, alloc, res, acq, hne⟩ := acq
    exact .of_untouched (hs.owned.denied acq hne).2
  -- what is filled or released was the call's own
  | @copied c bytes hc pc len =>
    have hcb := (hi.calls c).early (by rw [pc]; rfl)
    have howns := (hs.call c).owns ⟨by rw [pc]; rfl, by rw [hcb]; rfl⟩
    obtain ⟨-, -, hframe⟩ := hs.owned.fill howns bytes
    refine fun b => ⟨Iff.rfl, fun hb => hframe b ?_⟩
    rintro rfl
    rw [howns] at hb
    cases hb
  | @gaveBack w c ok run pc =>
    obtain ⟨hpast, -⟩ := hi.past_of_cb (hi.of_running run)
    have howns := (hs.call c).owns ⟨HostPc.hasBuffer_of_past hpast, by rw [pc]; rfl⟩
    obtain ⟨-, -, hframe⟩ := hs.owned.release howns
    exact .update (by rw [howns]; exact nofun) nofun fun b hb _ => hframe b hb
  -- the rest touches no buffer
  | call | inserted | entered | submitted | counted | returned | began | answered | completed
  | failed | coded | marked | firstCode | subtracted | sectioned | locked | advanced | flushBegan
  | flushRead | flushTimeout | flushFinish => exact .refl _ _ _
  | otherGot | otherDenied | otherRelease | otherFill | otherHandles => exact absurd rfl (hop _)

end WriteRun

/-! ### Reads -/

namespace PrefetchRun

variable {s s' : PrefetchRun} {c f : Nat}

/-- The buffer that a section of call `c` has given back: a stale one, which has no owner after the
step. -/
def droppedBy (s : PrefetchRun) (c : Nat) (after : Option PrefetchRun) : List PoolAct :=
  match s.stage.queue.completed.lookup (s.calls c).timestep, after with
  | some i, some s' => if s'.stage.owner i = none then [.release i] else []
  | _, _ => []

def fetchActs (s : PrefetchRun) (f : Nat) (op : FetchOp) : List PoolAct :=
  match op, (s.fetches f).phase with
  | .acquire alloc, _ => [.acquire (s.requestedBytes f) alloc false]
  | .giveUp alloc, _ => [.acquire (s.requestedBytes f) alloc true]
  | .read (some payload), .acquired buf => [.fill buf payload]
  -- the guard of `sync_fetch`: an overfull buffer goes back
  | .mark, .filled buf => if s.stage.overCapacity buf then [.release buf] else []
  -- the driver has thrown
  | .mark, .threw buf => [.release buf]
  | _, _ => []

/-- The pool operations of a step of a queue. -/
def acts (s : PrefetchRun) : ReadOp → List PoolAct
  | .call c => s.droppedBy c (s.callStep c)
  | .fetch f op => s.fetchActs f op
  | .release c =>
    match (s.calls c).pc with
    | .returned _ (some buf) => [.release buf]
    | _ => []
  | .cancel =>
    (s.stage.queue.completed.entries.insertionSort fun a b => a.1 ≤ b.1).map fun e => .release e.2
  | _ => []

/-- A section of a call does the operations that are listed for it. -/
theorem droppedBy_pool (h : Custody s) (hstep : s.callStep c = some s') :
    s'.stage.pool = (s.droppedBy c (s.callStep c)).foldl StagingPool.act s.stage.pool := by
  have hleaves := callStep_leaves hstep
  have howner : ∀ {i : Nat}, s.stage.queue.completed.lookup (s.calls c).timestep = some i →
      s.stage.owner i = some (.staged (s.calls c).timestep) := fun hi => (h.claims _ _).mpr hi
  unfold Leaves at hleaves
  rw [hstep]
  generalize (s'.calls c).pc.handed = handed at hleaves
  -- a section hands the staged buffer out, drops a stale one, or leaves the pool
  cases hleaves with
  | nothing hpool hown hcompleted =>
    unfold droppedBy
    split
    · next i s₁ hi heq =>
      obtain rfl := Option.some.inj heq
      rw [hown, howner hi]
      exact hpool
    · exact hpool
  | @taken i hi hpool hown hcompleted =>
    simp only [droppedBy, hi, hown, Function.update_self]
    exact hpool
  | @dropped i hi hpool hown hcompleted =>
    simp only [droppedBy, hi, hown, Function.update_self]
    exact hpool

/-- The pool after an attempt of a fetch. -/
theorem afterAcquire_pool (s : PrefetchRun) (f : Nat) (onBlocked : FetchPhase)
    (res : StagingPool.Acquired × StagingPool) :
    (s.afterAcquire f onBlocked res).stage.pool = res.2 := by
  unfold PrefetchRun.afterAcquire
  split <;> rfl

/-- A step of a fetch does the operations that are listed for it. -/
theorem fetchActs_pool {op : FetchOp} (hstep : s.fetchStep f op = some s') :
    s'.stage.pool = (s.fetchActs f op).foldl StagingPool.act s.stage.pool := by
  unfold PrefetchRun.fetchStep at hstep
  simp only at hstep
  -- one case for each phase of the fetch
  split at hstep
  · next hphase =>
    simp only [fetchActs]
    split at hstep
    all_goals
      obtain rfl := Option.some.inj hstep
      rfl
  -- the three ways to acquire
  · next alloc hphase =>
    obtain rfl := Option.some.inj hstep
    simp only [fetchActs]
    exact afterAcquire_pool _ _ _ _
  · next alloc hphase =>
    obtain rfl := Option.some.inj hstep
    simp only [fetchActs]
    exact afterAcquire_pool _ _ _ _
  · next alloc hphase =>
    obtain rfl := Option.some.inj hstep
    simp only [fetchActs]
    exact afterAcquire_pool _ _ _ _
  -- the driver fills the buffer, or throws
  · next payload buf hphase =>
    obtain rfl := Option.some.inj hstep
    simp only [fetchActs, hphase]
    rfl
  · next buf hphase =>
    obtain rfl := Option.some.inj hstep
    simp only [fetchActs]
    rfl
  · next buf hphase =>
    simp only [fetchActs, hphase]
    -- a record above the capacity gives its buffer back
    split at hstep
    · next hover =>
      obtain rfl := Option.some.inj hstep
      rw [if_pos hover]
      rfl
    · next hfits =>
      obtain rfl := Option.some.inj hstep
      rw [if_neg hfits]
      rfl
  · next buf hphase =>
    obtain rfl := Option.some.inj hstep
    simp only [fetchActs, hphase]
    rfl
  · next hphase =>
    obtain rfl := Option.some.inj hstep
    simp only [fetchActs, hphase]
    rfl
  · next hphase =>
    obtain rfl := Option.some.inj hstep
    simp only [fetchActs, hphase]
    rfl
  · cases hstep

/-- `cancel` releases the staged buffers one after the other. -/
theorem cancelActs_pool (l : List (Sigma fun _ : Int => Nat)) (st : Stage) :
    (l.foldl (fun st e => st.release e.2) st).pool =
      (l.map fun e => PoolAct.release e.2).foldl StagingPool.act st.pool := by
  induction l generalizing st with
  | nil => rfl
  | cons e l ih => exact ih (st.release e.2)

/-- **The operations of a step are all it does to the pool.** -/
theorem acts_pool (h : Custody s) {op : ReadOp} (hop : ∀ o, op ≠ .other o)
    (hstep : s.step op = some s') :
    s'.stage.pool = (s.acts op).foldl StagingPool.act s.stage.pool := by
  cases step_cases hstep with
  | begins | shuts => rfl
  | calls lt ran => exact droppedBy_pool h ran
  | submits lt ran =>
    obtain ⟨t, sel, next, -, -, rfl⟩ := submitStep_cases ran
    rfl
  | expires lt ran =>
    obtain ⟨notified, status, out, st, -, hlast, rfl⟩ := expireStep_cases ran
    -- the last check hands its buffer out or leaves the stage alone
    show st.pool = s.stage.pool
    have hst := congrArg (fun x => x.2.pool) hlast
    simp only [Stage.lastCheck] at hst
    rw [← hst]
    split
    · rfl
    · unfold Stage.takeFailed
      split <;> rfl
  | fetches lt ran => exact fetchActs_pool ran
  | releases lt ran =>
    obtain ⟨buf, hpc, -, rfl⟩ := releaseStep_cases ran
    simp only [acts, hpc]
    rfl
  | cancels => exact cancelActs_pool _ _
  | @others use => exact absurd rfl (hop use)

/-- A section of a call leaves the buffers of the other users alone. -/
theorem Took.spares {st : Stage} {t : Int} {handed : Option Nat} (h : Custody s)
    (htook : s.stage.Took st c t handed) :
    Spared .other s.stage.owner st.owner s.stage.pool st.pool := by
  -- what is staged is not of another user
  have hstaged : ∀ {i : Nat}, s.stage.queue.completed.lookup t = some i →
      s.stage.owner i ≠ some .other := by
    intro i hi
    rw [(h.claims i (.staged t)).mpr hi]
    exact nofun
  cases htook with
  | nothing hpool howner =>
    rw [hpool, howner]
    exact .refl _ _ _
  | taken hi hpool howner =>
    rw [hpool, howner]
    exact .update (hstaged hi) nofun fun _ _ _ => rfl
  -- a stale buffer goes back to the pool
  | dropped hi hpool howner =>
    rw [hpool, howner]
    exact .update (hstaged hi) nofun fun b hb _ => StagingPool.release_buf_of_ne _ hb

/-- A step of a fetch leaves the buffers of the other users alone. -/
theorem fetchStep_spares (h : Custody s) {op : FetchOp} (hstep : s.fetchStep f op = some s') :
    Spared .other s.stage.owner s'.stage.owner s.stage.pool s'.stage.pool := by
  have hown : ∀ {buf : Nat}, (s.fetches f).phase.buffer = some buf →
      s.stage.owner buf ≠ some .other := by
    intro buf hbuf
    rw [(h.claims buf (.fetch f)).mpr hbuf]
    exact nofun
  obtain ⟨st, phase, notify, rfl, hmove⟩ := fetchStep_cases hstep
  suffices hst : Spared .other s.stage.owner st.owner s.stage.pool st.pool by
    cases notify <;> exact hst
  cases hmove with
  | started | dropped | threw | failed => exact .refl _ _ _
  -- what is acquired had no owner
  | got at_ ha =>
    obtain ⟨hnone, hun, -⟩ := h.owned.got ha
    exact .update (by rw [hnone]; exact nofun) nofun fun b _ hb => hun b hb
  | refused at_ ha ends =>
    refine .of_untouched (h.owned.denied ha ?_).2
    rcases ends with ⟨rfl, -⟩ | ⟨rfl, -⟩ <;> exact nofun
  -- what is filled or released was the fetch's own
  | @answered buf at_ payload =>
    refine fun b => ⟨Iff.rfl, fun hb => Function.update_of_ne ?_ _ _⟩
    rintro rfl
    exact hown (by rw [at_]; rfl) hb
  | @released buf at_ =>
    have hbuffer : (s.fetches f).phase.buffer = some buf := by
      rcases at_ with at_ | at_ <;> (rw [at_]; rfl)
    exact .update (hown hbuffer) nofun fun b hb _ => StagingPool.release_buf_of_ne _ hb
  | @completed buf at_ fits => exact .update (hown (by rw [at_]; rfl)) nofun fun _ _ _ => rfl

/-- Cancellation gives back staged buffers only. -/
theorem cancel_spares (h : Custody s) : Spared .other s.stage.owner s.stage.cancelPending.owner
    s.stage.pool s.stage.cancelPending.pool := by
  have hperm := List.perm_insertionSort (fun a b : Sigma fun _ : Int => Nat => a.1 ≤ b.1)
    s.stage.queue.completed.entries
  have hspare := (Stage.release_entries (s := s.stage.withQueue { s.stage.queue with
    cancelled := true, pending := ∅, completed := ∅, fetchedBbox := ∅, failed := ∅ }) _
    ((hperm.map _).nodup_iff.mpr s.stage.queue.completed.nodupKeys) h.owned fun e he =>
      (h.claims e.2 (.staged e.1)).mpr (AList.mem_lookup_iff.mpr (hperm.mem_iff.mp he))).2
    .other nofun
  intro b
  refine ⟨⟨fun hb => ?_, fun hb => (hspare.kept b hb).1⟩, fun hb => (hspare.kept b hb).2.1⟩
  exact ((Stage.cancelPending_owner s.stage b .other).mp hb).1

/-- **A read leaves the buffers of the other users alone.** -/
theorem step_spares (h : Custody s) {op : ReadOp} (hop : ∀ o, op ≠ .other o)
    (hstep : s.step op = some s') :
    Spared .other s.stage.owner s'.stage.owner s.stage.pool s'.stage.pool := by
  cases step_cases hstep with
  | begins | shuts => exact .refl _ _ _
  | calls lt ran => exact Took.spares h (callStep_leaves ran)
  | submits lt ran =>
    obtain ⟨t, sel, next, -, -, rfl⟩ := submitStep_cases ran
    exact .refl _ _ _
  | @expires c s' lt ran =>
    obtain ⟨notified, status, out, st, -, hlast, rfl⟩ := expireStep_cases ran
    have htook := Stage.Took.lastCheck s.stage c (s.calls c).timestep
    rw [hlast] at htook
    exact Took.spares h htook
  | fetches lt ran => exact fetchStep_spares h ran
  | @releases c s' lt ran =>
    obtain ⟨buf, hpc, hreleased, rfl⟩ := releaseStep_cases ran
    -- what a call releases is its own
    have ho : s.stage.owner buf = some (.caller c) :=
      (h.claims buf (.caller c)).mpr ⟨lt, by rw [hpc]; rfl, hreleased⟩
    refine .update ?_ (by simp) fun b hb _ => StagingPool.release_buf_of_ne _ hb
    rw [ho]
    simp
  | cancels => exact cancel_spares h
  | @others use => exact absurd rfl (hop use)

end PrefetchRun

end Amio
