import Amio.Api.Views
import Amio.Boundary.DriverExclusion

/-!
# Work that is still to reach a driver

A fetch reads once it is past its cancellation check (`committed`), and a write reaches its driver
once a worker has taken the lock of its variable. A queue that is cancelled and has no committed
fetch never reads again (`Silent.step`). A write that has reached the driver, or was not accepted by
the worker pool, never reaches it (`Step.spent`).
-/

namespace Amio

/-! ### Fetches -/

/-- The fetch is past its cancellation check, and has still to read. -/
def FetchPhase.committed : FetchPhase → Bool
  | .started | .blocked | .acquired _ => true
  | _ => false

namespace PrefetchRun

variable {s s' : PrefetchRun} {c f : Nat} {op : ReadOp}

/-- What a step does to the fetches: none passes its check in a cancelled queue, and there are new
ones only by the calls that have been made. -/
structure Checked (s : PrefetchRun) (op : ReadOp) (s' : PrefetchRun) : Prop where
  cancelled : s.stage.queue.cancelled = true → s'.stage.queue.cancelled = true
  committed : ∀ f, f < s'.nfetches → (s'.fetches f).phase.committed = true →
    f < s.nfetches ∧ ((s.fetches f).phase.committed = true ∨ s.stage.queue.cancelled = false)
  unused : (∀ kind t bbox, op ≠ .begin kind t bbox) → s.ncalls = 0 →
    s'.ncalls = 0 ∧ s'.nfetches = s.nfetches

/-- A step that leaves the fetches alone. -/
theorem Checked.of_fetches
    (hcancelled : s.stage.queue.cancelled = true → s'.stage.queue.cancelled = true)
    (hn : s'.nfetches = s.nfetches) (hfetches : s'.fetches = s.fetches)
    (hcalls : s'.ncalls = s.ncalls) : Checked s op s' where
  cancelled := hcancelled
  committed f hf hphase := by
    rw [hn] at hf
    rw [hfetches] at hphase
    exact ⟨hf, .inl hphase⟩
  unused _ hzero := ⟨hcalls.trans hzero, hn⟩

/-- A fetch that commits itself has found the queue not cancelled, or was committed before. -/
theorem FetchMove.committed {st : Stage} {phase : FetchPhase} {notify : Bool}
    (h : FetchMove s f st phase notify) (hphase : phase.committed = true) :
    (s.fetches f).phase.committed = true ∨ s.stage.queue.cancelled = false := by
  cases h with
  | started at_ live => exact .inr live
  | got at_ ha => exact .inl (by rcases at_ with at_ | at_ <;> rw [at_] <;> rfl)
  | refused at_ ha ends => exact .inl (by rcases at_ with at_ | at_ <;> rw [at_] <;> rfl)
  | dropped | answered | threw | released | completed | failed => cases hphase

/-- No fetch cancels a queue. -/
theorem FetchMove.cancelled {st : Stage} {phase : FetchPhase} {notify : Bool}
    (h : FetchMove s f st phase notify) : st.queue.cancelled = s.stage.queue.cancelled := by
  cases h <;> rfl

/-- A step of a fetch checks `cancelled_` before it calls the driver. -/
theorem Checked.fetchStep {fop : FetchOp} (hf : f < s.nfetches)
    (hstep : s.fetchStep f fop = some s') : Checked s (.fetch f fop) s' := by
  obtain ⟨st, phase, notify, rfl, hmove⟩ := fetchStep_cases hstep
  -- a notification changes nothing that is looked at here
  have hframe : ∀ r : PrefetchRun, (r.notifyIf notify).stage = r.stage ∧
      (r.notifyIf notify).nfetches = r.nfetches ∧ (r.notifyIf notify).fetches = r.fetches ∧
      (r.notifyIf notify).ncalls = r.ncalls := by
    intro r
    cases notify <;> exact ⟨rfl, rfl, rfl, rfl⟩
  obtain ⟨hstage, hn, hfetches, hcalls⟩ := hframe ((s.withStage st).setPhase f phase)
  refine ⟨fun hc => ?_, fun f' hf' hphase => ?_, fun _ hzero => ⟨hcalls.trans hzero, hn⟩⟩
  · rw [hstage]
    exact hmove.cancelled.trans hc
  · rw [hn] at hf'
    rw [hfetches] at hphase
    refine ⟨hf', ?_⟩
    -- the fetch that moves has looked at `cancelled_`; the others were committed before
    by_cases heq : f' = f
    · subst heq
      refine hmove.committed ?_
      simpa [setPhase] using hphase
    · left
      simpa [setPhase, withStage, heq] using hphase

/-- **What a step does to the fetches of a queue.** -/
theorem step_checked (h : s.step op = some s') : Checked s op s' := by
  cases step_cases h with
  | begins kind t bbox =>
    exact ⟨id, fun f hf hphase => ⟨hf, .inl hphase⟩, fun hop => absurd rfl (hop kind t bbox)⟩
  | calls lt ran =>
    obtain ⟨st, pc, rfl, hmove⟩ := callStep_cases ran
    exact .of_fetches (fun hc => hmove.cancelled.trans hc) rfl rfl rfl
  | @submits c lost s' lt ran =>
    obtain ⟨t, sel, next, -, -, rfl⟩ := submitStep_cases ran
    refine ⟨id, fun f hf hphase => ?_, fun _ hzero => by omega⟩
    -- the new fetch has not come to its check
    by_cases hnew : f = s.nfetches
    · subst hnew
      cases lost <;> simp [FetchPhase.committed] at hphase
    · simp only [Function.update_of_ne hnew] at hphase
      have hlt : f < s.nfetches + 1 := hf
      exact ⟨by omega, .inl hphase⟩
  | @expires c s' lt ran =>
    obtain ⟨notified, status, out, st, -, hlast, rfl⟩ := expireStep_cases ran
    have hp := Stage.Pruned.lastCheck s.stage c (s.calls c).timestep
    rw [hlast] at hp
    exact .of_fetches (fun hc => hp.cancelled.trans hc) rfl rfl rfl
  | fetches lt ran => exact .fetchStep lt ran
  | releases lt ran =>
    obtain ⟨buf, -, -, rfl⟩ := releaseStep_cases ran
    exact .of_fetches id rfl rfl rfl
  | cancels =>
    refine .of_fetches (fun _ => ?_) rfl rfl rfl
    exact congrArg PrefetchQueue.cancelled (Stage.cancelPending_queue s.stage)
  | shuts => exact .of_fetches id rfl rfl rfl
  | others ran =>
    obtain ⟨st, rfl, hqueue⟩ := otherStep_queue ran
    refine .of_fetches (fun hc => ?_) rfl rfl rfl
    exact (congrArg PrefetchQueue.cancelled hqueue).trans hc

/-- The queue is cancelled, and none of its fetches will read. -/
structure Silent (s : PrefetchRun) : Prop where
  cancelled : s.stage.queue.cancelled = true
  uncommitted : ∀ f, f < s.nfetches → (s.fetches f).phase.committed = false

/-- **A silent queue stays silent.** -/
theorem Silent.step (hs : Silent s) (h : s.step op = some s') : Silent s' := by
  have hchecked := step_checked h
  refine ⟨hchecked.cancelled hs.cancelled, fun f hf => ?_⟩
  by_contra hphase
  obtain ⟨hlt, hcommitted | hlive⟩ := hchecked.committed f hf (by simpa using hphase)
  · rw [hs.uncommitted f hlt] at hcommitted
    cases hcommitted
  · rw [hs.cancelled] at hlive
    cases hlive

/-- The fetch that reads is committed. -/
theorem committed_of_read {payload : Option (List UInt8)}
    (h : s.step (.fetch f (.read payload)) = some s') :
    f < s.nfetches ∧ (s.fetches f).phase.committed = true := by
  cases step_cases h with
  | fetches lt ran =>
    refine ⟨lt, ?_⟩
    cases hphase : (s.fetches f).phase with
    | acquired buf => rfl
    | _ => cases payload <;> simp [fetchStep, hphase] at ran

end PrefetchRun

/-! ### Writes -/

/-- The write has reached its driver, or never will: it has returned, and was not accepted. -/
def WriteCall.spent (x : WriteCall) : Bool :=
  x.cb.asked ||
    match x.host, x.result with
    | .returned _, some (.accepted _) => false
    | .returned _, _ => true
    | _, _ => false

/-- A write is spent when it has asked the driver, or has returned without a task. -/
theorem WriteCall.spent_iff {x : WriteCall} : x.spent = true ↔ x.cb.asked = true ∨
    (∃ status, x.host = .returned status) ∧ ∀ n, x.result ≠ some (.accepted n) := by
  unfold WriteCall.spent
  rw [Bool.or_eq_true]
  refine or_congr_right ?_
  split
  · next hhost hresult => simp [hresult]
  · next hhost hne => simpa [hhost] using hne
  · next hne _ => simpa using fun status hhost => absurd hhost (hne status)

namespace WriteRun

variable {s s' : WriteRun} {c w : Nat} {op : WriteOp}

/-- The write that a worker takes was accepted. -/
theorem Linked.accepted_of_outstanding_task (hs : Linked s) {t : WriteTask Closure}
    (ht : t ∈ (s.workers.pool.worker w).outstanding) (hcb : t.callback = .write c)
    (hhost : ∃ status, (s.calls c).host = .returned status) :
    ∃ n, (s.calls c).result = some (.accepted n) := by
  obtain ⟨c', hcb', hsub⟩ := hs.task t (hs.accepted_of_outstanding ht)
  rw [hcb] at hcb'
  obtain rfl := Closure.write.inj hcb'
  obtain ⟨status, hstatus⟩ := hhost
  obtain ⟨r, hr, hresult⟩ := (hs.submitters c).after (hs.past_of_outstanding ht hcb)
    (by rw [hstatus]; exact nofun)
  rw [hsub] at hr
  obtain rfl := Submitter.returned.inj hr
  exact ⟨_, hresult⟩

/-- A write whose callback a worker is about to enter, or has just entered, is not spent. -/
theorem Inv.not_spent (hi : Inv s) {t : WriteTask Closure}
    (ht : t ∈ (s.workers.pool.worker w).outstanding) (hcb : t.callback = .write c)
    (hasked : (s.calls c).cb.asked = false) : (s.calls c).spent = false := by
  by_contra hspent
  rcases WriteCall.spent_iff.mp (by simpa using hspent) with hcase | ⟨hhost, hresult⟩
  · rw [hasked] at hcase
    cases hcase
  · obtain ⟨n, hn⟩ := hi.accepted_of_outstanding_task ht hcb hhost
    exact hresult n hn

/-- **A write that is spent stays so.** -/
theorem Step.spent (hi : Inv s) (h : Step s op s') (hc : c < s.ncalls)
    (hspent : (s.calls c).spent = true) : (s'.calls c).spent = true := by
  -- a step changes one call at most
  have hset : ∀ (e : Nat) (x : WriteCall), s'.calls = Function.update s.calls e x →
      ((s.calls e).spent = true → x.spent = true) → (s'.calls c).spent = true := by
    intro e x hcalls hx
    rw [hcalls]
    by_cases hce : c = e
    · subst hce
      rw [Function.update_self]
      exact hx hspent
    · rw [Function.update_of_ne hce]
      exact hspent
  -- a call that has not returned is spent by its callback only
  have hlate : ∀ {e : Nat} {x : WriteCall}, (∀ status, (s.calls e).host ≠ .returned status) →
      x.cb = (s.calls e).cb → (s.calls e).spent = true → x.spent = true := by
    intro e x hhost hcb he
    rcases WriteCall.spent_iff.mp he with hasked | ⟨⟨status, hstatus⟩, -⟩
    · exact WriteCall.spent_iff.mpr (.inl (by rw [hcb]; exact hasked))
    · exact absurd hstatus (hhost status)
  cases h with
  | call args =>
    show (Function.update s.calls s.ncalls _ c).spent = true
    rw [Function.update_of_ne (Nat.ne_of_lt hc)]
    exact hspent
  | got _ pc => exact hset _ _ rfl (hlate (by rcases pc with pc | pc <;> simp [pc]) rfl)
  | denied _ pc => exact hset _ _ rfl (hlate (by rcases pc with pc | pc <;> simp [pc]) rfl)
  | copied _ _ pc | inserted _ pc | entered _ pc | submitted _ pc | counted _ pc | returned _ pc =>
    exact hset _ _ rfl (hlate (by simp [pc]) rfl)
  | began | completed | failed | coded | marked | firstCode | gaveBack | subtracted =>
    exact hset _ _ rfl fun _ => WriteCall.spent_iff.mpr (.inl rfl)
  | @answered w e ok =>
    refine hset _ _ rfl fun _ => WriteCall.spent_iff.mpr (.inl ?_)
    cases ok <;> rfl
  | @locked w e t r hr before hcb =>
    refine hset _ _ rfl fun he => absurd he ?_
    have hwaiting := hi.waiting_of_dequeued before hcb
    rw [hi.not_spent (Worker.mem_outstanding.mpr (.inl before)) hcb (by rw [hwaiting]; rfl)]
    exact nofun
  | _ => exact hspent

/-- A write that reaches its driver is not spent. -/
theorem Inv.not_spent_of_running (hi : Inv s) (run : s.runningCall w = some c)
    (pc : (s.calls c).cb = .entered) : (s.calls c).spent = false := by
  obtain ⟨t, hw, hcb⟩ := runningCall_eq_some.mp run
  exact hi.not_spent (Worker.mem_outstanding.mpr (.inr (.inl hw))) hcb (by rw [pc]; rfl)

end WriteRun

namespace IoRun

variable {s s' : IoRun} {c q : Nat} {op : IoOp}

/-- **The writes of a core** after a step: those that were there, with their arguments, or the one
that is called. -/
theorem step_calls (h : Isolated s) (hstep : s.step op = some s') (hc : c < s'.writes.ncalls) :
    (c < s.writes.ncalls ∧ (s'.writes.calls c).args = (s.writes.calls c).args ∧
      ((s.writes.calls c).spent = true → (s'.writes.calls c).spent = true)) ∨
    ∃ args region, op = .call args region ∧ (s'.writes.calls c).args = args ∧
      (args.check ≠ .ok → (s'.writes.calls c).spent = true) := by
  rcases Process.step_writes hstep with hsame | ⟨wop, hwrite, hcall⟩
  · rw [hsame] at hc ⊢
    exact .inl ⟨hc, rfl, id⟩
  -- an old call keeps its arguments; a new one is made by `call`
  · by_cases hlt : c < s.writes.ncalls
    · have hspent : (s.writes.calls c).spent = true → (s'.writes.calls c).spent = true :=
        fun hspent => hwrite.spent h.writes.toInv hlt hspent
      exact .inl ⟨hlt, (hwrite.settles h.writes.toInv hlt).1, hspent⟩
    · right
      generalize s'.writes = w' at hc hwrite ⊢
      cases hwrite with
      | call args =>
        obtain ⟨region, hop⟩ := hcall args rfl
        have hnew : c = s.writes.ncalls := by
          have hc' : c < s.writes.ncalls + 1 := hc
          omega
        have hcall : (s.asWrite.beginCall args).calls c =
            { args := args
              host := if args.check = .ok then .checked else .returned args.check } := by
          subst hnew
          exact Function.update_self _ _ _
        rw [hcall]
        refine ⟨args, region, hop, rfl, fun hcheck => WriteCall.spent_iff.mpr (.inr ⟨?_, nofun⟩)⟩
        exact ⟨_, if_neg hcheck⟩
      | _ => exact absurd hc hlt

/-- The queues of a core after a step. -/
theorem step_queue_checked (hstep : s.step op = some s') (q : Nat) :
    s'.queues q = s.queues q ∨
      ∃ rop, op = .read q rop ∧ PrefetchRun.Checked (s.queues q) rop (s'.queues q) := by
  rcases step_queue hstep q with hsame | ⟨rop, hop, hq⟩
  · exact .inl hsame
  · have hchecked := PrefetchRun.step_checked hq
    exact .inr ⟨rop, hop, hchecked.cancelled, hchecked.committed, hchecked.unused⟩

/-- After a cancel the queue is cancelled. -/
theorem cancelled_of_cancel (hstep : s.step (.read q .cancel) = some s') :
    (s'.queues q).stage.queue.cancelled = true := by
  obtain ⟨hread, -⟩ := step_read hstep
  obtain ⟨r, hr, rfl⟩ := Option.map_eq_some_iff.mp hread
  obtain rfl := Option.some.inj hr
  show ((Function.update s.queues q _) q).stage.queue.cancelled = true
  rw [Function.update_self]
  exact congrArg PrefetchQueue.cancelled (Stage.cancelPending_queue _)

/-- **A silent queue of a core stays silent.** -/
theorem step_silent (hstep : s.step op = some s') (h : (s.queues q).Silent) :
    (s'.queues q).Silent := by
  rcases step_queue hstep q with hsame | ⟨rop, -, hq⟩
  · rw [hsame]
    exact h
  · have hseen : (s.asQueue q).Silent := ⟨h.cancelled, h.uncommitted⟩
    exact hseen.step hq

end IoRun

end Amio
