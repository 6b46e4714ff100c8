import Amio.Prefetch.Books

/-!
# Readers that wait

A `get_buffer` that waits on `cv_` should be waiting for something: a fetch of its timestep is
outstanding, whose end notifies it, and no result for it is there already. Three things can happen
that the code does not provide for.

* The result of a timestep is taken, or dropped as stale, by one call while another waits for it;
  the other wakes up, finds nothing, and waits for a fetch that nobody has dispatched.
* A call that has dropped a stale buffer gives up the lock to schedule the fetch and then waits
  without looking at `completed_` again; the fetch may have completed in between.
* A fetch is lost: the worker pool is shut down, or `acquire` throws, and its timestep stays in
  `pending_` for ever.

In a run without these (`undisturbed`) every waiting reader is waiting for something
(`no_stranded_reader`). Who is at work on which timestep is known from `Prefetch.Books`.
-/

namespace Amio

namespace PrefetchRun

variable {s s' : PrefetchRun} {c c' f f' : Nat} {t t' : Int} {st : Stage} {pc : ReadPc}

/-! ### What a call may rely on -/

/-- A call that waits, or is about to look whether it has to. -/
def awaits : ReadPc → Bool
  | .looping | .rechecking | .waiting _ => true
  | _ => false

/-- A call between dropping a stale buffer and taking the lock again. -/
def refetches : ReadPc → Bool
  | .scheduling _ .recheck | .submitting _ _ .recheck | .rechecking => true
  | _ => false

/-- What a call knows about its timestep: there is something to wait for, and after a dropped buffer
it is not a new buffer. -/
structure Settled (q : PrefetchQueue) (call : ReadCall) : Prop where
  tracked : awaits call.pc = true → q.tracked call.timestep = true
  refetch : refetches call.pc = true → q.completed.lookup call.timestep = none
  waiting : call.pc = .waiting false → call.timestep ∈ q.pending

/-- A call on its way into the loop schedules its own timestep. -/
def Shape (call : ReadCall) : Prop :=
  match call.pc with
  | .scheduling t .loop | .scheduling t .recheck | .submitting t _ .loop
  | .submitting t _ .recheck => t = call.timestep
  | _ => True

/-- What a call relies on reads only the books of its timestep. -/
theorem Settled.congr {q q' : PrefetchQueue} {call : ReadCall} (h : Settled q call)
    (hpending : call.timestep ∈ q.pending → call.timestep ∈ q'.pending)
    (hcompleted : q'.completed.lookup call.timestep = q.completed.lookup call.timestep)
    (hfailed : q'.failed.lookup call.timestep = q.failed.lookup call.timestep) :
    Settled q' call where
  tracked hpc := by
    have := h.tracked hpc
    rw [tracked_iff] at this ⊢
    rw [hcompleted, hfailed]
    exact this.imp_left hpending
  refetch hpc := hcompleted.trans (h.refetch hpc)
  waiting hpc := hpending (h.waiting hpc)

/-- A call that neither waits nor refetches relies on nothing. -/
theorem Settled.of_pc {q : PrefetchQueue} {call : ReadCall} (hawaits : awaits call.pc = false)
    (hrefetches : refetches call.pc = false) : Settled q call where
  tracked h := by rw [hawaits] at h; cases h
  refetch h := by rw [hrefetches] at h; cases h
  waiting h := by rw [h] at hawaits; cases hawaits

/-- Another call may erase the results of a timestep that nobody waits for. -/
theorem Settled.pruned {s s' : Stage} {call : ReadCall} (h : Settled s.queue call)
    (hp : s.Pruned s' t)
    (halone : s.queue.completed.lookup t ≠ none ∨ s.queue.failed.lookup t ≠ none →
      call.timestep = t → awaits call.pc = false) : Settled s'.queue call := by
  have hpending := hp.pending
  -- the look erases results of its own timestep only
  by_cases ht : call.timestep = t
  -- and if there was one, nobody else waits for it
  · by_cases hresult : s.queue.completed.lookup t ≠ none ∨ s.queue.failed.lookup t ≠ none
    · have hawaits := halone hresult ht
      refine ⟨fun hpc => ?_, fun hpc => ?_, fun hpc => ?_⟩
      · rw [hawaits] at hpc
        cases hpc
      · have hnone := h.refetch hpc
        rw [ht] at hnone ⊢
        rcases hp.completed_self with heq | heq
        · exact heq.trans hnone
        · exact heq
      · rw [hpc] at hawaits
        cases hawaits
    · -- there was nothing to erase
      rw [not_or, not_not, not_not] at hresult
      refine h.congr (by rw [hpending]; exact id) ?_ ?_
      · rw [ht, hresult.1]
        rcases hp.completed_self with heq | heq
        · exact heq.trans hresult.1
        · exact heq
      · rw [ht, hresult.2]
        rcases hp.failed_self with heq | heq
        · exact heq.trans hresult.2
        · exact heq
  · exact h.congr (by rw [hpending]; exact id) (hp.completed _ ht) (hp.failed _ ht)

/-! ### Undisturbed runs -/

/-- Whether the next section of call `c` looks at the results of its timestep. -/
def looks (s : PrefetchRun) (c : Nat) : Bool :=
  match (s.calls c).pc with
  | .entering => decide ((s.calls c).kind = .getBuffer) && s.stage.queue.kickedOff
  | .checking | .looping | .rechecking | .waiting _ => true
  | _ => false

/-- No call but `c` waits for timestep `t`. -/
def aloneOn (s : PrefetchRun) (c : Nat) (t : Int) : Bool :=
  (List.range s.ncalls).all fun c' =>
    c' == c || !(decide ((s.calls c').timestep = t) && awaits (s.calls c').pc)

/-- There is a result for the timestep of call `c`, and another call waits for it. -/
def contended (s : PrefetchRun) (c : Nat) : Bool :=
  let t := (s.calls c).timestep
  ((s.stage.queue.completed.lookup t).isSome || (s.stage.queue.failed.lookup t).isSome) &&
    !s.aloneOn c t

/-- Some call has dropped a stale buffer of timestep `t` and not taken the lock again. -/
def refetching (s : PrefetchRun) (t : Int) : Bool :=
  (List.range s.ncalls).any fun c =>
    decide ((s.calls c).timestep = t) && refetches (s.calls c).pc

/-- The steps of an undisturbed run: no call takes or drops a result that another call waits for; no
fetch completes while a call refetches its timestep; no fetch is lost. -/
def undisturbed (s : PrefetchRun) : ReadOp → Bool
  -- nobody takes a result that another call waits for
  | .call c => !(s.looks c && s.contended c)
  | .expire c => !s.contended c
  | .submit _ lost => !lost
  -- nor is a buffer filed while a call refetches its timestep
  | .fetch f .mark =>
    match (s.fetches f).phase with
    | .filled buf => s.stage.overCapacity buf || !s.refetching (s.fetches f).timestep
    | _ => true
  | .fetch f (.acquire alloc) =>
    decide ((s.stage.pool.acquireOnce (s.requestedBytes f) alloc).1 ≠ .threw)
  | .fetch f (.giveUp alloc) =>
    decide ((s.stage.pool.acquireFinal (s.requestedBytes f) alloc).1 ≠ .threw)
  | _ => true

/-! ### The invariant -/

structure WaitInv (s : PrefetchRun) : Prop where
  calls : ∀ c, s.ncalls ≤ c → ∃ status out, (s.calls c).pc = .returned status out
  fetches : ∀ f, s.nfetches ≤ f → (s.fetches f).phase = .finished
  kept : ∀ f, (s.fetches f).phase ≠ .lost
  shape : ∀ c, Shape (s.calls c)
  -- cancellation empties the books while fetches are still under way
  live : s.stage.queue.cancelled = false →
    Tracked s ∧ ∀ c, Settled s.stage.queue (s.calls c)

theorem WaitInv.start (depth : Nat) (id : UInt64) (name : List UInt8) (info : VariableInfo)
    (a : PoolArgs) : WaitInv (start depth id name info a) where
  calls _ _ := ⟨_, _, rfl⟩
  fetches _ _ := rfl
  kept _ := nofun
  shape _ := trivial
  live _ := ⟨(Books.start depth id name info a).tracked rfl, fun _ => .of_pc rfl rfl⟩

/-- An uncontended call is the only one that waits for a result of its timestep. -/
theorem WaitInv.alone (hs : WaitInv s) (h : s.contended c = false)
    (hresult : s.stage.queue.completed.lookup (s.calls c).timestep ≠ none ∨
      s.stage.queue.failed.lookup (s.calls c).timestep ≠ none) (hne : c' ≠ c)
    (ht : (s.calls c').timestep = (s.calls c).timestep) : awaits (s.calls c').pc = false := by
  rcases Nat.lt_or_ge c' s.ncalls with hlt | hge
  -- the step is uncontended and a result is there, so nobody else awaits it
  · have halone : s.aloneOn c (s.calls c).timestep = true := by
      have hsome : ((s.stage.queue.completed.lookup (s.calls c).timestep).isSome ||
          (s.stage.queue.failed.lookup (s.calls c).timestep).isSome) = true := by
        simpa [Option.isSome_iff_ne_none] using hresult
      simpa [contended, hsome] using h
    have hc' := List.all_eq_true.mp halone c' (List.mem_range.mpr hlt)
    simpa [hne, ht] using hc'
  · obtain ⟨status, out, hpc⟩ := hs.calls c' hge
    rw [hpc]
    rfl

/-- No call refetches a timestep when `refetching` says so. -/
theorem WaitInv.not_refetching (hs : WaitInv s) (h : s.refetching t = false)
    (ht : (s.calls c).timestep = t) : refetches (s.calls c).pc = false := by
  rcases Nat.lt_or_ge c s.ncalls with hlt | hge
  · have hc := List.any_eq_false.mp h c (List.mem_range.mpr hlt)
    simpa [ht] using hc
  · obtain ⟨status, out, hpc⟩ := hs.calls c hge
    rw [hpc]
    rfl

/-! ### Calls -/

/-- A call moves. -/
theorem WaitInv.goto (hs : WaitInv s) (hb : Books ((s.withStage st).goto c pc))
    (hcancelled : st.queue.cancelled = s.stage.queue.cancelled)
    (hshape : Shape { s.calls c with pc := pc })
    (hlive : s.stage.queue.cancelled = false → Settled st.queue { s.calls c with pc := pc } ∧
      ∀ c', c' ≠ c → Settled st.queue (s.calls c')) :
    WaitInv ((s.withStage st).goto c pc) where
  calls := hb.bounded.calls
  fetches := hb.bounded.fetches
  kept := hs.kept
  -- the call that moves, and the others
  shape c' := by
    by_cases h : c' = c
    · subst h
      rw [goto_calls_self]
      exact hshape
    · rw [goto_calls_of_ne _ _ h]
      exact hs.shape c'
  live hlive' := by
    obtain ⟨hself, hothers⟩ := hlive (hcancelled ▸ hlive')
    refine ⟨hb.tracked hlive', fun c' => ?_⟩
    by_cases h : c' = c
    · subst h
      rw [goto_calls_self]
      exact hself
    · rw [goto_calls_of_ne _ _ h]
      exact hothers c' h

/-- A section that may have erased results of the call's timestep. -/
theorem WaitInv.pruned (hs : WaitInv s) (hb : Books ((s.withStage st).goto c pc))
    (hp : s.stage.Pruned st (s.calls c).timestep) (hcontended : s.contended c = false)
    (hends : (∃ status out, pc = .returned status out) ∨
      pc = .scheduling (s.calls c).timestep .loop ∨
      (pc = .scheduling (s.calls c).timestep .recheck ∧
        st.queue.completed.lookup (s.calls c).timestep = none) ∨
      (pc = .waiting false ∧
        (s.stage.queue.cancelled = false → (s.calls c).timestep ∈ s.stage.queue.pending))) :
    WaitInv ((s.withStage st).goto c pc) := by
  refine hs.goto hb hp.cancelled ?_ fun hlive => ⟨?_, fun c' hne => ?_⟩
  · rcases hends with ⟨_, _, rfl⟩ | rfl | ⟨rfl, -⟩ | ⟨rfl, -⟩ <;> trivial
  · rcases hends with ⟨_, _, rfl⟩ | rfl | ⟨rfl, hnone⟩ | ⟨rfl, hpending⟩
    · exact .of_pc rfl rfl
    · exact .of_pc rfl rfl
    · exact ⟨nofun, fun _ => hnone, nofun⟩
    · have hmem : (s.calls c).timestep ∈ st.queue.pending := by
        rw [hp.pending]
        exact hpending hlive
      exact ⟨fun _ => tracked_iff.mpr (.inl hmem), nofun, fun _ => hmem⟩
  -- what was erased, nobody else was waiting for
  · exact ((hs.live hlive).2 c').pruned hp fun hresult ht => hs.alone hcontended hresult hne ht

/-- A call goes where it relies on nothing, and the books stay as they are. -/
theorem WaitInv.idle (hs : WaitInv s) (q : PrefetchQueue)
    (hb : Books ((s.withStage (s.stage.withQueue q)).goto c pc))
    (hpending : q.pending = s.stage.queue.pending)
    (hcompleted : q.completed = s.stage.queue.completed)
    (hfailed : q.failed = s.stage.queue.failed)
    (hcancelled : q.cancelled = s.stage.queue.cancelled)
    (hends : (∃ t k, pc = .scheduling t (.window k)) ∨ (∃ t, pc = .scheduling t .done) ∨
      pc = .checking ∨ ∃ status out, pc = .returned status out) :
    WaitInv ((s.withStage (s.stage.withQueue q)).goto c pc) := by
  refine hs.goto hb hcancelled ?_ fun hlive => ⟨?_, fun c' _ => ?_⟩
  · rcases hends with ⟨_, _, rfl⟩ | ⟨_, rfl⟩ | rfl | ⟨_, _, rfl⟩ <;> trivial
  · rcases hends with ⟨_, _, rfl⟩ | ⟨_, rfl⟩ | rfl | ⟨_, _, rfl⟩ <;> exact .of_pc rfl rfl
  · exact ((hs.live hlive).2 c').congr (hpending ▸ id) (hcompleted ▸ rfl) (hfailed ▸ rfl)

/-- The latch does not move anybody. -/
theorem WaitInv.latch (hs : WaitInv s) (bbox : Option Bbox) : WaitInv (s.latch bbox) := by
  refine ⟨hs.calls, hs.fetches, hs.kept, hs.shape, fun hlive => ?_⟩
  obtain ⟨⟨hpending, hunique, hfresh⟩, hsettled⟩ := hs.live hlive
  exact ⟨⟨hpending, hunique, hfresh⟩, fun c => (hsettled c).congr id rfl rfl⟩

/-- The section of `schedule_fetch` that inserts the timestep into `pending_`. -/
theorem WaitInv.track (hs : WaitInv s) {next : After} {sel : Option Bbox}
    (hb : Books ((s.withStage (s.stage.withQueue
      { s.stage.queue with pending := insert t s.stage.queue.pending })).goto c
        (.submitting t sel next)))
    (hpc : (s.calls c).pc = .scheduling t next) :
    WaitInv ((s.withStage (s.stage.withQueue
      { s.stage.queue with pending := insert t s.stage.queue.pending })).goto c
        (.submitting t sel next)) := by
  refine hs.goto hb rfl ?_ fun hlive => ⟨?_, fun c' _ => ?_⟩
  · have hshape := hs.shape c
    rw [Shape, hpc] at hshape
    cases next <;> exact hshape
  · have hsettled := (hs.live hlive).2 c
    refine ⟨nofun, fun hrefetch => ?_, nofun⟩
    refine hsettled.refetch ?_
    rw [hpc]
    cases next <;> first | rfl | cases hrefetch
  · exact ((hs.live hlive).2 c').congr (Finset.mem_insert_of_mem) rfl rfl

/-- Where a call is when `schedule_fetch` has returned, and what it knows there. -/
theorem settled_resume {next : After} (sel : Option Bbox) {q : PrefetchQueue}
    (hpc : (s.calls c).pc = .scheduling t next ∨ (s.calls c).pc = .submitting t sel next)
    (hsettled : Settled q (s.calls c)) (hshape : Shape (s.calls c))
    (htracked : q.tracked t = true) : Settled q { s.calls c with pc := s.resume c next } := by
  -- a call that goes on to wait has scheduled its own timestep
  have ht : next = .loop ∨ next = .recheck → t = (s.calls c).timestep := by
    unfold Shape at hshape
    rintro (rfl | rfl) <;> rcases hpc with hpc | hpc <;> (rw [hpc] at hshape; exact hshape)
  cases next with
  | window k =>
    simp only [resume]
    rcases windowPc_cases s c (k + 1) with ⟨_, _, h⟩ | h | ⟨_, _, h⟩ <;>
      (rw [h]; exact .of_pc rfl rfl)
  | done => exact .of_pc rfl rfl
  | loop => exact ⟨fun _ => ht (.inl rfl) ▸ htracked, nofun, nofun⟩
  | recheck =>
    refine ⟨fun _ => ht (.inr rfl) ▸ htracked, fun _ => hsettled.refetch ?_, nofun⟩
    rcases hpc with hpc | hpc <;> (rw [hpc]; rfl)

/-- What follows a submission has the right shape. -/
theorem shape_resume {next : After} : Shape { s.calls c with pc := s.resume c next } := by
  cases next with
  | window k =>
    simp only [resume]
    rcases windowPc_cases s c (k + 1) with ⟨_, _, h⟩ | h | ⟨_, _, h⟩ <;> (rw [h]; trivial)
  | loop | recheck | done => trivial

/-- A step of a call strands nobody. -/
theorem WaitInv.callMove (hs : WaitInv s) (hb : Books ((s.withStage st).goto c pc))
    (hguard : s.undisturbed (.call c) = true) (h : CallMove s c st pc) :
    WaitInv ((s.withStage st).goto c pc) := by
  have hcontended : s.looks c = true → s.contended c = false := by
    intro hlooks
    simpa [undisturbed, hlooks] using hguard
  have hwindow : (∃ t k, s.windowPc c 0 = .scheduling t (.window k)) ∨
      (∃ t, s.windowPc c 0 = .scheduling t .done) ∨ s.windowPc c 0 = .checking ∨
      ∃ status out, s.windowPc c 0 = .returned status out :=
    (windowPc_cases s c 0).imp_right .inr
  cases h with
  | enter at_ kind kicked sec ends =>
    have hlooks : s.looks c = true := by simp [looks, at_, kind, kicked]
    refine (hs.latch (s.calls c).bbox).pruned hb sec.pruned (hcontended hlooks) ?_
    rcases ends with hret | hloop | ⟨hwait, hpending⟩
    · exact .inl hret
    · exact .inr (.inl hloop)
    · exact .inr (.inr (.inr ⟨hwait, fun _ => hpending⟩))
  | first at_ sec ends =>
    have hlooks : s.looks c = true := by simp [looks, at_]
    refine hs.pruned hb sec.pruned (hcontended hlooks) ?_
    rcases ends with hret | hloop | ⟨hwait, hpending⟩
    · exact .inl hret
    · exact .inr (.inl hloop)
    · exact .inr (.inr (.inr ⟨hwait, fun _ => hpending⟩))
  | loop at_ sec ends =>
    have hlooks : s.looks c = true := by
      rcases at_ with at_ | ⟨_, at_⟩ <;> simp [looks, at_]
    have hawaits : awaits (s.calls c).pc = true := by
      rcases at_ with at_ | ⟨_, at_⟩ <;> (rw [at_]; rfl)
    refine hs.pruned hb sec.pruned (hcontended hlooks) ?_
    rcases ends with ⟨hpc, -, hnone⟩ | ⟨hret | ⟨hwait, -, hfailed, hlive⟩, hnone⟩
    · exact .inr (.inr (.inl ⟨hpc, hnone⟩))
    · exact .inl hret
    · refine .inr (.inr (.inr ⟨hwait, fun _ => ?_⟩))
      -- the timestep was tracked, and it has neither result
      have hcompleted : s.stage.queue.completed.lookup (s.calls c).timestep = none := by
        rcases hnone with ⟨_, _, hret⟩ | hnone
        · rw [hret] at hwait
          cases hwait
        · exact hnone
      rcases tracked_iff.mp (((hs.live hlive).2 c).tracked hawaits) with h | h | h
      · exact h
      · exact absurd hcompleted h
      · exact absurd hfailed h
  | recheck at_ sec ends =>
    have hlooks : s.looks c = true := by simp [looks, at_]
    refine hs.pruned hb sec.pruned (hcontended hlooks) ?_
    rcases ends with hret | ⟨hwait, -, hfailed, hlive⟩
    · exact .inl hret
    · refine .inr (.inr (.inr ⟨hwait, fun _ => ?_⟩))
      -- `completed_` is not looked at here: that nothing has been staged since the stale buffer was
      -- dropped is what the run has to provide
      have hsettled := (hs.live hlive).2 c
      rcases tracked_iff.mp (hsettled.tracked (by rw [at_]; rfl)) with h | h | h
      · exact h
      · exact absurd (hsettled.refetch (by rw [at_]; rfl)) h
      · exact absurd hfailed h
  | kick at_ kind =>
    exact hs.idle { s.stage.queue with latchedBbox := (s.calls c).bbox, kickedOff := true } hb
      rfl rfl rfl rfl hwindow
  | next at_ kind ends =>
    refine hs.idle s.stage.queue hb rfl rfl rfl rfl ?_
    rcases ends with rfl | rfl
    · exact .inr (.inr (.inr ⟨_, _, rfl⟩))
    · exact .inr (.inl ⟨_, rfl⟩)
  | initial at_ kind =>
    exact hs.idle { s.stage.queue with kickedOff := true } hb rfl rfl rfl rfl hwindow
  | track at_ live fresh => exact hs.track hb at_
  | @skip t next at_ why =>
    refine hs.goto hb rfl shape_resume fun hlive => ⟨?_, fun c' _ => (hs.live hlive).2 c'⟩
    refine settled_resume none (.inl at_) ((hs.live hlive).2 c) (hs.shape c) ?_
    rcases why with hcancelled | htracked
    · rw [hlive] at hcancelled
      cases hcancelled
    · exact htracked

/-- `submit_prefetch`: the fetch takes over from the call. -/
theorem WaitInv.submitStep (hs : WaitInv s) (hb : Books s')
    (h : s.submitStep c false = some s') : WaitInv s' := by
  obtain ⟨t, sel, next, hpc, -, rfl⟩ := submitStep_cases h
  -- the timestep of the submission is pending, so that the call may wait for it
  have hgoto : s.stage.queue.cancelled = false → Settled s.stage.queue
      { s.calls c with pc := s.resume c next } := fun hlive =>
    settled_resume _ (.inr hpc) ((hs.live hlive).2 c) (hs.shape c)
      (tracked_iff.mpr (.inl (((hs.live hlive).1.pending t).mpr ⟨.call c, sel, next, hpc⟩)))
  refine ⟨hb.bounded.calls, hb.bounded.fetches, fun f => ?_, fun c' => ?_,
    fun hlive => ⟨hb.tracked hlive, fun c' => ?_⟩⟩
  -- the new fetch is queued, not lost
  · by_cases hf : f = s.nfetches
    · subst hf
      simp
    · simp only [Function.update_of_ne hf]
      exact hs.kept f
  · by_cases h : c' = c
    · subst h
      simp only [goto_calls_self]
      exact shape_resume
    · simp only [goto_calls_of_ne _ _ h]
      exact hs.shape c'
  · by_cases h : c' = c
    · subst h
      simp only [goto_calls_self]
      exact hgoto hlive
    · simp only [goto_calls_of_ne _ _ h]
      exact (hs.live hlive).2 c'

/-- A timeout strands nobody, unless another call waits for the timestep. -/
theorem WaitInv.expireStep (hs : WaitInv s) (hb : Books s')
    (hcontended : s.contended c = false) (h : s.expireStep c = some s') : WaitInv s' := by
  obtain ⟨notified, status, out, st, -, hlast, rfl⟩ := expireStep_cases h
  have hpruned := Stage.Pruned.lastCheck s.stage c (s.calls c).timestep
  rw [hlast] at hpruned
  exact hs.pruned hb hpruned hcontended (.inl ⟨_, _, rfl⟩)

/-! ### Fetches -/

/-- A fetch moves on without ending, and without a look at the queue. -/
theorem WaitInv.setPhase (hs : WaitInv s) {phase : FetchPhase}
    (hb : Books ((s.withStage st).setPhase f phase)) (hqueue : st.queue = s.stage.queue)
    (hkept : phase ≠ .lost) : WaitInv ((s.withStage st).setPhase f phase) := by
  refine ⟨hb.bounded.calls, hb.bounded.fetches, fun f' => ?_, hs.shape, fun hlive => ?_⟩
  · rw [fetches_setPhase]
    split
    · exact hkept
    · exact hs.kept f'
  · refine ⟨hb.tracked hlive, fun c => ?_⟩
    have hsettled := (hs.live (hqueue ▸ hlive)).2 c
    rw [← hqueue] at hsettled
    exact hsettled

/-- A call that is notified keeps its shape. -/
theorem Shape.notify {call : ReadCall} (h : Shape call) :
    Shape { call with pc := call.pc.notify } := by
  obtain ⟨kind, t, bbox, pc, released⟩ := call
  cases pc <;> exact h

/-- **A fetch ends** with a result for its timestep and a `notify_all`. -/
theorem WaitInv.finishFetch (hs : WaitInv s)
    (hb : Books (((s.withStage st).setPhase f .finished).notifyIf true))
    (hcancelled : st.queue.cancelled = s.stage.queue.cancelled)
    (hpending : st.queue.pending = s.stage.queue.pending.erase (s.fetches f).timestep)
    (hcompleted : ∀ t, t ≠ (s.fetches f).timestep →
      st.queue.completed.lookup t = s.stage.queue.completed.lookup t)
    (hfailed : ∀ t, t ≠ (s.fetches f).timestep →
      st.queue.failed.lookup t = s.stage.queue.failed.lookup t)
    (hresult : st.queue.tracked (s.fetches f).timestep = true)
    (hrefetch : s.stage.queue.cancelled = false → ∀ c,
      (s.calls c).timestep = (s.fetches f).timestep → refetches (s.calls c).pc = true →
      st.queue.completed.lookup (s.fetches f).timestep = none) :
    WaitInv (((s.withStage st).setPhase f .finished).notifyIf true) := by
  refine ⟨hb.bounded.calls, hb.bounded.fetches, fun f' => ?_, fun c => (hs.shape c).notify,
    fun hlive => ⟨hb.tracked hlive, fun c => ?_⟩⟩
  · change (((s.withStage st).setPhase f .finished).fetches f').phase ≠ .lost
    rw [fetches_setPhase]
    split
    · exact nofun
    · exact hs.kept f'
  · have hlive' : s.stage.queue.cancelled = false := hcancelled ▸ hlive
    have hsettled := (hs.live hlive').2
    have hawaits : awaits (s.calls c).pc.notify = awaits (s.calls c).pc := by
      cases (s.calls c).pc <;> rfl
    have hrefetches : refetches (s.calls c).pc.notify = refetches (s.calls c).pc := by
      cases (s.calls c).pc <;> rfl
    refine ⟨fun hpc => ?_, fun hpc => ?_, fun hpc => ?_⟩
    -- its own timestep has a result now; the books of the others are as they were
    · by_cases ht : (s.calls c).timestep = (s.fetches f).timestep
      · exact ht ▸ hresult
      · have hbefore := (hsettled c).tracked (hawaits ▸ hpc)
        have hafter : st.queue.tracked (s.calls c).timestep = true := by
          rw [tracked_iff] at hbefore ⊢
          rw [hpending, Finset.mem_erase, hcompleted _ ht, hfailed _ ht]
          exact hbefore.imp_left fun h => ⟨ht, h⟩
        exact hafter
    · by_cases ht : (s.calls c).timestep = (s.fetches f).timestep
      · exact ht ▸ hrefetch hlive' c ht (hrefetches ▸ hpc)
      · exact (hcompleted _ ht).trans ((hsettled c).refetch (hrefetches ▸ hpc))
    · have hpc : (s.calls c).pc.notify = .waiting false := hpc
      cases hpc' : (s.calls c).pc <;> (rw [hpc'] at hpc; cases hpc)

/-- A step of a fetch strands nobody. -/
theorem WaitInv.fetchMove (hs : WaitInv s) {phase : FetchPhase} {notify : Bool}
    (hb : Books (((s.withStage st).setPhase f phase).notifyIf notify)) (hlost : phase ≠ .lost)
    (hguard : ∀ buf, (s.fetches f).phase = .filled buf → s.stage.overCapacity buf = false →
      s.refetching (s.fetches f).timestep = false)
    (h : FetchMove s f st phase notify) :
    WaitInv (((s.withStage st).setPhase f phase).notifyIf notify) := by
  cases h with
  | started at_ live => exact hs.setPhase hb rfl nofun
  | dropped at_ cancelled =>
    -- a cancelled fetch leaves without a notification, and a cancelled queue promises nothing
    refine ⟨hb.bounded.calls, hb.bounded.fetches, fun f' => ?_, hs.shape, fun hlive => ?_⟩
    · change (((s.withStage _).setPhase f .finished).fetches f').phase ≠ .lost
      rw [fetches_setPhase]
      split
      · exact nofun
      · exact hs.kept f'
    · rw [show s.stage.queue.cancelled = false from hlive] at cancelled
      cases cancelled
  | got at_ ha => exact hs.setPhase hb rfl nofun
  | refused at_ ha ends => exact hs.setPhase hb rfl hlost
  | answered at_ payload => exact hs.setPhase hb rfl nofun
  | threw at_ => exact hs.setPhase hb rfl nofun
  | released at_ => exact hs.setPhase hb rfl nofun
  | @completed buf at_ fits =>
    refine hs.finishFetch hb rfl rfl ?_ (fun _ _ => rfl) ?_ ?_
    · exact fun t ht => (StepMap.lookup_insert _ _ t _).trans (if_neg ht)
    · refine tracked_iff.mpr (.inr (.inl ?_))
      have hlookup : (s.stage.complete (s.fetches f).timestep buf
          (s.fetches f).sel).queue.completed.lookup (s.fetches f).timestep = some buf :=
        AList.lookup_insert _
      rw [hlookup]
      simp
    · intro _ c ht hpc
      rw [hs.not_refetching (hguard buf at_ fits) ht] at hpc
      cases hpc
  | @failed err err_ne at_ =>
    refine hs.finishFetch hb rfl rfl (fun _ _ => rfl) ?_ ?_ ?_
    · exact fun t ht => (StepMap.lookup_insert _ _ t _).trans (if_neg ht)
    · refine tracked_iff.mpr (.inr (.inr ?_))
      rw [show (s.stage.fail (s.fetches f).timestep err).queue.failed.lookup
        (s.fetches f).timestep = some err from AList.lookup_insert _]
      simp
    · intro hlive c ht hpc
      exact ht ▸ ((hs.live hlive).2 c).refetch hpc

/-- The phase of the fetch that moved. -/
theorem phase_notifyIf (s : PrefetchRun) (st : Stage) (f : Nat) (phase : FetchPhase)
    (notify : Bool) :
    ((((s.withStage st).setPhase f phase).notifyIf notify).fetches f).phase = phase := by
  cases notify <;> simp [notifyIf, notifyAll, PrefetchRun.setPhase]

/-- What an undisturbed run excludes in a step of a fetch. -/
theorem undisturbed_fetch {op : FetchOp} (hguard : s.undisturbed (.fetch f op) = true)
    (h : s.fetchStep f op = some s') : (s'.fetches f).phase ≠ .lost ∧
      ∀ buf, (s.fetches f).phase = .filled buf → s.stage.overCapacity buf = false →
        s.refetching (s.fetches f).timestep = false := by
  constructor
  · refine fetchStep_kept ?_ ?_ h
    · rintro alloc rfl
      simpa [undisturbed] using hguard
    · rintro alloc rfl
      simpa [undisturbed] using hguard
  · intro buf hphase hfits
    obtain rfl := fetchStep_mark (.inl ⟨buf, hphase⟩) h
    simpa [undisturbed, hphase, hfits] using hguard

/-! ### Runs -/

/-- The invariant reads neither the pool nor the ghost maps. -/
theorem WaitInv.of_queue (hs : WaitInv s) (hb : Books s')
    (hqueue : s'.stage.queue = s.stage.queue)
    (hcalls : ∀ c, (s'.calls c).pc = (s.calls c).pc ∧ (s'.calls c).timestep = (s.calls c).timestep)
    (hfetches : s'.fetches = s.fetches) : WaitInv s' := by
  refine ⟨hb.bounded.calls, hb.bounded.fetches, fun f => ?_, fun c => ?_,
    fun hlive => ⟨hb.tracked hlive, fun c => ?_⟩⟩
  · rw [hfetches]
    exact hs.kept f
  · have hshape := hs.shape c
    unfold Shape at hshape ⊢
    rw [(hcalls c).1, (hcalls c).2]
    exact hshape
  · rw [hqueue] at hlive ⊢
    obtain ⟨h1, h2, h3⟩ := (hs.live hlive).2 c
    rw [← (hcalls c).1, ← (hcalls c).2] at h1 h2 h3
    exact ⟨h1, h2, h3⟩

/-- A call that begins strands nobody. -/
theorem WaitInv.begin (hs : WaitInv s) {kind : ReadKind} {bbox : Option Bbox}
    (hb : Books (s.beginCall kind t bbox)) : WaitInv (s.beginCall kind t bbox) := by
  have hcall : ∀ c, c ≠ s.ncalls → (s.beginCall kind t bbox).calls c = s.calls c :=
    fun c hc => Function.update_of_ne hc _ _
  have hself : ((s.beginCall kind t bbox).calls s.ncalls).pc = .entering := by
    simp only [beginCall, Function.update_self]
  refine ⟨hb.bounded.calls, hs.fetches, hs.kept, fun c => ?_,
    fun hlive => ⟨hb.tracked hlive, fun c => ?_⟩⟩
  · by_cases hc : c = s.ncalls
    · subst hc
      rw [Shape, hself]
      trivial
    · rw [hcall c hc]
      exact hs.shape c
  · by_cases hc : c = s.ncalls
    · subst hc
      exact .of_pc (by rw [hself]; rfl) (by rw [hself]; rfl)
    · rw [hcall c hc]
      exact (hs.live hlive).2 c

/-- **An undisturbed step strands nobody.** -/
theorem WaitInv.step (hs : WaitInv s) (hb : Books s') {op : ReadOp}
    (hguard : s.undisturbed op = true) (h : s.step op = some s') : WaitInv s' := by
  cases step_cases h with
  | begins kind t bbox => exact hs.begin hb
  | calls lt ran =>
    obtain ⟨st, pc, rfl, hmove⟩ := callStep_cases ran
    exact hs.callMove hb hguard hmove
  | @submits c lost s' lt ran =>
    obtain rfl : lost = false := by simpa [undisturbed] using hguard
    exact hs.submitStep hb ran
  | @expires c s' lt ran =>
    have hcontended : s.contended c = false := by simpa [undisturbed] using hguard
    exact hs.expireStep hb hcontended ran
  | fetches lt ran =>
    obtain ⟨hlost, hfilled⟩ := undisturbed_fetch hguard ran
    obtain ⟨st, phase, notify, rfl, hmove⟩ := fetchStep_cases ran
    refine hs.fetchMove hb ?_ hfilled hmove
    rwa [phase_notifyIf] at hlost
  | @releases c s' lt ran =>
    obtain ⟨buf, -, -, rfl⟩ := releaseStep_cases ran
    refine hs.of_queue hb rfl (fun c' => ?_) rfl
    by_cases hc : c' = c
    · subst hc
      simp
    · simp [hc]
  | cancels =>
    refine ⟨hb.bounded.calls, hs.fetches, hs.kept, fun c => (hs.shape c).notify, fun hlive => ?_⟩
    -- a cancelled queue promises nothing
    have hcancelled := congrArg PrefetchQueue.cancelled (Stage.cancelPending_queue s.stage)
    cases hcancelled.symm.trans hlive
  | shuts => exact hs.of_queue hb rfl (fun _ => ⟨rfl, rfl⟩) rfl
  | others ran =>
    obtain ⟨st, rfl, hqueue⟩ := otherStep_queue ran
    exact hs.of_queue hb hqueue (fun _ => ⟨rfl, rfl⟩) rfl

/-- Call `c` waits for something: a fetch of its timestep is outstanding and will notify it, and
there is no result for it yet. -/
structure Awaited (s : PrefetchRun) (c : Nat) : Prop where
  pending : (s.calls c).timestep ∈ s.stage.queue.pending
  outstanding : (∃ c' sel next, (s.calls c').pc = .submitting (s.calls c).timestep sel next) ∨
    ∃ f, (s.fetches f).timestep = (s.calls c).timestep ∧ (s.fetches f).phase ≠ .finished ∧
      (s.fetches f).phase ≠ .lost
  unfailed : s.stage.queue.failed.lookup (s.calls c).timestep = none
  unstaged : ∀ i, s.stage.queue.completed.lookup (s.calls c).timestep = some i →
    bboxSame (s.stage.queue.fetchedBbox.lookup (s.calls c).timestep) (s.calls c).bbox = false

/-- **No stranded reader and no lost wake-up**, in every undisturbed run of a queue that is not
cancelled: from the moment a `get_buffer` begins to wait until a notification is issued, it waits
for something. -/
theorem no_stranded_reader (h : system.Reach (fun s op => s.undisturbed op = true) s)
    (hlive : s.stage.queue.cancelled = false) (c : Nat)
    (hwaiting : (s.calls c).pc = .waiting false) : Awaited s c := by
  have hinv : WaitInv s := h.invariant_of (J := Books) (fun _ => Books.of_reach)
    (fun _ ⟨depth, id, name, info, a, hs⟩ _ => hs ▸ .start depth id name info a)
    fun _ _ _ _ hb hs hguard hstep => hs.step hb hguard hstep
  obtain ⟨htracked, hsettled⟩ := hinv.live hlive
  -- a waiter's timestep is pending, and what is pending is being worked on
  have hpending := (hsettled c).waiting hwaiting
  obtain ⟨hcompleted, hfailed⟩ := htracked.fresh _ hpending
  refine ⟨hpending, ?_, hfailed, fun i hi => ?_⟩
  · obtain ⟨x, hx⟩ := (htracked.pending _).mp hpending
    cases x with
    | call c' => exact .inl ⟨c', hx⟩
    | fetch f => exact .inr ⟨f, hx.1, hx.2, hinv.kept f⟩
  · rw [hcompleted] at hi
    cases hi

def firstWaitOps : List ReadOp := warmOps ++ [.begin .getBuffer 0 none, .call 1, .fetch 0 .start]

theorem no_stranded_reader_of_first_wait :
    ∃ s, system.replay (fun s op => s.undisturbed op = true) oneRecord firstWaitOps = some s ∧
      (s.calls 1).pc = .waiting false ∧ Awaited s 1 :=
  ⟨_, rfl, rfl, no_stranded_reader
    (Lts.System.Reach.of_replay firstWaitOps (.init oneRecord_init) rfl) rfl 1 rfl⟩

/-- A reader of the first byte drops the whole record that was staged. Its own fetch completes
before it takes the lock again. -/
def refetchOps : List ReadOp :=
  warmOps ++ [.begin .getBuffer 0 (some firstByte), .call 1] ++ fetchOps 0 [1, 2] ++
    [.call 1, .call 1, .submit 1 false] ++ fetchOps 1 [1] ++ [.call 1]

/-- Two readers of the same record, for which there is one fetch. -/
def twoReadersOps : List ReadOp :=
  warmOps ++ [.begin .getBuffer 0 none, .call 1, .begin .getBuffer 0 none, .call 2] ++
    fetchOps 0 [1, 2] ++ [.call 1, .call 2]

/-- In the first run the reader waits although its buffer is staged; in the second the slower reader
waits for a fetch that nobody has dispatched. -/
theorem readers_stranded :
    (∃ s, system.replay (fun _ _ => True) oneRecord refetchOps = some s ∧ system.Reachable s ∧
      s.stage.queue.cancelled = false ∧ (s.calls 1).pc = .waiting false ∧
      s.stage.queue.completed.lookup 0 = some 0 ∧
      s.stage.queue.fetchedBbox.lookup 0 = some firstByte ∧ ¬ Awaited s 1) ∧
    ∃ s, system.replay (fun _ _ => True) oneRecord twoReadersOps = some s ∧ system.Reachable s ∧
      s.stage.queue.cancelled = false ∧ (s.calls 2).pc = .waiting false ∧
      s.stage.queue.pending = ∅ ∧ ¬ Awaited s 2 := by
  constructor
  · refine ⟨_, rfl, Lts.System.Reachable.of_replay refetchOps oneRecord_init rfl, rfl, rfl, rfl,
      rfl, fun h => ?_⟩
    cases h.unstaged 0 rfl
  · refine ⟨_, rfl, Lts.System.Reachable.of_replay twoReadersOps oneRecord_init rfl, rfl, rfl, rfl,
      fun h => ?_⟩
    exact absurd h.pending (by decide)

end PrefetchRun

end Amio
